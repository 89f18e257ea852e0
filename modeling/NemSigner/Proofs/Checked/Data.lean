import Mathlib.Algebra.Group.Nat.Defs
import Mathlib.Data.Nat.Size
import NemSigner.Proofs.Checked.Pen
import NemSigner.Proofs.Printer.Hex

/-!
# Digits and sanitised text, checked

The digits of a byte string are written in pairs, each at its own position, and a number's digits
are moved to the front when the first is a zero. Text of a transaction is written byte by byte until
the cells end.

## Main definitions

- `Pen.hex`, `Pen.hexNumeral`, `Pen.hexTruncated` — digits of a byte string or a number
- `Pen.ascii` — sanitised text

## Main statements

- `Pen.hex_writes`, `Pen.hexNumeral_eq`, `Pen.hexTruncated_eq` — the digits that are written
- `Pen.ascii_cuts` — sanitised text is cut
-/

namespace NemSigner

namespace Pen

variable {front data cells : Bytes} {letters : Hex.LetterCase}

/-- A part of some other byte string, which must be there. -/
def slice (data : Bytes) (start stop : Nat) : Pen Bytes := fun cells =>
  if start ≤ stop ∧ stop ≤ data.length then .ok ((data.take stop).drop start, cells)
  else .error .outOfRange

/-- A difference of positions, which must not be negative. -/
def minus (n m : Nat) : Pen Nat := fun cells =>
  if m ≤ n then .ok (n - m, cells) else .error .outOfRange

/-- Reads one cell. -/
def peek (position : Nat) : Pen UInt8 := fun cells =>
  match cells[position]? with
  | some byte => .ok (byte, cells)
  | none => .error .outOfRange

/-- Moves cells to the front. -/
def moveDown (start stop : Nat) : Pen Unit := fun cells =>
  if start ≤ stop ∧ stop ≤ cells.length then
    .ok ((), (cells.take stop).drop start ++ cells.drop (stop - start))
  else .error .outOfRange

/-- Writes the digits of a byte string when there are as many cells as that, and says whether there
are. -/
def fillDigits (data : Bytes) : Pen Bool := fun cells =>
  if cells.length = 2 * data.length then .ok (true, Hex.encode .lower data) else .ok (false, cells)

/-- Writes letters of digits in upper case. -/
def raiseByte (byte : UInt8) : UInt8 :=
  if 0x61 ≤ byte ∧ byte ≤ 0x7a then byte - 0x20 else byte

def raise : Pen Unit := fun cells =>
  .ok ((), cells.map raiseByte)

/-- Where the digits of a byte stand: in its place from the front, or from the back. -/
def slot (backwards : Bool) (size index : Nat) : Pen Nat :=
  if backwards then do
    let last ← minus size 1
    minus last index
  else pure index

/-- Writes the digits of bytes one after the other; so many bytes were written already. -/
def digitPairs (backwards : Bool) (size : Nat) : Nat → Bytes → Pen Unit
  | _, [] => pure ()
  | index, byte :: rest => do
    let position ← slot backwards size index
    let filled ← behind (2 * position) (within 2 (fillDigits [byte]))
    if filled then digitPairs backwards size (index + 1) rest else refuse .notEnoughData

/-- Digits of upper case are written in lower case first. -/
def raiseFirst (letters : Hex.LetterCase) (count : Nat) : Pen Unit :=
  match letters with
  | .lower => pure ()
  | .upper => within count raise

/-- Writes the digits of a byte string, which must not be empty. -/
def hex (letters : Hex.LetterCase) (backwards : Bool) (data : Bytes) : Pen Nat := do
  let free ← room
  if data.isEmpty ∨ free < 2 * data.length then refuse .notEnoughData
  else
    digitPairs backwards data.length 0 data
    raiseFirst letters (2 * data.length)
    return 2 * data.length

/-- The bits in front of the highest one of sixty-four. -/
def leadingZeros (n : Nat) : Nat :=
  64 - n.size

/-- Moves digits to the front when the first of several is a zero. -/
def dropZero (count : Nat) : Pen Nat :=
  if 1 < count then do
    let first ← peek 0
    if first = 0x30 then
      moveDown 1 count
      minus count 1
    else return count
  else return count

/-- Writes a number of sixty-four bits without leading zeros. -/
def hexNumeral (n : Nat) : Pen Nat := do
  let bytes := Bytes.ofNatBE 8 n
  let data ← slice bytes (min (leadingZeros n / 8) (8 - 1)) 8
  let count ← hex .lower false data
  dropZero count

/-- Writes the digits of as many bytes as there are cells for. -/
def hexTruncated (data : Bytes) : Pen Nat := do
  let free ← room
  let count := min data.length (free / 2)
  let shown ← slice data 0 count
  let filled ← within (count * 2) (fillDigits shown)
  return if filled then count * 2 else 0

/-- Writes sanitised text; `paired` says that the byte before was replaced. -/
def asciiBehind (paired : Bool) : Nat → Bytes → Pen Nat
  | count, [] => pure count
  | count, byte :: rest => do
    let free ← room
    if free ≤ count then return count
    else if Bytes.isPrintable byte then
      put count byte
      asciiBehind false (count + 1) rest
    else if paired then asciiBehind false count rest
    else
      put count Printer.questionMark
      asciiBehind true (count + 1) rest

def ascii (data : Bytes) : Pen Nat :=
  asciiBehind false 0 data

theorem slice_of_le {start stop : Nat} (hstart : start ≤ stop) (hstop : stop ≤ data.length)
    (cells : Bytes) : slice data start stop cells = .ok ((data.take stop).drop start, cells) :=
  if_pos ⟨hstart, hstop⟩

theorem minus_of_le {n m : Nat} (h : m ≤ n) (cells : Bytes) :
    minus n m cells = .ok (n - m, cells) :=
  if_pos h

/-! ### Digits -/

theorem raiseByte_digit :
    ∀ value < 16, raiseByte (Hex.digit .lower value) = Hex.digit .upper value := by
  decide

theorem map_raiseByte_encode (data : Bytes) :
    (Hex.encode .lower data).map raiseByte = Hex.encode .upper data := by
  induction data with
  | nil => rfl
  | cons byte rest ih =>
    rw [Hex.encode, List.flatMap_cons, List.map_append, ← Hex.encode, ih]
    simp only [Hex.encodeByte, List.map_cons, List.map_nil, raiseByte_digit _ (Hex.high_lt byte),
      raiseByte_digit _ (Hex.low_lt byte)]
    rfl

/-- Cells can be divided where one likes. -/
theorem exists_append_of_length {count count' : Nat} (h : cells.length = count + count') :
    ∃ first second : Bytes, first.length = count ∧ second.length = count' ∧
      cells = first ++ second := by
  refine ⟨cells.take count, cells.drop count, ?_, ?_, (List.take_append_drop _ _).symm⟩
  · exact List.length_take_of_le (by omega)
  · rw [List.length_drop]
    omega

/-- One pair of digits is written between what stands in front and behind. -/
theorem digitPairs_cons {backwards : Bool} {size index position : Nat} {pair back : Bytes}
    (hslot : ∀ cells, slot backwards size index cells = .ok (position, cells))
    (hfront : front.length = 2 * position) (hpair : pair.length = 2) (byte : UInt8) (rest : Bytes) :
    digitPairs backwards size index (byte :: rest) (front ++ (pair ++ back)) =
      digitPairs backwards size (index + 1) rest
        (front ++ (Hex.encodeByte .lower byte ++ back)) := by
  have hfill : fillDigits [byte] pair = .ok (true, Hex.encodeByte .lower byte) := if_pos hpair
  have hwritten : behind (2 * position) (within 2 (fillDigits [byte])) (front ++ (pair ++ back)) =
      .ok (true, front ++ (Hex.encodeByte .lower byte ++ back)) := by
    rw [← hfront, behind_append, within_append hpair, hfill]
    rfl
  rw [digitPairs, bind_of_ok (hslot _), bind_of_ok hwritten]
  rfl

/-- From the front, each pair stands behind those of the bytes before. -/
theorem digitPairs_forwards (size : Nat) {index : Nat} {back : Bytes}
    (hfront : front.length = 2 * index) (hcells : cells.length = 2 * data.length) :
    digitPairs false size index data (front ++ (cells ++ back)) =
      .ok ((), front ++ (Hex.encode .lower data ++ back)) := by
  -- The pairs that are written stand in front, the cells for the others behind them.
  induction data generalizing front cells index with
  | nil =>
    obtain rfl := List.eq_nil_of_length_eq_zero hcells
    rfl
  | cons byte rest ih =>
    obtain ⟨pair, cells, hpair, hrest, rfl⟩ := exists_append_of_length
      (show cells.length = 2 + 2 * rest.length by rw [hcells, List.length_cons]; omega)
    rw [List.append_assoc, digitPairs_cons (fun _ => rfl) hfront hpair, ← List.append_assoc,
      ih _ hrest]
    · simp [Hex.encode]
    · rw [List.length_append, hfront]
      rfl

/-- From the back, each pair stands in front of those of the bytes before. -/
theorem digitPairs_backwards {size index : Nat} {back : Bytes} (hsize : size = index + data.length)
    (hcells : cells.length = 2 * data.length) :
    digitPairs true size index data (cells ++ back) =
      .ok ((), Hex.encode .lower data.reverse ++ back) := by
  -- The pairs that are written stand behind; `size` counts their bytes and those to come, so the
  -- position of a pair is the number of bytes behind its own.
  induction data generalizing cells index back with
  | nil =>
    obtain rfl := List.eq_nil_of_length_eq_zero hcells
    rfl
  | cons byte rest ih =>
    rw [List.length_cons] at hsize hcells
    obtain ⟨cells, pair, hrest, hpair, rfl⟩ := exists_append_of_length
      (show cells.length = 2 * rest.length + 2 by omega)
    have hslot (cells : Bytes) : slot true size index cells = .ok (rest.length, cells) := by
      have hposition : minus (size - 1) index cells = .ok (rest.length, cells) := by
        rw [minus_of_le (by omega), show size - 1 - index = rest.length by omega]
      exact (bind_of_ok (minus_of_le (by omega) cells)).trans hposition
    rw [List.append_assoc, digitPairs_cons hslot hrest hpair, ih (by omega) hrest]
    simp [Hex.encode]

/-- The order of the bytes whose digits are written. -/
theorem digitPairs_eq (backwards : Bool) {back : Bytes} (hcells : cells.length = 2 * data.length) :
    digitPairs backwards data.length 0 data (cells ++ back) =
      .ok ((), Hex.encode .lower (if backwards then data.reverse else data) ++ back) := by
  cases backwards with
  | true => exact digitPairs_backwards (Nat.zero_add _).symm hcells
  | false =>
    exact digitPairs_forwards data.length (show ([] : Bytes).length = 2 * 0 from rfl) hcells

theorem raiseFirst_eq (letters : Hex.LetterCase) (data back : Bytes) :
    raiseFirst letters (2 * data.length) (Hex.encode .lower data ++ back) =
      .ok ((), Hex.encode letters data ++ back) := by
  cases letters with
  | lower => rfl
  | upper =>
    change within _ raise _ = _
    rw [within_append (Hex.length_encode .lower data), raise, map_raiseByte_encode]
    rfl

theorem hex_nil (letters : Hex.LetterCase) (backwards : Bool) (cells : Bytes) :
    hex letters backwards [] cells = .error (.refused .notEnoughData) :=
  rfl

/-- The digits of a byte string are written as one text. -/
theorem hex_writes (letters : Hex.LetterCase) (backwards : Bool) (hdata : data ≠ []) :
    Writes [] (hex letters backwards data)
      (Hex.encode letters (if backwards then data.reverse else data)) := by
  intro cells
  have hlength : (if backwards then data.reverse else data).length = data.length := by
    cases backwards <;> simp
  have hempty : data.isEmpty = false := by simpa using hdata
  rw [List.nil_append, List.nil_append, Hex.length_encode, hlength, hex, room_bind]
  by_cases hroom : 2 * data.length ≤ cells.length
  · obtain ⟨cells, back, hcells, -, rfl⟩ := exists_append_of_length (Nat.add_sub_cancel' hroom).symm
    have hraise := raiseFirst_eq letters (if backwards then data.reverse else data) back
    rw [hlength] at hraise
    have hfits : ¬(data.isEmpty = true ∨ (cells ++ back).length < 2 * data.length) :=
      not_or.mpr ⟨Bool.eq_false_iff.mp hempty, Nat.not_lt_of_le hroom⟩
    rw [if_neg hfits, if_pos hroom, bind_of_ok (digitPairs_eq backwards hcells),
      bind_of_ok hraise, List.drop_left' hcells]
    rfl
  · rw [if_pos (Or.inr (Nat.lt_of_not_le hroom)), if_neg hroom]
    rfl

/-! ### Numbers without leading zeros -/

theorem ofNatLE_succ (width n : Nat) :
    Bytes.ofNatLE (width + 1) n = Bytes.ofNatLE width n ++ [(n / 256 ^ width).toUInt8] := by
  induction width generalizing n with
  | zero => simp [Bytes.ofNatLE]
  | succ width ih =>
    rw [Bytes.ofNatLE, ih, Nat.div_div_eq_div_mul, ← Nat.pow_succ']
    rfl

/-- The highest byte stands in front. -/
theorem ofNatBE_succ (width n : Nat) :
    Bytes.ofNatBE (width + 1) n = (n / 256 ^ width).toUInt8 :: Bytes.ofNatBE width n := by
  rw [Bytes.ofNatBE, ofNatLE_succ, List.reverse_append]
  rfl

/-- As many bytes are left out as the bits in front of the highest one fill, but not the last. -/
theorem significantBytes_ofNatBE (width : Nat) {n : Nat} (h : n < 256 ^ (width + 1)) :
    Printer.significantBytes (Bytes.ofNatBE (width + 1) n) =
      (Bytes.ofNatBE (width + 1) n).drop (min ((8 * (width + 1) - n.size) / 8) width) := by
  have hpow (width : Nat) : (256 : Nat) ^ width = 2 ^ (8 * width) := by rw [Nat.pow_mul]
  induction width with
  | zero => rw [Nat.min_zero]; rfl
  | succ width ih =>
    rw [ofNatBE_succ]
    -- The highest byte is zero exactly when the number fits the others.
    by_cases hlow : n < 256 ^ (width + 1)
    · have hsize : n.size ≤ 8 * (width + 1) := Nat.size_le.mpr (hpow _ ▸ hlow)
      have hskip : min ((8 * (width + 1 + 1) - n.size) / 8) (width + 1) =
          min ((8 * (width + 1) - n.size) / 8) width + 1 := by omega
      have hzero : (n / 256 ^ (width + 1)).toUInt8 = 0 := by rw [Nat.div_eq_of_lt hlow]; rfl
      rw [hskip, List.drop_succ_cons, ← ih hlow, hzero, ofNatBE_succ]
      rfl
    · have hsize : 8 * (width + 1) < n.size := Nat.lt_of_not_le (mt Nat.size_le.mp (hpow _ ▸ hlow))
      have hskip : min ((8 * (width + 1 + 1) - n.size) / 8) (width + 1) = 0 := by omega
      have hbyte : (n / 256 ^ (width + 1)).toUInt8 ≠ 0 := by
        have hpositive : 0 < n / 256 ^ (width + 1) := Nat.div_pos (Nat.le_of_not_lt hlow)
          (Nat.pow_pos (by decide))
        have hlt : n / 256 ^ (width + 1) < 256 := Nat.div_lt_of_lt_mul h
        intro hzero
        have hnat := congrArg UInt8.toNat hzero
        rw [UInt8.toNat_ofNat_of_lt' hlt] at hnat
        exact absurd hnat (Nat.ne_of_gt hpositive)
      rw [hskip, List.drop_zero, ofNatBE_succ, Printer.significantBytes, if_neg hbyte]
      simp

/-- Digits without a zero in front. -/
def withoutZero : Bytes → Bytes
  | 0x30 :: rest => rest
  | digits => digits

theorem withoutZero_of_ne {first : UInt8} {rest : Bytes} (h : first ≠ 0x30) :
    withoutZero (first :: rest) = first :: rest := by
  rw [withoutZero]
  rintro _ ⟨⟩
  exact h rfl

/-- Behind the digits stands what was there before, and in front of it the last of them once more
when a zero has been dropped. -/
theorem dropZero_eq {digits : Bytes} (hdigits : 1 < digits.length) (back : Bytes) :
    dropZero digits.length (digits ++ back) =
      .ok ((withoutZero digits).length,
        withoutZero digits ++ (digits ++ back).drop (withoutZero digits).length) := by
  cases digits with
  | nil => cases hdigits
  | cons first rest =>
    have hpeek : peek 0 (first :: rest ++ back) = .ok (first, first :: rest ++ back) := rfl
    rw [dropZero, if_pos hdigits, bind_of_ok hpeek]
    by_cases hzero : first = 0x30
    · subst hzero
      have hmove : moveDown 1 (0x30 :: rest).length (0x30 :: rest ++ back) =
          .ok ((), rest ++ (0x30 :: rest ++ back).drop rest.length) := by
        have hrange : 1 ≤ (0x30 :: rest).length ∧
            (0x30 :: rest).length ≤ (0x30 :: rest ++ back).length := by simp
        rw [moveDown, if_pos hrange, List.take_left]
        rfl
      rw [if_pos rfl, bind_of_ok hmove, minus_of_le (Nat.le_of_lt hdigits)]
      rfl
    · rw [if_neg hzero, withoutZero_of_ne hzero, List.drop_left]
      rfl

/-- The digits of a number, of which the highest byte has two. -/
def numeralDigits (n : Nat) : Bytes :=
  Hex.encode .lower (Printer.significantBytes (Bytes.ofNatBE 8 n))

theorem length_withoutZero_le (digits : Bytes) : (withoutZero digits).length ≤ digits.length := by
  unfold withoutZero
  split
  · exact Nat.le_succ _
  · exact Nat.le_refl _

/-- The printer of numbers writes all digits, and then drops a zero in front of them. -/
theorem printed_hexNumeral (n : Nat) (buffer : Bytes) :
    Printer.hexNumeral n buffer =
      if (numeralDigits n).length ≤ buffer.length then
        ⟨.ok (withoutZero (numeralDigits n)).length,
          withoutZero (numeralDigits n) ++
            (numeralDigits n ++ buffer.drop (numeralDigits n).length).drop
              (withoutZero (numeralDigits n)).length⟩
      else ⟨.error .notEnoughData, buffer⟩ := by
  have hmatch (digits back : Bytes) : (match digits with
      | 0x30 :: rest => ⟨.ok rest.length, rest ++ (digits ++ back).drop rest.length⟩
      | _ => ⟨.ok digits.length, digits ++ back⟩ : Printed) =
        ⟨.ok (withoutZero digits).length,
          withoutZero digits ++ (digits ++ back).drop (withoutZero digits).length⟩ := by
    unfold withoutZero
    split
    · rfl
    · rw [List.drop_left]
  by_cases hroom : (numeralDigits n).length ≤ buffer.length
  · rw [if_pos hroom, ← hmatch]
    exact if_neg (Nat.not_lt_of_le hroom)
  · rw [if_neg hroom]
    exact if_pos (Nat.lt_of_not_le hroom)

theorem run_hexNumeral (n : Nat) (buffer : Bytes) :
    (Printer.hexNumeral n).run buffer =
      if (numeralDigits n).length ≤ buffer.length then .ok (withoutZero (numeralDigits n))
      else .error .notEnoughData := by
  rw [Printer.run, printed_hexNumeral]
  by_cases hroom : (numeralDigits n).length ≤ buffer.length
  · rw [if_pos hroom, if_pos hroom]
    exact congrArg Except.ok List.take_left
  · rw [if_neg hroom, if_neg hroom]
    rfl

theorem significantBytes_word {n : Nat} (h : n < 256 ^ 8) :
    Printer.significantBytes (Bytes.ofNatBE 8 n) =
      (Bytes.ofNatBE 8 n).drop (min (leadingZeros n / 8) (8 - 1)) :=
  significantBytes_ofNatBE 7 h

/-- The last byte of a number is left in any case. -/
theorem significantBytes_word_ne_nil {n : Nat} (h : n < 256 ^ 8) :
    Printer.significantBytes (Bytes.ofNatBE 8 n) ≠ [] := by
  rw [significantBytes_word h, ne_eq, List.drop_eq_nil_iff, Bytes.length_ofNatBE]
  omega

theorem slice_word {n : Nat} (h : n < 256 ^ 8) (cells : Bytes) :
    slice (Bytes.ofNatBE 8 n) (min (leadingZeros n / 8) (8 - 1)) 8 cells =
      .ok (Printer.significantBytes (Bytes.ofNatBE 8 n), cells) := by
  have hlength := Bytes.length_ofNatBE 8 n
  rw [significantBytes_word h, slice_of_le (by omega) (Nat.le_of_eq hlength.symm),
    List.take_of_length_le (Nat.le_of_eq hlength)]

/-- A number is written as the printer of numbers writes it, and all other cells are left as the
printer leaves them. -/
theorem hexNumeral_eq {n : Nat} (h : n < 256 ^ 8) (cells : Bytes) :
    hexNumeral n cells = ofPrinted (Printer.hexNumeral n cells) := by
  have hbytes := significantBytes_word_ne_nil h
  have hwrites := hex_writes .lower false hbytes cells
  have hstart : hexNumeral n cells =
      (hex .lower false (Printer.significantBytes (Bytes.ofNatBE 8 n)) >>= dropZero) cells :=
    bind_of_ok (slice_word h cells)
  rw [hstart, printed_hexNumeral]
  by_cases hroom : (numeralDigits n).length ≤ cells.length
  · rw [if_pos hroom]
    have hdigits : 1 < (numeralDigits n).length := by
      have hpositive := List.length_pos_iff.mpr hbytes
      rw [numeralDigits, Hex.length_encode]
      omega
    exact (bind_of_ok (hwrites.trans (if_pos hroom))).trans (dropZero_eq hdigits _)
  · rw [if_neg hroom]
    exact bind_of_error (hwrites.trans (if_neg hroom))

/-- Digits are written into the first cells when there are enough. -/
theorem within_fillDigits (hroom : data.length * 2 ≤ cells.length) :
    within (data.length * 2) (fillDigits data) cells =
      .ok (true, Hex.encode .lower data ++ cells.drop (data.length * 2)) := by
  have hcells : (cells.take (data.length * 2)).length = 2 * data.length := by
    rw [List.length_take_of_le hroom, Nat.mul_comm]
  rw [within, if_pos hroom, fillDigits, if_pos hcells]
  rfl

/-- As many whole bytes are written as there is room for their digits. -/
theorem hexTruncated_eq (data cells : Bytes) :
    hexTruncated data cells =
      .ok ((Hex.encode .lower (data.take (cells.length / 2))).length,
        Hex.encode .lower (data.take (cells.length / 2)) ++
          cells.drop (Hex.encode .lower (data.take (cells.length / 2))).length) := by
  let count := min data.length (cells.length / 2)
  have htake : data.take (cells.length / 2) = data.take count := by
    rw [List.take_eq_take_min, Nat.min_comm]
  have hshown : (data.take count).length = count := List.length_take_of_le (Nat.min_le_left _ _)
  have hslice : slice data 0 count cells = .ok (data.take count, cells) :=
    slice_of_le (Nat.zero_le _) (Nat.min_le_left _ _) cells
  have hroom : (data.take count).length * 2 ≤ cells.length := by omega
  have hfilled := within_fillDigits hroom
  rw [hshown] at hfilled
  have hlength : (Hex.encode .lower (data.take count)).length = count * 2 := by
    rw [Hex.length_encode, hshown, Nat.mul_comm]
  rw [hexTruncated, room_bind, bind_of_ok hslice, bind_of_ok hfilled, htake, hlength]
  rfl

/-! ### Sanitised text -/

theorem put_append (front : Bytes) (byte cell : UInt8) (cells : Bytes) :
    put front.length byte (front ++ cell :: cells) = .ok ((), front ++ byte :: cells) := by
  have hroom : front.length < (front ++ cell :: cells).length := by simp
  rw [put, if_pos hroom, List.set_append_right _ _ (Nat.le_refl _), Nat.sub_self]
  rfl

theorem asciiBehind_cons (paired : Bool) (front : Bytes) (byte : UInt8) (rest : Bytes)
    (cell : UInt8) (cells : Bytes) :
    asciiBehind paired front.length (byte :: rest) (front ++ cell :: cells) =
      if Bytes.isPrintable byte then
        asciiBehind false (front.length + 1) rest (front ++ byte :: cells)
      else if paired then asciiBehind false front.length rest (front ++ cell :: cells)
      else asciiBehind true (front.length + 1) rest (front ++ Printer.questionMark :: cells) := by
  have hroom : ¬(front ++ cell :: cells).length ≤ front.length := by simp
  rw [asciiBehind, room_bind, if_neg hroom]
  split
  · exact bind_of_ok (put_append front byte cell cells)
  · split
    · rfl
    · exact bind_of_ok (put_append front Printer.questionMark cell cells)

theorem asciiBehind_cuts (front : Bytes) (paired : Bool) (data : Bytes) :
    Cuts front (asciiBehind paired front.length data) (Printer.cleanedAfter paired data) := by
  -- Each step writes one cell, or passes over the second byte of a pair.
  induction data generalizing front paired with
  | nil =>
    intro cells
    simp [asciiBehind, Printer.cleanedAfter, pure_eq]
  | cons byte rest ih =>
    intro cells
    cases cells with
    | nil =>
      rw [asciiBehind, room_bind, if_pos (by simp)]
      simp [pure_eq]
    | cons cell cells =>
      have hwritten (byte : UInt8) (paired : Bool) := ih (front ++ [byte]) paired cells
      simp only [List.length_append, List.length_cons, List.length_nil, List.append_assoc,
        List.cons_append, List.nil_append] at hwritten
      have hpassed := ih front false (cell :: cells)
      rw [asciiBehind_cons, Printer.cleanedAfter]
      by_cases hshown : Bytes.isPrintable byte = true
      · rw [if_pos hshown, if_pos hshown, hwritten]
        simp
      · rw [if_neg hshown, if_neg hshown]
        cases paired with
        | true => exact hpassed
        | false =>
          rw [if_neg Bool.false_ne_true, if_neg Bool.false_ne_true, hwritten]
          simp

theorem ascii_cuts (data : Bytes) : Cuts [] (ascii data) (Printer.cleaned data) :=
  asciiBehind_cuts [] false data

end Pen

end NemSigner
