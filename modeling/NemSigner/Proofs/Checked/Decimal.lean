import Mathlib.Algebra.Group.Nat.Defs
import NemSigner.Proofs.Checked.Pen
import NemSigner.Proofs.Printer.Decimal

/-!
# Numbers and amounts, checked

Numbers are written piece by piece: a sign, the whole units, a point, zeros in front of the digits
behind it, and the unit. Every piece is asked for the room it needs, so what is written in the end
is the whole text or nothing that counts.

## Main definitions

- `Pen.str`, `Pen.decimal`, `Pen.signed` — a text, a numeral, a numeral with its sign
- `Pen.strip` — a fraction without the zeros at its end, and the places it has left
- `Pen.token` — an amount with its unit

## Main statements

- `Pen.strip_padded` — what is stripped of a fraction is what is trimmed of its digits
- `Pen.token_writes` — an amount is written as one text
-/

namespace NemSigner

namespace Decimal

/-- The last digit stands behind the digits of the tenth part. -/
theorem numeral_of_ten_le {n : Nat} (h : 10 ≤ n) :
    numeral n = numeral (n / 10) ++ [(n % 10).digitChar.toNat.toUInt8] := by
  rw [numeral, Nat.toDigits_of_base_le (by decide) h, List.map_append]
  rfl

/-- The last digit of a number is the last of its numeral. -/
theorem getLast?_numeral (n : Nat) :
    (numeral n).getLast? = some (n % 10).digitChar.toNat.toUInt8 := by
  rcases Nat.lt_or_ge n 10 with hsmall | hlarge
  · rw [numeral, Nat.toDigits_of_lt_base hsmall, Nat.mod_eq_of_lt hsmall]
    rfl
  · rw [numeral_of_ten_le hlarge, List.getLast?_concat]

theorem digit_eq_zero : ∀ digit < 10, digit.digitChar.toNat.toUInt8 = 0x30 → digit = 0 := by
  decide

/-- A number that is no multiple of ten has nothing to be trimmed. -/
theorem trimZeros_padded {places n : Nat} (h : n % 10 ≠ 0) :
    trimZeros (padded places n) = padded places n := by
  have hlast : (padded places n).getLast? = some (n % 10).digitChar.toNat.toUInt8 := by
    rw [padded, List.getLast?_append, getLast?_numeral]
    rfl
  have hdigit : (n % 10).digitChar.toNat.toUInt8 ≠ 0x30 :=
    fun hzero => h (digit_eq_zero _ (Nat.mod_lt n (by decide)) hzero)
  refine trimZeros_of_trailing fun hzero => hdigit ?_
  rw [hlast] at hzero
  exact Option.some.inj hzero

/-- A multiple of ten loses a zero, and a place. -/
theorem trimZeros_padded_succ {places n : Nat} (hn : n ≠ 0) (h : n % 10 = 0) :
    trimZeros (padded (places + 1) n) = trimZeros (padded places (n / 10)) := by
  have hnumeral := numeral_of_ten_le (show 10 ≤ n by omega)
  rw [h] at hnumeral
  have hlength : (numeral n).length = (numeral (n / 10)).length + 1 := by
    rw [hnumeral, List.length_append]
    rfl
  have hpadded : padded (places + 1) n = padded places (n / 10) ++ [0x30] := by
    simp only [padded, hlength, Nat.add_sub_add_right, List.append_assoc]
    rw [hnumeral]
    rfl
  rw [hpadded, trimZeros, List.reverse_append]
  rfl

end Decimal

namespace Pen

variable {front content : Bytes}

/-- Writes a text for which there is room. -/
def str (content : Bytes) : Pen Nat := do
  let free ← room
  if free < content.length then refuse .notEnoughData
  else
    within content.length (copy content)
    return content.length

/-- Writes a numeral of as few digits as can be. -/
def decimal (n : Nat) : Pen Nat :=
  str (Decimal.numeral n)

/-- Writes a minus sign, if there has to be one. -/
def sign (z : Int) : Pen Nat :=
  if z < 0 then str [0x2d] else pure 0

/-- Writes the sign of a number and its numeral behind it. -/
def signed (z : Int) : Pen Nat := do
  let start ← sign z
  after (decimal z.natAbs) start

/-- Writes a text behind what is written, for which there is room behind it. -/
def place (content : Bytes) (start : Nat) : Pen Nat := do
  let free ← room
  if free < start + content.length then refuse .notEnoughData
  else
    behind start (within content.length (copy content))
    return start + content.length

/-- Writes some zeros, one by one. -/
def zeros : Nat → Nat → Pen Nat
  | 0, start => pure start
  | count + 1, start => do
    let start ← after (str [0x30]) start
    zeros count start

/-- What a routine writes into cells of its own. -/
def scratch (size : Nat) (pen : Pen Nat) : Pen Bytes := fun cells => do
  let (count, left) ← pen (List.replicate size 0)
  if count ≤ left.length then return (left.take count, cells) else .error .outOfRange

/-- Takes the zeros from the end of a fraction that has so many places. More zeros than places are
too many. -/
def strip : Nat → Nat → Except Fault (Nat × Nat)
  | 0, part => if part % 10 = 0 then .error .outOfRange else .ok (0, part)
  | places + 1, part => if part % 10 = 0 then strip places (part / 10) else .ok (places + 1, part)

/-- The digits that any number of sixty-four bits has room for. -/
def maxDigits : Nat := 20

/-- Writes the digits behind the point, with the point, unless there are none. -/
def fraction (places part start : Nat) : Pen Nat :=
  if part = 0 then pure start
  else do
    let (places, part) ← (strip places part : Except Fault (Nat × Nat))
    let start ← after (str [0x2e]) start
    let digits ← scratch maxDigits (decimal part)
    let start ← zeros (places - digits.length) start
    place digits start

/-- Writes the unit behind an amount, if it has one. -/
def unit (name : Option Bytes) (start : Nat) : Pen Nat :=
  match name with
  | none => pure start
  | some name => do
    let start ← after (str [0x20]) start
    after (str name) start

/-- Writes an amount, unless a whole unit is more than a number of sixty-four bits can be. -/
def token (places amount : Nat) (name : Option Bytes) : Pen Nat :=
  if UInt64.size ≤ 10 ^ places then refuse .invalidData
  else do
    let start ← decimal (amount / 10 ^ places)
    let start ← fraction places (amount % 10 ^ places) start
    unit name start

theorem str_writes (content : Bytes) : Writes [] (str content) content := by
  intro cells
  rw [List.nil_append, List.nil_append, str, room_bind]
  by_cases hroom : content.length ≤ cells.length
  · rw [if_neg (Nat.not_lt_of_le hroom), if_pos hroom, bind_of_ok (within_copy hroom)]
    rfl
  · rw [if_pos (Nat.lt_of_not_le hroom), if_neg hroom]
    rfl

theorem decimal_writes (n : Nat) : Writes [] (decimal n) (Decimal.numeral n) :=
  str_writes _

theorem signed_writes (z : Int) : Writes [] (signed z) (Decimal.signed z) := by
  cases z with
  | ofNat n =>
    have hsign : sign (Int.ofNat n) = pure 0 := if_neg (Int.not_lt_of_ge (Int.natCast_nonneg n))
    rw [signed, hsign]
    exact (writes_pure []).bind ((decimal_writes n).after _)
  | negSucc n =>
    have hsign : sign (Int.negSucc n) = str [0x2d] := if_pos (Int.negSucc_lt_zero n)
    rw [signed, hsign]
    exact (str_writes [0x2d]).bind ((decimal_writes (n + 1)).after _)

theorem place_writes (front content : Bytes) :
    Writes front (place content front.length) content := by
  intro cells
  rw [place, room_bind, List.length_append]
  by_cases hroom : content.length ≤ cells.length
  · have hcopy : behind front.length (within content.length (copy content)) (front ++ cells) =
        .ok ((), front ++ (content ++ cells.drop content.length)) := by
      rw [behind_append, within_copy hroom]
      rfl
    rw [if_neg (by omega), if_pos hroom, bind_of_ok hcopy, List.append_assoc, List.length_append]
    rfl
  · rw [if_pos (by omega), if_neg hroom]
    rfl

theorem zeros_writes (front : Bytes) (count : Nat) :
    Writes front (zeros count front.length) (List.replicate count 0x30) := by
  induction count generalizing front with
  | zero => exact writes_pure front
  | succ count ih => exact ((str_writes [0x30]).after front).bind (ih _)

theorem scratch_of_writes {size : Nat} {pen : Pen Nat} (h : Writes [] pen content)
    (hroom : content.length ≤ size) (cells : Bytes) :
    scratch size pen cells = .ok (content, cells) := by
  have hpen := h (List.replicate size 0)
  rw [List.nil_append, List.length_replicate, if_pos hroom] at hpen
  rw [scratch, hpen]
  simp [bind, Except.bind, pure, Except.pure]

/-- What is left of a fraction is what is left of its digits. -/
theorem strip_padded {places part : Nat} (hpart : part ≠ 0) (hlt : part < Decimal.unit places) :
    ∃ places' part', strip places part = .ok (places', part') ∧
      Decimal.padded places' part' = Decimal.trimZeros (Decimal.padded places part) ∧
      part' ≤ part := by
  -- A part below its unit runs out of zeros before it runs out of places.
  induction places generalizing part with
  | zero => exact absurd (Nat.lt_one_iff.mp hlt) hpart
  | succ places ih =>
    rw [strip]
    by_cases hzero : part % 10 = 0
    · have htenth : part / 10 < Decimal.unit places := by
        rw [Decimal.unit, Nat.pow_eq, Nat.pow_succ] at hlt
        exact Nat.div_lt_of_lt_mul (Nat.mul_comm _ _ ▸ hlt)
      obtain ⟨places', part', hstrip, hpadded, hle⟩ := ih (show part / 10 ≠ 0 by omega) htenth
      rw [if_pos hzero, Decimal.trimZeros_padded_succ hpart hzero]
      exact ⟨places', part', hstrip, hpadded, Nat.le_trans hle (Nat.div_le_self _ _)⟩
    · rw [if_neg hzero]
      exact ⟨_, _, rfl, (Decimal.trimZeros_padded hzero).symm, Nat.le_refl _⟩

theorem fraction_writes {places part : Nat} (hlt : part < Decimal.unit places)
    (hplaces : places ≤ maxDigits) (front : Bytes) :
    Writes front (fraction places part front.length) (Decimal.fraction places part) := by
  rw [fraction, Decimal.fraction]
  by_cases hpart : part = 0
  · rw [if_pos hpart, if_pos hpart]
    exact writes_pure front
  · rw [if_neg hpart, if_neg hpart]
    obtain ⟨places', part', hstrip, hpadded, hle⟩ := strip_padded hpart hlt
    have hdigits : (Decimal.numeral part').length ≤ maxDigits :=
      Nat.le_trans (Decimal.length_numeral_le (Decimal.places_pos hpart hlt)
        (Nat.lt_of_le_of_lt hle hlt)) hplaces
    have hsilent (cells : Bytes) :
        (liftM (strip places part) : Pen (Nat × Nat)) cells = .ok ((places', part'), cells) := by
      rw [hstrip]
      rfl
    have hpoint := (str_writes [0x2e]).after front
    change Writes front _ ([0x2e] ++ Decimal.trimZeros (Decimal.padded places part))
    rw [← hpadded]
    refine Writes.silent hsilent (hpoint.bind ?_)
    refine Writes.silent (scratch_of_writes (decimal_writes part') hdigits) ?_
    exact (zeros_writes _ _).bind (place_writes _ _)

theorem unit_writes (name : Option Bytes) (front : Bytes) :
    Writes front (unit name front.length)
      (match name with
        | some name => 0x20 :: name
        | none => []) := by
  cases name with
  | none => exact writes_pure front
  | some name => exact ((str_writes [0x20]).after front).bind ((str_writes name).after _)

/-- An amount is written as one text. -/
theorem token_writes {places : Nat} (hplaces : places ≤ Printer.maxDecimalPlaces) (amount : Nat)
    (name : Option Bytes) :
    Writes [] (token places amount name)
      (Decimal.amount places amount ++
        match name with
        | some name => 0x20 :: name
        | none => []) := by
  have hunit : ¬UInt64.size ≤ 10 ^ places := by
    have hpow : 10 ^ places ≤ 10 ^ Printer.maxDecimalPlaces :=
      Nat.pow_le_pow_right (by decide) hplaces
    have hmax : 10 ^ Printer.maxDecimalPlaces < UInt64.size := by decide
    omega
  rw [token, if_neg hunit, Decimal.amount, List.append_assoc]
  have hpart := Nat.mod_lt amount (Decimal.unit_pos places)
  refine (decimal_writes _).bind ?_
  exact (fraction_writes hpart (Nat.le_trans hplaces (by decide)) _).bind (unit_writes name _)

end Pen

end NemSigner
