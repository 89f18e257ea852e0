import NemSigner.Proofs.Printer.Numerals

/-!
# Hexadecimal text reads as its bytes

A text of digits in one case is known by the bytes that it reads as, and there is one such text for
every byte string. The printers of hexadecimal text write it: of all bytes, from the front or from
the back, or of those that there is room for.

## Main definitions

- `Hex.Spelling` — digits of one case that read as a byte string

## Main statements

- `Hex.decode_encode` — the digits of a byte string read as the byte string
- `Hex.spelling_iff` — no other digits of the same case do
- `Printer.hex_exact` — what the printers write
-/

namespace NemSigner

namespace Hex

variable {letters : LetterCase} {data digits : Bytes}

/-- Digits of one case that read as a byte string. -/
structure Spelling (letters : LetterCase) (data digits : Bytes) : Prop where
  mem_alphabet : ∀ digit ∈ digits, digit ∈ alphabet letters
  decode_eq : decode digits = .ok data

theorem value?_digit : ∀ letters, ∀ value < 16, value? (digit letters value) = some value := by
  rintro (_ | _) <;> decide

theorem valueAt_digit (letters : LetterCase) {value : Nat} (h : value < 16) (position : Nat) :
    valueAt (digit letters value) position = .ok value := by
  rw [valueAt, value?_digit letters value h]

/-- Wherever the digits of a byte string stand, the bytes are read from them. -/
theorem decodePairs_encode (letters : LetterCase) (data : Bytes) (position : Nat) :
    decodePairs position (encode letters data) = .ok data := by
  induction data generalizing position with
  | nil => rfl
  | cons byte rest ih =>
    have hbyte : (16 * (byte.toNat / 16) + byte.toNat % 16).toUInt8 = byte := by
      rw [Nat.div_add_mod]
      exact UInt8.ofNat_toNat
    have hencode : encode letters (byte :: rest) = digit letters (byte.toNat / 16) ::
        digit letters (byte.toNat % 16) :: encode letters rest := rfl
    rw [hencode, decodePairs, valueAt_digit letters (high_lt byte),
      valueAt_digit letters (low_lt byte), ih]
    exact congrArg (fun byte => Except.ok (byte :: rest)) hbyte

/-- The digits of a byte string read as the byte string. -/
theorem decode_encode (letters : LetterCase) (data : Bytes) :
    decode (encode letters data) = .ok data := by
  have heven : (encode letters data).length % 2 = 0 := by
    rw [length_encode, Nat.mul_mod_right]
  rw [decode, if_pos heven, decodePairs_encode]

theorem encode_mem_alphabet (letters : LetterCase) (data : Bytes) :
    ∀ digit ∈ encode letters data, digit ∈ alphabet letters :=
  (encode_spells letters data).mem_alphabet

theorem exists_digit_eq : ∀ letters, ∀ character ∈ alphabet letters,
    ∃ value < 16, digit letters value = character := by
  rintro (_ | _) <;> decide +kernel

theorem encodeByte_of_halves {high low : Nat} (hhigh : high < 16) (hlow : low < 16) :
    encodeByte letters (16 * high + low).toUInt8 = [digit letters high, digit letters low] := by
  have hbyte : (16 * high + low).toUInt8.toNat = 16 * high + low :=
    UInt8.toNat_ofNat_of_lt' (show 16 * high + low < 256 by omega)
  have hdiv : (16 * high + low) / 16 = high := by omega
  have hmod : (16 * high + low) % 16 = low := by omega
  rw [encodeByte, hbyte, hdiv, hmod]

/-- An even number of digits of one case are those of some byte string. -/
theorem exists_encode_eq : ∀ {digits : Bytes}, (∀ digit ∈ digits, digit ∈ alphabet letters) →
    digits.length % 2 = 0 → ∃ data, encode letters data = digits
  | [], _, _ => ⟨[], rfl⟩
  | [_], _, heven => absurd heven Nat.one_ne_zero
  | high :: low :: rest, hdigits, heven => by
    obtain ⟨hhigh, hdigits⟩ := List.forall_mem_cons.mp hdigits
    obtain ⟨hlow, hrest⟩ := List.forall_mem_cons.mp hdigits
    have hevenRest : rest.length % 2 = 0 := by
      rw [List.length_cons, List.length_cons] at heven
      omega
    obtain ⟨data, rfl⟩ := exists_encode_eq hrest hevenRest
    obtain ⟨upper, hupper, rfl⟩ := exists_digit_eq letters high hhigh
    obtain ⟨lower, hlower, rfl⟩ := exists_digit_eq letters low hlow
    refine ⟨(16 * upper + lower).toUInt8 :: data, ?_⟩
    rw [encode, List.flatMap_cons, encodeByte_of_halves hupper hlower]
    rfl

/-- The digits of a byte string are the only ones of their case that read as it. -/
theorem spelling_iff : Spelling letters data digits ↔ digits = encode letters data := by
  constructor
  · rintro ⟨hdigits, hdecode⟩
    have heven : digits.length % 2 = 0 := by
      by_contra hodd
      rw [decode, if_neg hodd] at hdecode
      cases hdecode
    obtain ⟨data', rfl⟩ := exists_encode_eq hdigits heven
    rw [decode_encode] at hdecode
    cases hdecode
    rfl
  · rintro rfl
    exact ⟨encode_mem_alphabet letters data, decode_encode letters data⟩

end Hex

namespace Pen

/-- Each byte has its digits where the text of all of them has them. -/
theorem hex_eq_ofPrinted (letters : Hex.LetterCase) (backwards : Bool) (data cells : Bytes) :
    hex letters backwards data cells = ofPrinted (Printer.hex letters backwards data cells) := by
  by_cases hempty : data.isEmpty = true
  · obtain rfl := List.isEmpty_iff.mp hempty
    rfl
  · rw [Printer.hex, if_neg hempty]
    exact (hex_writes letters backwards (mt List.isEmpty_iff.mpr hempty)).eq_ofPrinted cells

end Pen

namespace Printer

variable {data buffer : Bytes} {letters : Hex.LetterCase} {backwards : Bool}

theorem length_order (backwards : Bool) (data : Bytes) :
    (if backwards then data.reverse else data).length = data.length := by
  cases backwards <;> simp

/-- All digits are written when there is room for two of every byte. -/
theorem hex_of_room (hdata : data ≠ []) (hroom : 2 * data.length ≤ buffer.length) :
    hex letters backwards data buffer =
      ⟨.ok (2 * data.length), Hex.encode letters (if backwards then data.reverse else data) ++
        buffer.drop (2 * data.length)⟩ := by
  have hempty : ¬data.isEmpty = true := mt List.isEmpty_iff.mp hdata
  rw [hex, if_neg hempty, text, Hex.length_encode, length_order, if_pos hroom]

/-- Otherwise nothing is written. -/
theorem hex_of_short (h : data = [] ∨ buffer.length < 2 * data.length) :
    hex letters backwards data buffer = ⟨.error .notEnoughData, buffer⟩ := by
  by_cases hempty : data.isEmpty = true
  · rw [hex, if_pos hempty]
    rfl
  · have hshort := h.resolve_left (mt List.isEmpty_iff.mpr hempty)
    rw [hex, if_neg hempty, text, Hex.length_encode, length_order, if_neg (Nat.not_le_of_lt hshort)]

/-- The digits of as many bytes as there is room for are always written. -/
theorem hexTruncated_eq (data buffer : Bytes) :
    hexTruncated data buffer =
      ⟨.ok (Hex.encode .lower (data.take (buffer.length / 2))).length,
        Hex.encode .lower (data.take (buffer.length / 2)) ++
          buffer.drop (Hex.encode .lower (data.take (buffer.length / 2))).length⟩ := by
  have hroom : (Hex.encode .lower (data.take (buffer.length / 2))).length ≤ buffer.length := by
    rw [Hex.length_encode, List.length_take]
    omega
  rw [hexTruncated, text, if_pos hroom]

/-- The first bytes have the first digits. -/
theorem encode_take_prefix (letters : Hex.LetterCase) (data : Bytes) (count : Nat) :
    List.IsPrefix (Hex.encode letters (data.take count)) (Hex.encode letters data) := by
  refine ⟨Hex.encode letters (data.drop count), ?_⟩
  rw [Hex.encode, Hex.encode, ← List.flatMap_append, List.take_append_drop]
  rfl

/-- Hexadecimal text of a byte string is written whole when there is something to write and two
cells for every byte, and otherwise the buffer stays as it is; what is written reads as the byte
string, or as the byte string turned round. A text that is cut never fails, reads as the bytes that
there are cells for, and stands in front of the whole text. The routines that give every byte its
own cells come to the same. -/
theorem hex_exact (data : Bytes) :
    (∀ letters backwards, ∃ digits,
      (∀ other, Hex.Spelling letters (if backwards then data.reverse else data) other ↔
        other = digits) ∧
      digits.length = 2 * data.length ∧
      ∀ buffer,
        (data ≠ [] → 2 * data.length ≤ buffer.length → hex letters backwards data buffer =
          ⟨.ok (2 * data.length), digits ++ buffer.drop (2 * data.length)⟩) ∧
        (data = [] ∨ buffer.length < 2 * data.length →
          hex letters backwards data buffer = ⟨.error .notEnoughData, buffer⟩) ∧
        Pen.hex letters backwards data buffer =
          Pen.ofPrinted (hex letters backwards data buffer)) ∧
    ∀ buffer, ∃ digits,
      (∀ other, Hex.Spelling .lower (data.take (min data.length (buffer.length / 2))) other ↔
        other = digits) ∧
      digits.length = 2 * min data.length (buffer.length / 2) ∧
      hexTruncated data buffer = ⟨.ok digits.length, digits ++ buffer.drop digits.length⟩ ∧
      Pen.hexTruncated data buffer = Pen.ofPrinted (hexTruncated data buffer) ∧
      ∀ large, data ≠ [] → 2 * data.length ≤ large.length →
        ∃ whole, (hex .lower false data).run large = .ok whole ∧ List.IsPrefix digits whole := by
  constructor
  · intro letters backwards
    refine ⟨Hex.encode letters (if backwards then data.reverse else data),
      fun other => Hex.spelling_iff, ?_, fun buffer => ⟨hex_of_room, hex_of_short, ?_⟩⟩
    · rw [Hex.length_encode, length_order]
    · exact Pen.hex_eq_ofPrinted letters backwards data buffer
  · intro buffer
    have hcount :
        data.take (min data.length (buffer.length / 2)) = data.take (buffer.length / 2) := by
      rw [Nat.min_comm, ← List.take_eq_take_min]
    refine ⟨Hex.encode .lower (data.take (buffer.length / 2)), fun other => ?_, ?_,
      hexTruncated_eq data buffer, ?_, ?_⟩
    · rw [hcount]
      exact Hex.spelling_iff
    · rw [Hex.length_encode, List.length_take, Nat.min_comm]
    · rw [Pen.hexTruncated_eq, hexTruncated_eq]
      rfl
    · intro large hdata hroom
      refine ⟨Hex.encode .lower data, ?_, encode_take_prefix .lower data _⟩
      rw [run, hex_of_room hdata hroom]
      exact congrArg Except.ok (List.take_left' (Hex.length_encode .lower data))

/-- Three bytes turned round in letters of upper case, in cells that are enough and in too few; in
the few there is room for two of the bytes. -/
theorem hex_exact_backwards :
    hex .upper true [0x01, 0xab, 0xcd] (List.replicate 8 0) =
      ⟨.ok 6, [0x43, 0x44, 0x41, 0x42, 0x30, 0x31, 0, 0]⟩ ∧
    hex .upper true [0x01, 0xab, 0xcd] (List.replicate 5 0) =
      ⟨.error .notEnoughData, List.replicate 5 0⟩ ∧
    hexTruncated [0x01, 0xab, 0xcd] (List.replicate 5 0) =
      ⟨.ok 4, [0x30, 0x31, 0x61, 0x62, 0]⟩ ∧
    ∃ whole, (hex .lower false [0x01, 0xab, 0xcd]).run (List.replicate 6 0) = .ok whole ∧
      List.IsPrefix [0x30, 0x31, 0x61, 0x62] whole := by
  obtain ⟨hwhole, hcut⟩ := hex_exact [0x01, 0xab, 0xcd]
  obtain ⟨digits, hdigits, -, hprint⟩ := hwhole .upper true
  have hread : Hex.Spelling .upper [0xcd, 0xab, 0x01] [0x43, 0x44, 0x41, 0x42, 0x30, 0x31] :=
    ⟨by decide +kernel, rfl⟩
  obtain rfl := (hdigits _).mp hread
  obtain ⟨shown, hshown, -, htruncated, -, hfront⟩ := hcut (List.replicate 5 0)
  have hread' : Hex.Spelling .lower [0x01, 0xab] [0x30, 0x31, 0x61, 0x62] :=
    ⟨by decide +kernel, rfl⟩
  obtain rfl := (hshown _).mp hread'
  exact ⟨(hprint _).1 (by decide) (by decide), (hprint _).2.1 (.inr (by decide)), htruncated,
    hfront _ (by decide) (by decide)⟩

end Printer

end NemSigner
