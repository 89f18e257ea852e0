import NemSigner.Proofs.Bytes.Positional
import NemSigner.Proofs.Checked.Data
import NemSigner.Proofs.Printer.Decimal
import NemSigner.Proofs.Printer.Hex

/-!
# Printed numerals are the shortest

A number is printed in decimal digits, or in hexadecimal ones, with as few of them as spell it. The
digits of a byte string spell the number that the bytes make up, and what is left out in front of a
hexadecimal numeral are zero bytes and then a zero digit.

## Main definitions

- `Decimal.alphabet`, `Hex.alphabet` — the digits in the order of their values

## Main statements

- `Decimal.numeral_shortest` — a decimal numeral is the shortest of its number
- `Decimal.numeral_value` — digits without a needless zero are the numeral of what they spell
- `Hex.encode_spells` — the digits of a byte string spell the number with these bytes
- `Hex.numeral_shortest` — a hexadecimal numeral is the shortest of its number
-/

namespace NemSigner

open Positional (Spells Shortest)

namespace Decimal

variable {digits : Bytes}

/-- The ten digits. -/
def alphabet : Bytes :=
  Bytes.ofText "0123456789"

theorem length_alphabet : alphabet.length = 10 := by
  decide +kernel

theorem one_lt_length_alphabet : 1 < alphabet.length := by
  rw [length_alphabet]
  decide

theorem IsDigit.idxOf_alphabet : ∀ byte, IsDigit byte →
    byte ∈ alphabet ∧ alphabet.idxOf byte = byte.toNat - 0x30 :=
  forall_byte (by decide +kernel)

theorem value_eq_ofDigits (digits : Bytes) :
    value digits = Nat.ofDigits 10 (digits.map fun digit => digit.toNat - 0x30).reverse := by
  rw [value, Numeral.ofDigits, Nat.ofDigits_eq_foldr, List.foldr_reverse]
  simp only [Nat.cast_id, Nat.add_comm]

/-- Digits in front of others are worth as many times more as the others have places. -/
theorem value_append (digits digits' : Bytes) :
    value (digits ++ digits') = value digits * unit digits'.length + value digits' := by
  rw [value_eq_ofDigits, value_eq_ofDigits, value_eq_ofDigits, List.map_append,
    List.reverse_append, Nat.ofDigits_append, List.length_reverse, List.length_map, Nat.add_comm,
    Nat.mul_comm]
  rfl

theorem value_cons (digit : UInt8) (digits : Bytes) :
    value (digit :: digits) = (digit.toNat - 0x30) * unit digits.length + value digits := by
  rw [value_eq_ofDigits, List.map_cons, Nat.ofDigits_reverse_cons, ← value_eq_ofDigits,
    List.length_map, Nat.add_comm, Nat.mul_comm]
  rfl

/-- Digits spell their value. -/
theorem spells_value (h : ∀ byte ∈ digits, IsDigit byte) :
    Spells alphabet (value digits) digits := by
  induction digits with
  | nil => exact .nil alphabet
  | cons digit digits ih =>
    obtain ⟨hdigit, hdigits⟩ := List.forall_mem_cons.mp h
    obtain ⟨hmem, hplace⟩ := hdigit.idxOf_alphabet
    have hcons := (ih hdigits).cons hmem
    rw [hplace, length_alphabet] at hcons
    rw [value_cons]
    exact hcons

theorem value_lt (hdigits : ∀ byte ∈ digits, IsDigit byte) : value digits < unit digits.length := by
  have hlt := (spells_value hdigits).lt one_lt_length_alphabet
  rwa [length_alphabet] at hlt

/-- As many digits that spell the same are the same. -/
theorem eq_of_value_eq {digits' : Bytes} (hdigits : ∀ byte ∈ digits, IsDigit byte)
    (hdigits' : ∀ byte ∈ digits', IsDigit byte) (hlength : digits.length = digits'.length)
    (h : value digits = value digits') : digits = digits' :=
  (spells_value hdigits).unique (h ▸ spells_value hdigits') one_lt_length_alphabet hlength

/-- The first digit of a numeral is a zero only when there is no other. -/
theorem numeral_leading (n : Nat) : ∀ rest, numeral n = 0x30 :: rest → rest = [] := by
  intro rest hrest
  have hdigits (byte : UInt8) (hbyte : byte ∈ rest) : IsDigit byte :=
    isDigit_of_mem_numeral (hrest ▸ List.mem_cons_of_mem _ hbyte)
  have hvalue : value rest = n := by
    have hcons := value_cons 0x30 rest
    rw [← hrest, value_numeral] at hcons
    simpa using hcons.symm
  by_cases hnil : rest = []
  · exact hnil
  · have hlength := length_numeral_le (List.length_pos_iff.mpr hnil) (hvalue ▸ value_lt hdigits)
    rw [hrest, List.length_cons] at hlength
    omega

/-- Digits without a needless zero are the shortest numeral of what they spell. -/
theorem shortest_of_leading (hdigits : ∀ byte ∈ digits, IsDigit byte) (hne : digits ≠ [])
    (hleading : ∀ rest, digits = 0x30 :: rest → rest = []) :
    Shortest alphabet (value digits) digits := by
  cases digits with
  | nil => exact absurd rfl hne
  | cons digit digits =>
    apply (spells_value hdigits).shortest one_lt_length_alphabet
    intro hzero
    have hhead : alphabet.head? = some 0x30 := by decide +kernel
    rw [hhead] at hzero
    cases hzero
    exact hleading digits rfl

/-- A decimal numeral is the shortest of its number. -/
theorem numeral_shortest (n : Nat) : Shortest alphabet n (numeral n) := by
  have hshortest := shortest_of_leading (fun _ => isDigit_of_mem_numeral) (numeral_ne_nil n)
    (numeral_leading n)
  rwa [value_numeral] at hshortest

/-- Digits without a needless zero are the numeral of what they spell. -/
theorem numeral_value (hdigits : ∀ byte ∈ digits, IsDigit byte) (hne : digits ≠ [])
    (hleading : ∀ rest, digits = 0x30 :: rest → rest = []) : numeral (value digits) = digits :=
  (numeral_shortest _).unique (shortest_of_leading hdigits hne hleading) one_lt_length_alphabet

end Decimal

namespace Hex

variable {digits : Bytes} {n : Nat}

/-- The sixteen digits. -/
def alphabet : LetterCase → Bytes
  | .lower => Bytes.ofText "0123456789abcdef"
  | .upper => Bytes.ofText "0123456789ABCDEF"

theorem length_alphabet (letters : LetterCase) : (alphabet letters).length = 16 := by
  revert letters
  rintro (_ | _) <;> decide +kernel

theorem idxOf_digit : ∀ letters, ∀ value < 16,
    (alphabet letters).idxOf (digit letters value) = value := by
  rintro (_ | _) <;> decide +kernel

theorem digit_mem_alphabet (letters : LetterCase) {value : Nat} (h : value < 16) :
    digit letters value ∈ alphabet letters :=
  Positional.mem_of_idxOf (idxOf_digit letters value h) ((length_alphabet letters).symm ▸ h)

/-- The digits of a byte string spell the number with these bytes. -/
theorem encode_spells (letters : LetterCase) (data : Bytes) :
    Spells (alphabet letters) (Bytes.toNatBE data) (encode letters data) := by
  induction data with
  | nil => exact .nil _
  | cons byte rest ih =>
    have hpair := (ih.cons (digit_mem_alphabet letters (low_lt byte))).cons
      (digit_mem_alphabet letters (high_lt byte))
    rw [idxOf_digit letters _ (low_lt byte), idxOf_digit letters _ (high_lt byte),
      List.length_cons, length_encode, length_alphabet] at hpair
    have hvalue : Bytes.toNatBE (byte :: rest) =
        byte.toNat / 16 * 16 ^ (2 * rest.length + 1) +
          (byte.toNat % 16 * 16 ^ (2 * rest.length) + Bytes.toNatBE rest) := by
      calc Bytes.toNatBE (byte :: rest)
          = (16 * (byte.toNat / 16) + byte.toNat % 16) * 256 ^ rest.length +
              Bytes.toNatBE rest := by rw [Nat.div_add_mod, Bytes.toNatBE_cons]
        _ = (16 * (byte.toNat / 16) + byte.toNat % 16) * 16 ^ (2 * rest.length) +
              Bytes.toNatBE rest := by rw [Nat.pow_mul]
        _ = _ := by ring
    rw [hvalue]
    exact hpair

/-! ### Numerals without leading zeros -/

/-- Zero bytes in front are left out, but not the last byte. What is left is the same number. -/
theorem exists_significantBytes {data : Bytes} (h : data ≠ []) :
    ∃ byte rest, Printer.significantBytes data = byte :: rest ∧ (byte = 0 → rest = []) ∧
      Bytes.toNatBE (byte :: rest) = Bytes.toNatBE data := by
  induction data using Printer.significantBytes.induct with
  | case1 => exact absurd rfl h
  | case2 byte => exact ⟨byte, [], rfl, fun _ => rfl, rfl⟩
  | case3 rest hrest ih =>
    obtain ⟨byte, tail, hbytes, hleading, hvalue⟩ := ih hrest
    refine ⟨byte, tail, ?_, hleading, ?_⟩
    · rw [Printer.significantBytes.eq_3 _ _ hrest, if_pos rfl, hbytes]
    · rw [hvalue, Bytes.toNatBE_cons, UInt8.toNat_zero, Nat.zero_mul, Nat.zero_add]
  | case4 byte rest hrest hbyte =>
    refine ⟨byte, rest, ?_, fun hzero => absurd hzero hbyte, rfl⟩
    rw [Printer.significantBytes.eq_3 _ _ hrest, if_neg hbyte]

/-- A zero in front of other digits adds nothing. -/
theorem withoutZero_spells (h : Spells (alphabet .lower) n digits) :
    Spells (alphabet .lower) n (Pen.withoutZero digits) := by
  unfold Pen.withoutZero
  split
  · next rest =>
    have hplace : (alphabet .lower).idxOf 0x30 = 0 := by decide +kernel
    refine ⟨(List.forall_mem_cons.mp h.mem_alphabet).2, ?_⟩
    rw [← h.value_eq, Positional.value_cons, hplace, Nat.zero_mul, Nat.zero_add]
  · exact h

/-- A hexadecimal numeral is the shortest of its number. -/
theorem numeral_shortest (h : n < Bytes.bound 8) :
    Shortest (alphabet .lower) n (Pen.withoutZero (Pen.numeralDigits n)) := by
  have hbase : 1 < (alphabet .lower).length := by decide +kernel
  have hhead : (alphabet .lower).head? = some (digit .lower 0) := by decide +kernel
  have hword : Bytes.ofNatBE 8 n ≠ [] :=
    List.ne_nil_of_length_pos (by rw [Bytes.length_ofNatBE]; decide)
  obtain ⟨byte, rest, hbytes, hleading, hvalue⟩ := exists_significantBytes hword
  rw [Bytes.toNatBE_ofNatBE, Nat.mod_eq_of_lt h] at hvalue
  have hspells := withoutZero_spells (hvalue ▸ encode_spells .lower (byte :: rest))
  have hencode : encode .lower (byte :: rest) = digit .lower (byte.toNat / 16) ::
      digit .lower (byte.toNat % 16) :: encode .lower rest := rfl
  rw [Pen.numeralDigits, hbytes]
  rw [hencode] at hspells ⊢
  by_cases hhigh : byte.toNat / 16 = 0
  · rw [hhigh] at hspells ⊢
    apply hspells.shortest hbase
    -- A second zero is the last digit, as only the last byte can be zero.
    intro hzero
    rw [hhead, Option.some_inj] at hzero
    have hlow := digit_inj .lower _ (by decide) _ (low_lt byte) hzero
    have hbyte : byte = 0 := UInt8.toNat_inj.mp (show byte.toNat = 0 by omega)
    rw [hleading hbyte]
    rfl
  · have hfirst : digit .lower (byte.toNat / 16) ≠ digit .lower 0 :=
      fun hzero => hhigh (digit_inj .lower _ (high_lt byte) _ (by decide) hzero)
    rw [Pen.withoutZero_of_ne hfirst] at hspells ⊢
    apply hspells.shortest hbase
    intro hzero
    rw [hhead, Option.some_inj] at hzero
    exact absurd hzero.symm hfirst

theorem length_numeralDigits_le (h : n < Bytes.bound 8) : (Pen.numeralDigits n).length ≤ 16 := by
  rw [Pen.numeralDigits, length_encode, Pen.significantBytes_word h, List.length_drop,
    Bytes.length_ofNatBE]
  omega

end Hex

end NemSigner
