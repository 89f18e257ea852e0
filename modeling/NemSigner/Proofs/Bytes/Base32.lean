import NemSigner.Bytes.Base32
import NemSigner.Proofs.Bytes.Positional

/-!
# Base 32 text spells its bytes

A byte string of whole blocks and its base 32 text are the same number in two bases, so the symbols
hold the bits of the bytes, five to a symbol, and the bytes can be read back from them.

## Main definitions

- `Positional.bits` — the bits of a number, highest first
- `Base32.alphabet` — the symbols in the order of their values

## Main statements

- `Positional.Spells.flatMap_bits`, `Bytes.flatMap_bits` — the bits of a number are those of its
  digits
- `Base32.encode_spells` — the text of a byte string spells the number with these bytes
- `Base32.flatMap_bits_encode` — five bits a symbol are eight bits a byte
- `Base32.decode_encode` — a byte string is read back from its text
-/

namespace NemSigner

namespace Positional

variable {alphabet digits : Bytes} {width n m : Nat}

/-- The lowest bits of a number, highest first. -/
def bits : Nat → Nat → List Bool
  | 0, _ => []
  | width + 1, n => n.testBit width :: bits width n

@[simp] theorem length_bits (width n : Nat) : (bits width n).length = width := by
  induction width with
  | zero => rfl
  | succ width ih => rw [bits, List.length_cons, ih]

theorem bits_congr (h : ∀ place < width, n.testBit place = m.testBit place) :
    bits width n = bits width m := by
  induction width with
  | zero => rfl
  | succ width ih =>
    rw [bits, bits, h width (Nat.lt_succ_self width),
      ih fun place hplace => h place (Nat.lt_succ_of_lt hplace)]

/-- The bits of a number in front of those of another are the bits of both as one number. -/
theorem bits_append (width : Nat) {width' : Nat} (h : m < 2 ^ width') :
    bits (width + width') (2 ^ width' * n + m) = bits width n ++ bits width' m := by
  induction width with
  | zero =>
    rw [Nat.zero_add]
    apply bits_congr
    intro place hplace
    rw [Nat.testBit_two_pow_mul_add _ h, if_pos hplace]
  | succ width ih =>
    have hplace : ¬(width + width' < width') := by omega
    rw [Nat.succ_add, bits, bits, ih, Nat.testBit_two_pow_mul_add _ h, if_neg hplace,
      Nat.add_sub_cancel]
    rfl

/-- The bits of digits are those of the number that the digits make up, if a digit stands for a
whole number of bits. -/
theorem flatMap_bits_ofDigits (hwidth : 0 < width) {places : List Nat}
    (h : ∀ place ∈ places, place < 2 ^ width) :
    places.flatMap (bits width) =
      bits (places.length * width) (Nat.ofDigits (2 ^ width) places.reverse) := by
  induction places with
  | nil =>
    rw [List.length_nil, Nat.zero_mul]
    rfl
  | cons place places ih =>
    have hplaces := (List.forall_mem_cons.mp h).2
    have hlt : Nat.ofDigits (2 ^ width) places.reverse < 2 ^ (places.length * width) := by
      have hdigits := Nat.ofDigits_lt_base_pow_length (Nat.one_lt_two_pow hwidth.ne')
        fun digit hdigit => hplaces digit (List.mem_reverse.mp hdigit)
      rwa [List.length_reverse, ← Nat.pow_mul, Nat.mul_comm] at hdigits
    rw [List.flatMap_cons, ih hplaces, ← bits_append width hlt, Nat.ofDigits_reverse_cons,
      ← Nat.pow_mul, List.length_cons, Nat.succ_mul, Nat.mul_comm width, Nat.add_comm _ width,
      Nat.add_comm (Nat.ofDigits _ _)]

/-- The bits of a numeral are those of its digits. -/
theorem Spells.flatMap_bits (h : Spells alphabet n digits) (hwidth : 0 < width)
    (halphabet : alphabet.length = 2 ^ width) :
    (digits.flatMap fun digit => bits width (alphabet.idxOf digit)) =
      bits (digits.length * width) n := by
  have hplaces : ∀ place ∈ digits.map fun digit => alphabet.idxOf digit, place < 2 ^ width := by
    intro place hplace
    rw [← halphabet]
    exact h.idxOf_lt place (List.mem_reverse.mpr hplace)
  have hbits := flatMap_bits_ofDigits hwidth hplaces
  rw [List.flatMap_map, List.length_map, ← halphabet] at hbits
  rw [hbits, ← h.value_eq, value]

end Positional

open Positional (Spells bits)

/-- The bits of a byte string are those of the number with these bytes. -/
theorem Bytes.flatMap_bits (data : Bytes) :
    (data.flatMap fun byte => bits 8 byte.toNat) = bits (data.length * 8) (toNatBE data) := by
  have hplaces : ∀ place ∈ data.map UInt8.toNat, place < 2 ^ 8 := by
    intro place hplace
    obtain ⟨byte, -, rfl⟩ := List.mem_map.mp hplace
    exact byte.toNat_lt
  have hbits := Positional.flatMap_bits_ofDigits (by decide) hplaces
  rw [List.flatMap_map, List.length_map, ← List.map_reverse] at hbits
  rw [hbits, toNatBE, toNatLE_eq_ofDigits]
  rfl

namespace Base32

variable {data : Bytes}

/-- The symbols in the order of their values. -/
def alphabet : Bytes :=
  Bytes.ofText "ABCDEFGHIJKLMNOPQRSTUVWXYZ234567"

theorem length_alphabet : alphabet.length = 32 := by
  decide +kernel

theorem idxOf_symbol : ∀ value < 32, alphabet.idxOf (symbol value) = value := by
  decide +kernel

theorem symbol_mem_alphabet {value : Nat} (h : value < 32) : symbol value ∈ alphabet :=
  Positional.mem_of_idxOf (idxOf_symbol value h) (length_alphabet.symm ▸ h)

theorem value?_symbol : ∀ value < 32, value? (symbol value) = some value := by
  decide +kernel

theorem lt_of_mem_digits {count n digit : Nat} (h : digit ∈ digits count n) : digit < 32 := by
  induction count generalizing n with
  | zero => cases h
  | succ count ih =>
    rcases List.mem_cons.mp h with rfl | h
    · exact Nat.mod_lt _ (by decide)
    · exact ih h

theorem ofDigits_eq (digits : List Nat) : ofDigits digits = Nat.ofDigits 32 digits := by
  induction digits with
  | nil => rfl
  | cons digit digits ih => rw [ofDigits, ih, Nat.ofDigits_cons]

/-- So many digits are those of a number that they have room for. -/
theorem ofDigits_digits {count n : Nat} (h : n < 32 ^ count) : ofDigits (digits count n) = n := by
  induction count generalizing n with
  | zero => exact (Nat.lt_one_iff.mp h).symm
  | succ count ih =>
    have hrest : n / 32 < 32 ^ count := Nat.div_lt_of_lt_mul (by rwa [← Nat.pow_succ'])
    rw [digits, ofDigits, ih hrest, Nat.mod_add_div]

/-- Eight symbols have room for what five bytes hold. -/
theorem toNatBE_lt (hblocks : data.length % 5 = 0) :
    Bytes.toNatBE data < 32 ^ (data.length / 5 * 8) := by
  have hlength : data.length = 5 * (data.length / 5) := by omega
  calc Bytes.toNatBE data
      < 256 ^ data.length := Bytes.toNatBE_lt_pow data
    _ = (256 ^ 5) ^ (data.length / 5) := by rw [← Nat.pow_mul, ← hlength]
    _ = (32 ^ 8) ^ (data.length / 5) := rfl
    _ = 32 ^ (data.length / 5 * 8) := by rw [← Nat.pow_mul, Nat.mul_comm]

/-- The text of whole blocks spells the number with their bytes. -/
theorem encode_spells (hblocks : data.length % 5 = 0) :
    Spells alphabet (Bytes.toNatBE data) (encode data) := by
  constructor
  · intro digit hdigit
    obtain ⟨value, hvalue, rfl⟩ := List.mem_map.mp hdigit
    exact symbol_mem_alphabet (lt_of_mem_digits (List.mem_reverse.mp hvalue))
  · have hplaces : (encode data).map (fun digit => alphabet.idxOf digit) =
        (digits (data.length / 5 * 8) (Bytes.toNatBE data)).reverse := by
      rw [encode, List.map_map]
      refine (List.map_congr_left ?_).trans (List.map_id _)
      intro value hvalue
      exact idxOf_symbol value (lt_of_mem_digits (List.mem_reverse.mp hvalue))
    rw [Positional.value, hplaces, List.reverse_reverse, length_alphabet, ← ofDigits_eq,
      ofDigits_digits (toNatBE_lt hblocks)]

/-- The symbols of whole blocks hold the bits of the bytes, five to a symbol. -/
theorem flatMap_bits_encode (hblocks : data.length % 5 = 0) :
    ((encode data).flatMap fun symbol => bits 5 (alphabet.idxOf symbol)) =
      data.flatMap fun byte => bits 8 byte.toNat := by
  have hlength : data.length / 5 * 8 * 5 = data.length * 8 := by omega
  rw [(encode_spells hblocks).flatMap_bits (by decide) length_alphabet, Bytes.flatMap_bits,
    length_encode, hlength]

theorem mapM_value?_symbol {values : List Nat} (h : ∀ value ∈ values, value < 32) :
    (values.map symbol).mapM value? = some values := by
  induction values with
  | nil => rfl
  | cons value values ih =>
    obtain ⟨hvalue, hvalues⟩ := List.forall_mem_cons.mp h
    rw [List.map_cons, List.mapM_cons, value?_symbol value hvalue, ih hvalues]
    rfl

/-- Whole blocks are read back from their text. -/
theorem decode_encode (hblocks : data.length % 5 = 0) : decode (encode data) = some data := by
  have hlength : (encode data).length = data.length / 5 * 8 := length_encode data
  have hsymbols : (encode data).length % 8 = 0 := by omega
  have hbytes : (encode data).length / 8 * 5 = data.length := by omega
  have hvalues : (encode data).mapM value? =
      some (digits (data.length / 5 * 8) (Bytes.toNatBE data)).reverse :=
    mapM_value?_symbol fun _ hvalue => lt_of_mem_digits (List.mem_reverse.mp hvalue)
  rw [decode, if_pos hsymbols, hvalues, Option.map_some, hbytes, List.reverse_reverse,
    ofDigits_digits (toNatBE_lt hblocks), Bytes.ofNatBE_toNatBE]

end Base32

end NemSigner
