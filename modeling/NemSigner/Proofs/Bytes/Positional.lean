import Mathlib.Data.List.Basic
import Mathlib.Data.Nat.Digits.Lemmas
import NemSigner.Proofs.Bytes.Written

/-!
# Positional numerals

Digits of an alphabet spell a number, highest first: each is worth its place in the alphabet, times
the size of the alphabet for every digit behind it. Decimal and hexadecimal numerals and base 32
text are all of this kind, and so are byte strings with the highest byte first.

## Main definitions

- `Positional.value` — the number that digits of an alphabet spell
- `Positional.Spells` — digits of an alphabet spell a number
- `Positional.Shortest` — and no fewer digits do

## Main statements

- `Positional.Spells.unique` — so many digits spell a number in one way
- `Positional.Shortest.unique` — a number has one shortest numeral
- `Positional.Spells.shortest` — digits without a needless zero in front are the shortest numeral
- `Bytes.toNatBE_cons` — what the first of several bytes is worth
-/

namespace NemSigner

namespace Positional

variable {alphabet digits digits' : Bytes} {digit : UInt8} {n : Nat}

/-- The number that digits spell, highest first. -/
def value (alphabet digits : Bytes) : Nat :=
  Nat.ofDigits alphabet.length (digits.map fun digit => alphabet.idxOf digit).reverse

/-- Digits of an alphabet spell a number. -/
structure Spells (alphabet : Bytes) (n : Nat) (digits : Bytes) : Prop where
  mem_alphabet : ∀ digit ∈ digits, digit ∈ alphabet
  value_eq : value alphabet digits = n

/-- Digits of an alphabet spell a number, and no fewer of them do. -/
structure Shortest (alphabet : Bytes) (n : Nat) (digits : Bytes) : Prop
    extends Spells alphabet n digits where
  ne_nil : digits ≠ []
  length_le : ∀ digits', digits' ≠ [] → Spells alphabet n digits' → digits.length ≤ digits'.length

theorem value_cons (alphabet : Bytes) (digit : UInt8) (digits : Bytes) :
    value alphabet (digit :: digits) =
      alphabet.idxOf digit * alphabet.length ^ digits.length + value alphabet digits := by
  rw [value, List.map_cons, Nat.ofDigits_reverse_cons, List.length_map, Nat.add_comm, Nat.mul_comm]
  rfl

/-- What has a place in the alphabet is one of its digits. -/
theorem mem_of_idxOf {place : Nat} (h : alphabet.idxOf digit = place)
    (hplace : place < alphabet.length) : digit ∈ alphabet := by
  apply List.idxOf_lt_length_iff.mp
  rwa [h]

namespace Spells

theorem nil (alphabet : Bytes) : Spells alphabet 0 [] :=
  ⟨nofun, rfl⟩

theorem cons (hdigit : digit ∈ alphabet) (h : Spells alphabet n digits) :
    Spells alphabet (alphabet.idxOf digit * alphabet.length ^ digits.length + n)
      (digit :: digits) := by
  refine ⟨List.forall_mem_cons.mpr ⟨hdigit, h.mem_alphabet⟩, ?_⟩
  rw [value_cons, h.value_eq]

/-- The places in the alphabet are below its size. -/
theorem idxOf_lt (h : Spells alphabet n digits) :
    ∀ place ∈ (digits.map fun digit => alphabet.idxOf digit).reverse, place < alphabet.length := by
  intro place hplace
  rw [List.mem_reverse, List.mem_map] at hplace
  obtain ⟨digit, hdigit, rfl⟩ := hplace
  exact List.idxOf_lt_length_of_mem (h.mem_alphabet digit hdigit)

theorem lt (h : Spells alphabet n digits) (hbase : 1 < alphabet.length) :
    n < alphabet.length ^ digits.length := by
  have hlt := Nat.ofDigits_lt_base_pow_length hbase h.idxOf_lt
  rw [List.length_reverse, List.length_map] at hlt
  rw [← h.value_eq]
  exact hlt

/-- A digit can be told from its place in the alphabet. -/
theorem map_idxOf_inj (h : ∀ digit ∈ digits, digit ∈ alphabet)
    (heq : digits.map (fun digit => alphabet.idxOf digit) =
      digits'.map fun digit => alphabet.idxOf digit) : digits = digits' := by
  induction digits generalizing digits' with
  | nil => exact (List.map_eq_nil_iff.mp heq.symm).symm
  | cons digit digits ih =>
    cases digits' with
    | nil => cases heq
    | cons digit' digits' =>
      obtain ⟨hdigit, hdigits⟩ := List.forall_mem_cons.mp h
      obtain ⟨hplace, hplaces⟩ := List.cons.inj heq
      rw [(List.idxOf_inj hdigit).mp hplace, ih hdigits hplaces]

/-- As many digits that spell the same number are the same. -/
theorem unique (h : Spells alphabet n digits) (h' : Spells alphabet n digits')
    (hbase : 1 < alphabet.length) (hlength : digits.length = digits'.length) :
    digits = digits' := by
  apply map_idxOf_inj h.mem_alphabet
  apply List.reverse_inj.mp
  apply Nat.ofDigits_inj_of_len_eq hbase _ h.idxOf_lt h'.idxOf_lt
  · exact h.value_eq.trans h'.value_eq.symm
  · simpa using hlength

/-- Digits of which the first is no needless zero are as few as can be. -/
theorem shortest (h : Spells alphabet n (digit :: digits)) (hbase : 1 < alphabet.length)
    (hleading : alphabet.head? = some digit → digits = []) :
    Shortest alphabet n (digit :: digits) := by
  refine ⟨h, List.cons_ne_nil _ _, ?_⟩
  intro digits' hne h'
  by_cases hplace : alphabet.idxOf digit = 0
  · have hzero : alphabet.head? = some digit := by
      have hmem := h.mem_alphabet digit List.mem_cons_self
      cases alphabet with
      | nil => cases hmem
      | cons zero rest =>
        exact congrArg some ((List.idxOf_inj hmem).mp (hplace.trans List.idxOf_cons_self.symm)).symm
    rw [hleading hzero]
    exact List.length_pos_iff.mpr hne
  · -- The first digit is worth a power that fewer digits do not reach.
    have hlarge : alphabet.length ^ digits.length ≤ n := by
      rw [← h.value_eq, value_cons]
      exact Nat.le_trans (Nat.le_mul_of_pos_left _ (Nat.pos_of_ne_zero hplace))
        (Nat.le_add_right _ _)
    have hpow := Nat.lt_of_le_of_lt hlarge (h'.lt hbase)
    exact (Nat.pow_lt_pow_iff_right hbase).mp hpow

end Spells

/-- A number has one shortest numeral. -/
theorem Shortest.unique (h : Shortest alphabet n digits) (h' : Shortest alphabet n digits')
    (hbase : 1 < alphabet.length) : digits = digits' := by
  have hle := h.length_le digits' h'.ne_nil h'.toSpells
  have hge := h'.length_le digits h.ne_nil h.toSpells
  exact h.toSpells.unique h'.toSpells hbase (Nat.le_antisymm hle hge)

end Positional

namespace Bytes

theorem toNatLE_eq_ofDigits (data : Bytes) :
    toNatLE data = Nat.ofDigits 256 (data.map UInt8.toNat) := by
  induction data with
  | nil => rfl
  | cons byte rest ih => rw [toNatLE, ih, List.map_cons, Nat.ofDigits_cons]

/-- The first of several bytes is worth a power of 256. -/
theorem toNatBE_cons (byte : UInt8) (rest : Bytes) :
    toNatBE (byte :: rest) = byte.toNat * 256 ^ rest.length + toNatBE rest := by
  rw [toNatBE, toNatBE, toNatLE_eq_ofDigits, toNatLE_eq_ofDigits, List.map_reverse,
    List.map_reverse, List.map_cons, Nat.ofDigits_reverse_cons, List.length_map, Nat.add_comm,
    Nat.mul_comm]

theorem toNatBE_lt_pow (data : Bytes) : toNatBE data < 256 ^ data.length := by
  have hbytes : ∀ digit ∈ data.reverse.map UInt8.toNat, digit < 256 := by
    intro digit hdigit
    obtain ⟨byte, -, rfl⟩ := List.mem_map.mp hdigit
    exact byte.toNat_lt
  have hlt := Nat.ofDigits_lt_base_pow_length (by decide) hbytes
  rwa [← toNatLE_eq_ofDigits, List.length_map, List.length_reverse] at hlt

end Bytes

end NemSigner
