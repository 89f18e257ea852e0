import NemSigner.Numeral
import NemSigner.Printer.Decimal
import NemSigner.Proofs.Printer.Sanitised

/-!
# Decimal numerals tell their number

A numeral is read back as the number it was written for, and the text of an amount as the number of
smallest units: the digits before the point are whole units, and what the trimmed digits behind it
lost were zeros.

## Main definitions

- `Decimal.IsDigit` — the bytes of the ten digits
- `Decimal.value` — the number that digits spell

## Main statements

- `Decimal.value_numeral` — a numeral spells its number
- `Decimal.numeral_inj`, `Decimal.signed_inj`, `Decimal.amount_inj` — different numbers have
  different texts
- `Decimal.amount_printable`, `Decimal.length_amount_le` — an amount can be shown in a few bytes
-/

namespace NemSigner

namespace Decimal

/-- The byte of one of the ten digits. -/
def IsDigit (byte : UInt8) : Prop :=
  0x30 ≤ byte.toNat ∧ byte.toNat ≤ 0x39

instance (byte : UInt8) : Decidable (IsDigit byte) :=
  inferInstanceAs (Decidable (0x30 ≤ byte.toNat ∧ byte.toNat ≤ 0x39))

theorem IsDigit.isPrintable {byte : UInt8} (h : IsDigit byte) : Bytes.isPrintable byte = true := by
  obtain ⟨hlow, hhigh⟩ := h
  exact Bytes.isPrintable_iff.mpr ⟨by omega, by omega⟩

/-- The number that digits spell, highest first. -/
def value (digits : Bytes) : Nat :=
  Numeral.ofDigits (digits.map fun digit => digit.toNat - 0x30)

/-! ### Numerals -/

theorem toNat_digit {digit : Char} {n : Nat} (h : digit ∈ Nat.toDigits 10 n) :
    0x30 ≤ digit.toNat ∧ digit.toNat ≤ 0x39 := by
  have hdigit := Nat.isDigit_of_mem_toDigits (by decide) (by decide) h
  simp only [Char.isDigit, Bool.and_eq_true, decide_eq_true_eq, ge_iff_le,
    UInt32.le_iff_toNat_le] at hdigit
  exact hdigit

theorem toNat_toUInt8_digit {digit : Char} {n : Nat} (h : digit ∈ Nat.toDigits 10 n) :
    digit.toNat.toUInt8.toNat = digit.toNat := by
  obtain ⟨-, hhigh⟩ := toNat_digit h
  exact UInt8.toNat_ofNat_of_lt' (show digit.toNat < 256 by omega)

theorem isDigit_of_mem_numeral {n : Nat} {byte : UInt8} (h : byte ∈ numeral n) : IsDigit byte := by
  obtain ⟨digit, hdigit, rfl⟩ := List.mem_map.mp h
  rw [IsDigit, toNat_toUInt8_digit hdigit]
  exact toNat_digit hdigit

theorem numeral_ne_nil (n : Nat) : numeral n ≠ [] := by
  rw [numeral, ne_eq, List.map_eq_nil_iff]
  exact Nat.toDigits_ne_nil

theorem numeral_printable (n : Nat) : Bytes.Printable (numeral n) :=
  fun _ hbyte => (isDigit_of_mem_numeral hbyte).isPrintable

/-- A number below a power of ten has no more digits than the power. -/
theorem length_numeral_le {n places : Nat} (hplaces : 0 < places) (h : n < unit places) :
    (numeral n).length ≤ places := by
  rw [numeral, List.length_map]
  exact (Nat.length_toDigits_le_iff (by decide) hplaces).mpr h

/-- A numeral spells its number. -/
theorem value_numeral (n : Nat) : value (numeral n) = n := by
  have hdigits : (numeral n).map (fun digit => digit.toNat - 0x30) =
      (Nat.toDigits 10 n).map fun digit => digit.toNat - '0'.toNat := by
    rw [numeral, List.map_map]
    refine List.map_congr_left fun digit hdigit => ?_
    rw [Function.comp_apply, toNat_toUInt8_digit hdigit]
    rfl
  have hread := Nat.ofDigitChars_ten_toDigits (n := n)
  rw [Nat.ofDigitChars_eq_foldl] at hread
  rw [value, hdigits, Numeral.ofDigits, List.foldl_map]
  exact hread

theorem numeral_inj {n m : Nat} (h : numeral n = numeral m) : n = m := by
  rw [← value_numeral n, h, value_numeral]

/-- Digits in front of something that is no digit end where it begins. -/
theorem digits_append_inj {digits digits' rest rest' : Bytes}
    (hdigits : ∀ byte ∈ digits, IsDigit byte) (hdigits' : ∀ byte ∈ digits', IsDigit byte)
    (hrest : ∀ byte ∈ rest.head?, ¬IsDigit byte) (hrest' : ∀ byte ∈ rest'.head?, ¬IsDigit byte)
    (h : digits ++ rest = digits' ++ rest') : digits = digits' ∧ rest = rest' := by
  induction digits generalizing digits' with
  | nil =>
    cases digits' with
    | nil => exact ⟨rfl, h⟩
    | cons digit' digits' =>
      rw [List.nil_append] at h
      exact absurd (hdigits' digit' List.mem_cons_self) (hrest digit' (by rw [h]; rfl))
  | cons digit digits ih =>
    cases digits' with
    | nil =>
      rw [List.nil_append] at h
      exact absurd (hdigits digit List.mem_cons_self) (hrest' digit (by rw [← h]; rfl))
    | cons digit' digits' =>
      obtain ⟨rfl, htail⟩ := List.cons.inj h
      obtain ⟨rfl, hsame⟩ := ih (List.forall_mem_cons.mp hdigits).2
        (List.forall_mem_cons.mp hdigits').2 htail
      exact ⟨rfl, hsame⟩

/-! ### Signed numerals -/

theorem minus_notMem_numeral (n : Nat) : 0x2d ∉ numeral n := by
  intro hminus
  have hdigit := isDigit_of_mem_numeral hminus
  exact absurd hdigit.1 (by decide)

theorem signed_inj {z w : Int} (h : signed z = signed w) : z = w := by
  cases z with
  | ofNat n =>
    cases w with
    | ofNat m => exact congrArg Int.ofNat (numeral_inj h)
    | negSucc m =>
      have hminus : 0x2d ∈ numeral n := by
        rw [show numeral n = 0x2d :: numeral (m + 1) from h]
        exact List.mem_cons_self
      exact absurd hminus (minus_notMem_numeral n)
  | negSucc n =>
    cases w with
    | ofNat m =>
      have hminus : 0x2d ∈ numeral m := by
        rw [← show 0x2d :: numeral (n + 1) = numeral m from h]
        exact List.mem_cons_self
      exact absurd hminus (minus_notMem_numeral m)
    | negSucc m =>
      have hnumber : n + 1 = m + 1 := numeral_inj (List.cons.inj h).2
      rw [Nat.succ.inj hnumber]

/-- A signed numeral has no bytes but digits and a minus sign. -/
theorem isDigit_of_mem_signed {z : Int} {byte : UInt8} (h : byte ∈ signed z)
    (hminus : byte ≠ 0x2d) : IsDigit byte := by
  cases z with
  | ofNat n => exact isDigit_of_mem_numeral h
  | negSucc n => exact isDigit_of_mem_numeral ((List.mem_cons.mp h).resolve_left hminus)

theorem signed_printable (z : Int) : Bytes.Printable (signed z) := by
  cases z with
  | ofNat n => exact numeral_printable n
  | negSucc n => exact .cons rfl (numeral_printable (n + 1))

theorem signed_ne_nil (z : Int) : signed z ≠ [] := by
  cases z with
  | ofNat n => exact numeral_ne_nil n
  | negSucc n => exact List.cons_ne_nil _ _

/-- A minus sign takes up one byte more. -/
theorem length_signed_le {z : Int} {places : Nat} (hplaces : 0 < places)
    (h : z.natAbs < unit places) : (signed z).length ≤ 1 + places := by
  cases z with
  | ofNat n =>
    have hlength : (numeral n).length ≤ places := length_numeral_le hplaces h
    exact Nat.le_trans hlength (Nat.le_add_left _ _)
  | negSucc n =>
    have hlength : (numeral (n + 1)).length ≤ places := length_numeral_le hplaces h
    rw [signed, List.length_cons]
    omega

/-! ### Amounts -/

theorem unit_pos (places : Nat) : 0 < unit places :=
  Nat.pow_pos (by decide)

/-- Something other than zero smallest units is less than a whole one only when there are places. -/
theorem places_pos {places n : Nat} (hn : n ≠ 0) (h : n < unit places) : 0 < places := by
  rcases Nat.eq_zero_or_pos places with rfl | hplaces
  · exact absurd (Nat.lt_one_iff.mp h) hn
  · exact hplaces

/-- Trimming takes zeros away and nothing else. -/
theorem eq_trimZeros_append (digits : Bytes) :
    ∃ count, digits = trimZeros digits ++ List.replicate count 0x30 := by
  have hzeros : digits.reverse.takeWhile (· == 0x30) =
      List.replicate (digits.reverse.takeWhile (· == 0x30)).length 0x30 := by
    refine List.eq_replicate_of_mem fun byte hbyte => ?_
    simpa using List.all_eq_true.mp List.all_takeWhile byte hbyte
  refine ⟨(digits.reverse.takeWhile (· == 0x30)).length, ?_⟩
  rw [trimZeros, ← List.reverse_inj, List.reverse_append, List.reverse_reverse,
    List.reverse_replicate, ← hzeros, List.takeWhile_append_dropWhile]

theorem mem_of_mem_trimZeros {digits : Bytes} {byte : UInt8} (h : byte ∈ trimZeros digits) :
    byte ∈ digits := by
  obtain ⟨count, hcount⟩ := eq_trimZeros_append digits
  rw [hcount]
  exact List.mem_append_left _ h

theorem length_trimZeros_le (digits : Bytes) : (trimZeros digits).length ≤ digits.length := by
  obtain ⟨count, hcount⟩ := eq_trimZeros_append digits
  have hlength := congrArg List.length hcount
  rw [List.length_append] at hlength
  omega

/-- Digits that do not end in a zero have nothing to be trimmed. -/
theorem trimZeros_of_trailing {digits : Bytes} (h : digits.getLast? ≠ some 0x30) :
    trimZeros digits = digits := by
  rw [← List.head?_reverse] at h
  rw [trimZeros]
  cases hdigits : digits.reverse with
  | nil => exact (List.reverse_eq_nil_iff.mp hdigits).symm
  | cons last rest =>
    have hlast : last ≠ 0x30 := fun hzero => h (by rw [hdigits, hzero]; rfl)
    rw [List.dropWhile_cons_of_neg (by simpa using hlast), ← hdigits, List.reverse_reverse]

/-- How many zeros are gone can be told when the number of digits is known. -/
theorem trimZeros_inj {digits digits' : Bytes} (hlength : digits.length = digits'.length)
    (h : trimZeros digits = trimZeros digits') : digits = digits' := by
  obtain ⟨count, hcount⟩ := eq_trimZeros_append digits
  obtain ⟨count', hcount'⟩ := eq_trimZeros_append digits'
  have hsame : count = count' := by
    have hdigits := congrArg List.length hcount
    have hdigits' := congrArg List.length hcount'
    rw [List.length_append, List.length_replicate] at hdigits hdigits'
    rw [h] at hdigits
    omega
  rw [hcount, hcount', h, hsame]

theorem isDigit_of_mem_zeros {count : Nat} {byte : UInt8} (h : byte ∈ List.replicate count 0x30) :
    IsDigit byte := by
  rw [List.eq_of_mem_replicate h]
  decide

theorem isDigit_of_mem_padded {places n : Nat} {byte : UInt8} (h : byte ∈ padded places n) :
    IsDigit byte := by
  rcases List.mem_append.mp h with hzero | hdigit
  · exact isDigit_of_mem_zeros hzero
  · exact isDigit_of_mem_numeral hdigit

theorem length_padded {places n : Nat} (hplaces : 0 < places) (h : n < unit places) :
    (padded places n).length = places := by
  have hlength := length_numeral_le hplaces h
  rw [padded, List.length_append, List.length_replicate]
  omega

/-- Zeros in front change no number. -/
theorem value_padded (places n : Nat) : value (padded places n) = n := by
  have hzeros (count : Nat) : value (List.replicate count 0x30 ++ numeral n) = n := by
    induction count with
    | zero => exact value_numeral n
    | succ count ih => exact ih
  exact hzeros _

/-- Behind the whole units stands nothing or a point. -/
theorem fraction_head {places n : Nat} : ∀ byte ∈ (fraction places n).head?, ¬IsDigit byte := by
  intro byte hbyte hdigit
  rw [fraction] at hbyte
  split at hbyte
  · cases hbyte
  · cases hbyte
    exact absurd hdigit.1 (by decide)

theorem fraction_inj {places n m : Nat} (hn : n < unit places) (hm : m < unit places)
    (h : fraction places n = fraction places m) : n = m := by
  rw [fraction, fraction] at h
  by_cases hn0 : n = 0
  · by_cases hm0 : m = 0
    · rw [hn0, hm0]
    · rw [if_pos hn0, if_neg hm0] at h
      cases h
  · by_cases hm0 : m = 0
    · rw [if_neg hn0, if_pos hm0] at h
      cases h
    · rw [if_neg hn0, if_neg hm0] at h
      have hlength : (padded places n).length = (padded places m).length := by
        rw [length_padded (places_pos hn0 hn) hn, length_padded (places_pos hm0 hm) hm]
      have hpadded := trimZeros_inj hlength (List.cons.inj h).2
      rw [← value_padded places n, hpadded, value_padded]

/-- Different numbers of smallest units are written differently. -/
theorem amount_inj {places n m : Nat} (h : amount places n = amount places m) : n = m := by
  obtain ⟨hwhole, hfraction⟩ := digits_append_inj (fun _ => isDigit_of_mem_numeral)
    (fun _ => isDigit_of_mem_numeral) fraction_head fraction_head h
  have hquotient := numeral_inj hwhole
  have hremainder := fraction_inj (Nat.mod_lt n (unit_pos places)) (Nat.mod_lt m (unit_pos places))
    hfraction
  calc n = unit places * (n / unit places) + n % unit places := (Nat.div_add_mod n _).symm
    _ = unit places * (m / unit places) + m % unit places := by rw [hquotient, hremainder]
    _ = m := Nat.div_add_mod m _

theorem fraction_printable (places n : Nat) : Bytes.Printable (fraction places n) := by
  rw [fraction]
  split
  · exact .nil
  · exact .cons rfl fun byte hbyte =>
      (isDigit_of_mem_padded (mem_of_mem_trimZeros hbyte)).isPrintable

theorem amount_printable (places n : Nat) : Bytes.Printable (amount places n) :=
  (numeral_printable _).append (fraction_printable _ _)

theorem length_fraction_le {places n : Nat} (h : n < unit places) :
    (fraction places n).length ≤ 1 + places := by
  rw [fraction]
  split
  · exact Nat.zero_le _
  · next hn =>
    have htrimmed := length_trimZeros_le (padded places n)
    rw [length_padded (places_pos hn h) h] at htrimmed
    rw [List.length_cons]
    omega

/-- An amount takes up the digits of its whole units, a point and the places behind it. -/
theorem length_amount_le {places whole n : Nat} (hwhole : 0 < whole)
    (h : n / unit places < unit whole) : (amount places n).length ≤ whole + (1 + places) := by
  have hunits := length_numeral_le hwhole h
  have hfraction := length_fraction_le (Nat.mod_lt n (unit_pos places))
  rw [amount, List.length_append]
  omega

end Decimal

end NemSigner
