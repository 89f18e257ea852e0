import NemSigner.Proofs.Checked.Decimal
import NemSigner.Proofs.Printer.Numerals

/-!
# Amounts are shown exactly

The text of an amount is described by its digits alone: what they spell, scaled by the places that
are left out, is the number of smallest units. There is one such text for every number, and it is
what the printer writes, whole or not at all.

## Main definitions

- `Decimal.Canonical` — digits in front of the point and behind it that spell an amount, with none
  that could be left out
- `Decimal.pointed`, `Decimal.CanonicalText` — both as one text
- `Decimal.denominated` — an amount in front of its unit

## Main statements

- `Decimal.canonicalText_iff` — an amount has one canonical text
- `Printer.token_inj` — what is written of an amount tells the amount
- `Printer.token_exact` — an amount and its unit are written whole, in canonical form, or not at all
-/

namespace NemSigner

namespace Decimal

variable {places n m : Nat} {digits digits' whole part text : Bytes}

/-- The digits in front of the point and those behind it spell a number of smallest units, and none
of them can be left out. -/
structure Canonical (places n : Nat) (whole part : Bytes) : Prop where
  whole_digits : ∀ byte ∈ whole, IsDigit byte
  whole_ne_nil : whole ≠ []
  /-- A zero in front stands alone. -/
  leading : ∀ rest, whole = 0x30 :: rest → rest = []
  part_digits : ∀ byte ∈ part, IsDigit byte
  length_part_le : part.length ≤ places
  /-- No zero stands at the end behind the point. -/
  trailing : part.getLast? ≠ some 0x30
  value_eq : value (whole ++ part) * unit (places - part.length) = n

/-- Digits with a point between them, unless there are none behind it. -/
def pointed (whole part : Bytes) : Bytes :=
  whole ++ if part = [] then [] else 0x2e :: part

/-- A text that an amount can be written with, in canonical form. -/
def CanonicalText (places n : Nat) (text : Bytes) : Prop :=
  ∃ whole part, Canonical places n whole part ∧ text = pointed whole part

/-- A text in front of a unit, if there is one. -/
def denominated (text : Bytes) (name : Option Bytes) : Bytes :=
  text ++
    match name with
    | some name => 0x20 :: name
    | none => []

/-! ### Places behind the point -/

theorem unit_add (places places' : Nat) : unit (places + places') = unit places * unit places' :=
  Nat.pow_add 10 places places'

theorem value_zeros (count : Nat) : value (List.replicate count 0x30) = 0 := by
  induction count with
  | zero => rfl
  | succ count ih =>
    rw [List.replicate_succ, value_cons, ih]
    exact Nat.zero_mul _

/-- Zeros behind the digits scale what they spell. -/
theorem value_append_zeros (digits : Bytes) (count : Nat) :
    value (digits ++ List.replicate count 0x30) = value digits * unit count := by
  rw [value_append, value_zeros, List.length_replicate, Nat.add_zero]

theorem getLast?_trimZeros (digits : Bytes) : (trimZeros digits).getLast? ≠ some 0x30 := by
  intro hzero
  rw [trimZeros, List.getLast?_reverse] at hzero
  have hlast := List.head?_dropWhile_not (· == 0x30) digits.reverse
  rw [hzero] at hlast
  cases hlast

/-- Only zeros at the end are trimmed. -/
theorem trimZeros_append_zeros (htrailing : part.getLast? ≠ some 0x30) (count : Nat) :
    trimZeros (part ++ List.replicate count 0x30) = part := by
  have hzeros (byte : UInt8) (hbyte : byte ∈ List.replicate count 0x30) :
      (byte == 0x30) = true := by
    rw [List.eq_of_mem_replicate hbyte]
    rfl
  rw [trimZeros, List.reverse_append, List.reverse_replicate, List.dropWhile_append_of_pos hzeros]
  exact trimZeros_of_trailing htrailing

/-- Digits for all places are what their number is padded to. -/
theorem padded_value (hdigits : ∀ byte ∈ digits, IsDigit byte) (hlength : digits.length = places)
    (hplaces : 0 < places) : padded places (value digits) = digits := by
  have hlt : value digits < unit places := hlength ▸ value_lt hdigits
  refine eq_of_value_eq (fun _ => isDigit_of_mem_padded) hdigits ?_ (value_padded _ _)
  rw [length_padded hplaces hlt, hlength]

theorem trimZeros_padded_zero (places : Nat) : trimZeros (padded places 0) = [] := by
  have hzeros : padded places 0 = List.replicate (places - 1 + 1) 0x30 :=
    List.replicate_succ'.symm
  rw [hzeros]
  exact @trimZeros_append_zeros [] (by decide) (places - 1 + 1)

theorem trimZeros_padded_ne_nil (hm : m ≠ 0) : trimZeros (padded places m) ≠ [] := by
  intro hnil
  obtain ⟨count, hcount⟩ := eq_trimZeros_append (padded places m)
  rw [hnil, List.nil_append] at hcount
  rw [← value_padded places m, hcount, value_zeros] at hm
  exact hm rfl

/-! ### Canonical texts -/

theorem pointed_amount (places n : Nat) :
    pointed (numeral (n / unit places)) (trimZeros (padded places (n % unit places))) =
      amount places n := by
  rw [pointed, amount, fraction]
  by_cases hpart : n % unit places = 0
  · rw [if_pos hpart, hpart, trimZeros_padded_zero, if_pos rfl]
  · rw [if_neg hpart, if_neg (trimZeros_padded_ne_nil hpart)]

/-- The digits that an amount is written with are canonical. -/
theorem canonical_amount (places n : Nat) :
    Canonical places n (numeral (n / unit places))
      (trimZeros (padded places (n % unit places))) where
  whole_digits _ := isDigit_of_mem_numeral
  whole_ne_nil := numeral_ne_nil _
  leading := numeral_leading _
  part_digits _ hbyte := isDigit_of_mem_padded (mem_of_mem_trimZeros hbyte)
  length_part_le := by
    by_cases hpart : n % unit places = 0
    · rw [hpart, trimZeros_padded_zero]
      exact Nat.zero_le _
    · have hlt := Nat.mod_lt n (unit_pos places)
      have hlength := length_padded (places_pos hpart hlt) hlt
      exact Nat.le_trans (length_trimZeros_le _) (Nat.le_of_eq hlength)
  trailing := getLast?_trimZeros _
  value_eq := by
    by_cases hpart : n % unit places = 0
    · rw [hpart, trimZeros_padded_zero, List.append_nil, value_numeral]
      exact Nat.div_mul_cancel (Nat.dvd_of_mod_eq_zero hpart)
    · have hlt := Nat.mod_lt n (unit_pos places)
      have hlength := length_padded (places_pos hpart hlt) hlt
      obtain ⟨count, hcount⟩ := eq_trimZeros_append (padded places (n % unit places))
      have hplaces : places - (trimZeros (padded places (n % unit places))).length = count := by
        rw [hcount, List.length_append, List.length_replicate] at hlength
        omega
      rw [hplaces, ← value_append_zeros, List.append_assoc, ← hcount, value_append, value_numeral,
        value_padded, hlength]
      exact Nat.div_add_mod' n (unit places)

/-- There are no other canonical digits. -/
theorem Canonical.pointed_eq (h : Canonical places n whole part) :
    pointed whole part = amount places n := by
  -- What the part spells is less than a whole unit, so the two are the quotient and the remainder.
  have hscaled : value part * unit (places - part.length) < unit places := by
    have hlt := Nat.mul_lt_mul_of_pos_right (value_lt h.part_digits)
      (unit_pos (places - part.length))
    rwa [← unit_add, Nat.add_sub_cancel' h.length_part_le] at hlt
  have hsum : unit places * value whole + value part * unit (places - part.length) = n := by
    rw [← h.value_eq, value_append, Nat.add_mul, Nat.mul_assoc, ← unit_add,
      Nat.add_sub_cancel' h.length_part_le, Nat.mul_comm]
  have hwhole : n / unit places = value whole := by
    rw [← hsum, Nat.mul_add_div (unit_pos places), Nat.div_eq_of_lt hscaled, Nat.add_zero]
  have hpart : n % unit places = value part * unit (places - part.length) := by
    rw [← hsum, Nat.mul_add_mod, Nat.mod_eq_of_lt hscaled]
  have htrim : trimZeros (padded places (n % unit places)) = part := by
    by_cases hnil : part = []
    · rw [hpart, hnil]
      exact (Nat.zero_mul _).symm ▸ trimZeros_padded_zero places
    · have hplaces : 0 < places :=
        Nat.lt_of_lt_of_le (List.length_pos_iff.mpr hnil) h.length_part_le
      have hlength : (part ++ List.replicate (places - part.length) 0x30).length = places := by
        rw [List.length_append, List.length_replicate, Nat.add_sub_cancel' h.length_part_le]
      have hdigits : ∀ byte ∈ part ++ List.replicate (places - part.length) 0x30, IsDigit byte :=
        List.forall_mem_append.mpr ⟨h.part_digits, fun _ => isDigit_of_mem_zeros⟩
      rw [hpart, ← value_append_zeros, padded_value hdigits hlength hplaces,
        trimZeros_append_zeros h.trailing]
  rw [← pointed_amount, hwhole, numeral_value h.whole_digits h.whole_ne_nil h.leading, htrim]

/-- An amount has one canonical text. -/
theorem canonicalText_iff : CanonicalText places n text ↔ text = amount places n := by
  constructor
  · rintro ⟨whole, part, h, rfl⟩
    exact h.pointed_eq
  · rintro rfl
    exact ⟨_, _, canonical_amount places n, (pointed_amount places n).symm⟩

end Decimal

namespace Printer

open Decimal (CanonicalText amount amount_inj canonicalText_iff denominated)

variable {places n : Nat}

theorem token_of_lt (h : maxDecimalPlaces < places) (n : Nat) (name : Option Bytes) :
    token places n name = fail .invalidData :=
  if_pos h

theorem token_of_le (h : places ≤ maxDecimalPlaces) (n : Nat) (name : Option Bytes) :
    token places n name = text (denominated (amount places n) name) :=
  if_neg (Nat.not_lt_of_le h)

/-- What has been written of an amount tells the amount. -/
theorem token_inj {n' : Nat} {name : Option Bytes} {buffer buffer' shown : Bytes}
    (h : (token places n name).run buffer = .ok shown)
    (h' : (token places n' name).run buffer' = .ok shown) : n = n' := by
  rcases Nat.lt_or_ge maxDecimalPlaces places with hmany | hfew
  · rw [token_of_lt hmany] at h
    cases h
  · rw [token_of_le hfew, run_text] at h h'
    split at h <;> cases h
    split at h' <;> simp only [Except.ok.injEq, reduceCtorEq] at h'
    exact (amount_inj (List.append_cancel_right h')).symm

/-- A whole unit of twenty places is more than a number of sixty-four bits can be. Any other amount
has one canonical text, and that text with its unit is what a printer leaves at the front of a
buffer, and what the routine writes that strips and pads the digits one by one, or there are too few
cells for it. So amounts of one unit that are shown alike are the same. -/
theorem token_exact (places n : Nat) (name : Option Bytes) :
    ∃ text, (∀ other, CanonicalText places n other ↔ other = text) ∧
      (∀ buffer, 20 ≤ places → (token places n name buffer).outcome = .error .invalidData ∧
        Pen.token places n name buffer = .error (.refused .invalidData)) ∧
      (∀ buffer, places < 20 → (denominated text name).length ≤ buffer.length →
        token places n name buffer = ⟨.ok (denominated text name).length,
          denominated text name ++ buffer.drop (denominated text name).length⟩ ∧
        Pen.token places n name buffer = .ok ((denominated text name).length,
          denominated text name ++ buffer.drop (denominated text name).length)) ∧
      (∀ buffer, places < 20 → buffer.length < (denominated text name).length →
        (token places n name buffer).outcome = .error .notEnoughData ∧
        Pen.token places n name buffer = .error (.refused .notEnoughData)) ∧
      ∀ n' buffer buffer' shown, (token places n name).run buffer = .ok shown →
        (token places n' name).run buffer' = .ok shown → n = n' := by
  have hpen (hfew : places < 20) (buffer : Bytes) :=
    Pen.token_writes (Nat.le_of_lt_succ hfew) n name buffer
  refine ⟨amount places n, fun other => canonicalText_iff, fun buffer hmany => ⟨?_, ?_⟩,
    fun buffer hfew hroom => ⟨?_, ?_⟩, fun buffer hfew hroom => ⟨?_, ?_⟩,
    fun n' buffer buffer' shown => token_inj⟩
  · rw [token_of_lt hmany]
    rfl
  · have hunit : UInt64.size ≤ 10 ^ places :=
      Nat.le_trans (by decide) (Nat.pow_le_pow_right (by decide) hmany)
    rw [Pen.token, if_pos hunit]
    rfl
  · rw [token_of_le (Nat.le_of_lt_succ hfew), text, if_pos hroom]
  · exact (hpen hfew buffer).trans (if_pos hroom)
  · rw [token_of_le (Nat.le_of_lt_succ hfew), text, if_neg (Nat.not_le_of_lt hroom)]
  · exact (hpen hfew buffer).trans (if_neg (Nat.not_le_of_lt hroom))

/-- A tenth of a unit that has six places is written with three digits and its unit, into cells that
are enough for them. -/
theorem token_exact_tenth :
    token 6 100000 (some [0x78, 0x65, 0x6d]) (List.replicate 8 0) =
      ⟨.ok 7, [0x30, 0x2e, 0x31, 0x20, 0x78, 0x65, 0x6d, 0]⟩ ∧
    (token 6 100000 (some [0x78, 0x65, 0x6d]) (List.replicate 6 0)).outcome =
      .error .notEnoughData ∧
    (token 20 100000 none (List.replicate 8 0)).outcome = .error .invalidData := by
  obtain ⟨tenth, hcanonical, -, hroom, hshort, -⟩ := token_exact 6 100000 (some [0x78, 0x65, 0x6d])
  obtain ⟨-, -, hmany, -⟩ := token_exact 20 100000 none
  have hzero : ∀ byte ∈ [0x30], Decimal.IsDigit byte := List.forall_mem_singleton.mpr (by decide)
  have hone : ∀ byte ∈ [0x31], Decimal.IsDigit byte := List.forall_mem_singleton.mpr (by decide)
  have htenth : CanonicalText 6 100000 [0x30, 0x2e, 0x31] :=
    ⟨[0x30], [0x31], ⟨hzero, by decide, by simp, hone, by decide, by decide, rfl⟩, rfl⟩
  obtain rfl := (hcanonical _).mp htenth
  exact ⟨(hroom _ (by decide) (by decide)).1, (hshort _ (by decide) (by decide)).1,
    (hmany _ (by decide)).1⟩

end Printer

end NemSigner
