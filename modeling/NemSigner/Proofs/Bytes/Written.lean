import NemSigner.Bytes.Integer

/-!
# Written forms that delimit themselves

An integer of fixed width, and a byte string with its length in front, can be told from whatever is
written behind them.

## Main definitions

- `Delimits` — what is written can be told from what is written behind it

## Main statements

- `Bytes.ofNatLE_append_inj`, `Bytes.prefixed_append_inj` — equal texts have equal first parts
- `Bytes.exists_uint32`, `Bytes.exists_uint64` — four and eight bytes are the written form of a word
- `Delimits.flatMap`, `Delimits.flatMap_whole` — so can the items of a list, when their number is
  known or nothing stands behind them
-/

namespace NemSigner

/-- What holds of every number below two hundred and fifty-six holds of every byte. -/
theorem forall_byte {p : UInt8 → Prop} (h : ∀ n < 256, p n.toUInt8) (byte : UInt8) : p byte := by
  have hbyte := h byte.toNat byte.toNat_lt
  simpa using hbyte

namespace Bytes

theorem bound_four : bound 4 = UInt32.size := rfl

theorem bound_eight : bound 8 = UInt64.size := rfl

/-- A number that the width has room for is read back. -/
theorem toNatLE_ofNatLE_of_lt {width n : Nat} (h : n < bound width) :
    toNatLE (ofNatLE width n) = n := by
  rw [toNatLE_ofNatLE, Nat.mod_eq_of_lt h]

theorem toNatLE_ofNatLE_four {n : Nat} (h : n < UInt32.size) : toNatLE (ofNatLE 4 n) = n :=
  toNatLE_ofNatLE_of_lt h

theorem toNatLE_ofNatLE_uint32 (n : UInt32) : toNatLE (ofNatLE 4 n.toNat) = n.toNat :=
  toNatLE_ofNatLE_four n.toNat_lt_size

/-- Bytes are the written form of their own value in their own number. -/
theorem ofNatLE_toNatLE_of_length {width : Nat} {data : Bytes} (h : data.length = width) :
    ofNatLE width (toNatLE data) = data := by
  subst h
  exact ofNatLE_toNatLE data

theorem ofNatLE_inj {width n m : Nat} (hn : n < bound width) (hm : m < bound width) :
    ofNatLE width n = ofNatLE width m ↔ n = m := by
  constructor
  · intro h
    rw [← toNatLE_ofNatLE_of_lt hn, h, toNatLE_ofNatLE_of_lt hm]
  · rintro rfl
    rfl

@[simp] theorem ofNatLE_uint32_inj {n m : UInt32} :
    ofNatLE 4 n.toNat = ofNatLE 4 m.toNat ↔ n = m := by
  rw [ofNatLE_inj n.toNat_lt_size m.toNat_lt_size, UInt32.toNat_inj]

@[simp] theorem ofNatLE_uint64_inj {n m : UInt64} :
    ofNatLE 8 n.toNat = ofNatLE 8 m.toNat ↔ n = m := by
  rw [ofNatLE_inj n.toNat_lt_size m.toNat_lt_size, UInt64.toNat_inj]

/-- A number that four bytes have room for is that of a word of thirty-two bits. -/
theorem exists_word {n : Nat} (h : n < UInt32.size) : ∃ word : UInt32, n = word.toNat :=
  ⟨n.toUInt32, (UInt32.toNat_ofNat_of_lt' h).symm⟩

/-- So many bytes hold a number that their width has room for. -/
theorem toNatLE_lt_bound {width : Nat} {data : Bytes} (h : data.length = width) :
    toNatLE data < bound width := by
  rw [← h]
  exact toNatLE_lt data

/-- Four bytes are the written form of a word of thirty-two bits. -/
theorem exists_uint32 {data : Bytes} (h : data.length = 4) :
    ∃ n : UInt32, data = ofNatLE 4 n.toNat := by
  have hlt : toNatLE data < UInt32.size := toNatLE_lt_bound h
  obtain ⟨n, hn⟩ := exists_word hlt
  exact ⟨n, by rw [← hn, ofNatLE_toNatLE_of_length h]⟩

/-- Eight bytes are the written form of a word of sixty-four bits. -/
theorem exists_uint64 {data : Bytes} (h : data.length = 8) :
    ∃ n : UInt64, data = ofNatLE 8 n.toNat := by
  have hlt : toNatLE data < UInt64.size := toNatLE_lt_bound h
  refine ⟨(toNatLE data).toUInt64, ?_⟩
  rw [UInt64.toNat_ofNat_of_lt' hlt, ofNatLE_toNatLE_of_length h]

/-- What is written with the highest byte first is read back, reduced to the width. -/
theorem toNatBE_ofNatBE (width n : Nat) : toNatBE (ofNatBE width n) = n % bound width := by
  rw [toNatBE, ofNatBE, List.reverse_reverse, toNatLE_ofNatLE]

theorem toNatBE_ofNatBE_uint32 (n : UInt32) : toNatBE (ofNatBE 4 n.toNat) = n.toNat := by
  rw [toNatBE_ofNatBE, bound_four, Nat.mod_eq_of_lt n.toNat_lt_size]

/-- Every byte string is the written form of its own value, highest byte first. -/
theorem ofNatBE_toNatBE (bytes : Bytes) : ofNatBE bytes.length (toNatBE bytes) = bytes := by
  have hreversed := ofNatLE_toNatLE bytes.reverse
  rw [List.length_reverse] at hreversed
  rw [ofNatBE, toNatBE, hreversed, List.reverse_reverse]

/-- Four bytes are read as a number of thirty-two bits, and written again. -/
theorem ofNatBE_toUInt32 {bytes : Bytes} (hlength : bytes.length = 4) :
    ofNatBE 4 (toNatBE bytes).toUInt32.toNat = bytes := by
  have hlt : toNatBE bytes < UInt32.size := by
    have hvalue := toNatLE_lt bytes.reverse
    rwa [List.length_reverse, hlength, bound_four] at hvalue
  have hnumber : (toNatBE bytes).toUInt32.toNat = toNatBE bytes := UInt32.toNat_ofNat_of_lt' hlt
  rw [hnumber, ← hlength, ofNatBE_toNatBE]

/-- Integers of one width in front of other bytes are equal when the texts are. -/
theorem ofNatLE_append_inj {width n m : Nat} {rest rest' : Bytes}
    (hn : n < bound width) (hm : m < bound width)
    (h : ofNatLE width n ++ rest = ofNatLE width m ++ rest') : n = m ∧ rest = rest' := by
  obtain ⟨hnumber, hrest⟩ := List.append_inj h (by simp only [length_ofNatLE])
  exact ⟨(ofNatLE_inj hn hm).mp hnumber, hrest⟩

/-- Byte strings with their length in front of other bytes are equal when the texts are. -/
theorem prefixed_append_inj {data data' rest rest' : Bytes}
    (hdata : data.length < UInt32.size) (hdata' : data'.length < UInt32.size)
    (h : prefixed data ++ rest = prefixed data' ++ rest') : data = data' ∧ rest = rest' := by
  simp only [prefixed, List.append_assoc] at h
  obtain ⟨hlength, htail⟩ := ofNatLE_append_inj hdata hdata' h
  exact List.append_inj htail hlength

theorem prefixed_inj {data data' : Bytes}
    (hdata : data.length < UInt32.size) (hdata' : data'.length < UInt32.size)
    (h : prefixed data = prefixed data') : data = data' := by
  have happend : prefixed data ++ [] = prefixed data' ++ [] := by rw [h]
  exact (prefixed_append_inj hdata hdata' happend).1

/-- A byte string with its length in front is not empty. -/
theorem prefixed_ne_nil (data : Bytes) : prefixed data ≠ [] := by
  intro h
  have hlength := congrArg List.length h
  rw [length_prefixed, List.length_nil] at hlength
  omega

/-- Every item of a list that is written leaves a byte at least. -/
theorem length_le_length_flatMap {α : Type} {write : α → Bytes}
    (hmark : ∀ value, write value ≠ []) (values : List α) :
    values.length ≤ (values.flatMap write).length := by
  induction values with
  | nil => exact Nat.le_refl 0
  | cons value values ih =>
    have hpos := List.length_pos_iff.mpr (hmark value)
    rw [List.flatMap_cons, List.length_append, List.length_cons]
    omega

/-- What is written of one item is part of what is written of the list. -/
theorem length_le_of_mem_flatMap {α : Type} (write : α → Bytes) {values : List α} {value : α}
    (hmem : value ∈ values) : (write value).length ≤ (values.flatMap write).length := by
  obtain ⟨front, back, rfl⟩ := List.append_of_mem hmem
  simp only [List.flatMap_append, List.flatMap_cons, List.length_append]
  omega

end Bytes

/-- Equal texts begin with the same value, as far as a view of the value goes, and go on in the same
way. -/
def Delimits {α β γ : Type} (valid : α → Prop) (write : α → List γ) (view : α → β) : Prop :=
  ∀ ⦃value value' : α⦄ ⦃rest rest' : List γ⦄, valid value → valid value' →
    write value ++ rest = write value' ++ rest' → view value = view value' ∧ rest = rest'

namespace Delimits

variable {α β γ : Type} {valid : α → Prop} {write : α → List γ} {view : α → β}

/-- Behind nothing the texts themselves are equal. -/
theorem whole (h : Delimits valid write view) {value value' : α} (hvalid : valid value)
    (hvalid' : valid value') (heq : write value = write value') : view value = view value' := by
  have happend : write value ++ [] = write value' ++ [] := by rw [heq]
  exact (h hvalid hvalid' happend).1

/-- As many items as before are told apart one after the other. -/
theorem flatMap (h : Delimits valid write view) {values values' : List α} {rest rest' : List γ}
    (hlength : values.length = values'.length) (hvalid : ∀ value ∈ values, valid value)
    (hvalid' : ∀ value ∈ values', valid value)
    (heq : values.flatMap write ++ rest = values'.flatMap write ++ rest') :
    values.map view = values'.map view ∧ rest = rest' := by
  -- Both lists lose their first item at once.
  induction values generalizing values' with
  | nil =>
    obtain rfl := List.eq_nil_of_length_eq_zero hlength.symm
    exact ⟨rfl, heq⟩
  | cons value values ih =>
    cases values' with
    | nil => cases hlength
    | cons value' values' =>
      obtain ⟨hvalue, hvalues⟩ := List.forall_mem_cons.mp hvalid
      obtain ⟨hvalue', hvalues'⟩ := List.forall_mem_cons.mp hvalid'
      simp only [List.flatMap_cons, List.append_assoc] at heq
      obtain ⟨hhead, htail⟩ := h hvalue hvalue' heq
      obtain ⟨hmap, hrest⟩ := ih (Nat.succ.inj hlength) hvalues hvalues' htail
      exact ⟨by rw [List.map_cons, List.map_cons, hhead, hmap], hrest⟩

/-- The items themselves are told apart when the view leaves nothing out. -/
theorem flatMap_eq (h : Delimits valid write fun value => value) {values values' : List α}
    {rest rest' : List γ} (hlength : values.length = values'.length)
    (hvalid : ∀ value ∈ values, valid value) (hvalid' : ∀ value ∈ values', valid value)
    (heq : values.flatMap write ++ rest = values'.flatMap write ++ rest') :
    values = values' ∧ rest = rest' := by
  obtain ⟨hsame, hrest⟩ := h.flatMap hlength hvalid hvalid' heq
  rw [List.map_id', List.map_id'] at hsame
  exact ⟨hsame, hrest⟩

/-- Items that leave a mark are also counted, when nothing stands behind them. -/
theorem flatMap_whole (h : Delimits valid write view) (hmark : ∀ value, write value ≠ [])
    {values values' : List α} (hvalid : ∀ value ∈ values, valid value)
    (hvalid' : ∀ value ∈ values', valid value)
    (heq : values.flatMap write = values'.flatMap write) :
    values.map view = values'.map view := by
  induction values generalizing values' with
  | nil =>
    cases values' with
    | nil => rfl
    | cons value' values' =>
      rw [List.flatMap_nil, List.flatMap_cons, eq_comm, List.append_eq_nil_iff] at heq
      exact absurd heq.1 (hmark value')
  | cons value values ih =>
    cases values' with
    | nil =>
      rw [List.flatMap_nil, List.flatMap_cons, List.append_eq_nil_iff] at heq
      exact absurd heq.1 (hmark value)
    | cons value' values' =>
      obtain ⟨hvalue, hvalues⟩ := List.forall_mem_cons.mp hvalid
      obtain ⟨hvalue', hvalues'⟩ := List.forall_mem_cons.mp hvalid'
      rw [List.flatMap_cons, List.flatMap_cons] at heq
      obtain ⟨hhead, htail⟩ := h hvalue hvalue' heq
      rw [List.map_cons, List.map_cons, hhead, ih hvalues hvalues' htail]

end Delimits

end NemSigner
