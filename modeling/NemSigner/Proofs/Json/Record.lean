import Mathlib.Data.List.Nodup
import NemSigner.Json.Record

/-!
# The fields of a record

A record is written as an object with all of its fields, and read by looking up each of them.
Members that a record has no name for are passed over, and a new member with a field changes nothing
else.

## Main definitions

- `Value.Plain` — a value that is sound as soon as there is room for its depth
- `Record.Adds` — one record has a field more than another

## Main statements

- `Value.record?_ofRecord` — the fields of a written record
- `Record.required_bind`, `Record.withDefault_bind` — a field that is given is read, and the reading
  goes on
- `Value.record?_insert`, `Value.record?_bind_insert` — members without a name in the record, and
  members with a field that was not given
- `Value.depth_lt_of_record?` — a field is nested less deeply than its record
-/

namespace NemSigner

namespace Json

namespace Record

variable {α : Type} {record : Record} {name : String}

section Reading

variable {β : Type} {value : Value} {item default : α} {result : Option β}
variable {read : Value → Option α} {next : α → Option β}

/-- A field that is given is read, and the reading goes on with it. -/
theorem required_bind (hfield : record.find? name = some value) (hread : read value = some item)
    (hnext : next item = result) : (record.required name read >>= next) = result := by
  have hitem : record.required name read = some item := by
    rw [required, hfield]
    exact hread
  rw [hitem]
  exact hnext

theorem withDefault_bind (hfield : record.find? name = some value)
    (hread : read value = some item) (hnext : next item = result) :
    (record.withDefault name default read >>= next) = result := by
  have hitem : record.withDefault name default read = some item := by
    rw [withDefault, hfield]
    exact hread
  rw [hitem]
  exact hnext

end Reading

theorem mem_of_find? {value : Value} (h : record.find? name = some value) :
    (name, value) ∈ record := by
  obtain ⟨front, back, rfl, -⟩ := List.lookup_eq_some_iff.mp h
  exact List.mem_append_right front List.mem_cons_self

/-- One record has a field more than another. -/
structure Adds (record record' : Record) (name : String) (value : Value) : Prop where
  absent : record.find? name = none
  present : record'.find? name = some value
  others : ∀ other, other ≠ name → record'.find? other = record.find? other

theorem adds_insert {front back : Record} (h : name ∉ (front ++ back).map Prod.fst)
    (value : Value) :
    Adds (front ++ back) (front ++ (name, value) :: back) name value := by
  have habsent {other : Record} (h : name ∉ other.map Prod.fst) : other.lookup name = none := by
    rw [List.lookup_eq_none_iff]
    intro member hmember
    refine bne_iff_ne.mpr fun heq => h ?_
    rw [heq]
    exact List.mem_map_of_mem hmember
  rw [List.map_append, List.mem_append, not_or] at h
  refine ⟨?_, ?_, fun other hother => ?_⟩
  · rw [find?, List.lookup_append, habsent h.1, habsent h.2, Option.none_or]
  · rw [find?, List.lookup_append, habsent h.1, List.lookup_cons_self, Option.none_or]
  · have hne : (other == name) = false := beq_eq_false_iff_ne.mpr hother
    rw [find?, find?, List.lookup_append, List.lookup_append, List.lookup_cons, hne]

namespace Adds

variable {record record' : Record} {other : String} {value : Value} {default : α}
variable {read : Value → Option α}

theorem required (h : record.Adds record' name value) (hother : other ≠ name) :
    record'.required other read = record.required other read :=
  congrArg (Option.bind · read) (h.others other hother)

theorem withDefault (h : record.Adds record' name value)
    (hread : other = name → read value = some default) :
    record'.withDefault other default read = record.withDefault other default read := by
  by_cases hother : other = name
  · subst hother
    rw [Record.withDefault, Record.withDefault, h.present, h.absent]
    exact hread rfl
  · rw [Record.withDefault, Record.withDefault, h.others other hother]

theorem optional (h : record.Adds record' name value) (hvalue : other = name → value = .null) :
    record'.optional other read = record.optional other read :=
  h.withDefault fun hother => congrArg (Value.nullable? read) (hvalue hother)

end Adds

theorem nodup_insert {front back : Record} (h : name ∉ (front ++ back).map Prod.fst)
    (value : Value) : ((front ++ (name, value) :: back).map Prod.fst).Nodup ↔
      ((front ++ back).map Prod.fst).Nodup := by
  rw [List.map_append, List.map_cons, List.nodup_middle, ← List.map_append, List.nodup_cons]
  exact and_iff_right h

end Record

namespace Value

variable {value : Value} {record : Record} {names : List String}
variable {members front back : List (Option String × Value)}

/-! ### Depth -/

theorem depthOfItems_le_iff {items : List Value} {limit : Nat} :
    depthOfItems items ≤ limit ↔ ∀ item ∈ items, item.depth ≤ limit := by
  induction items with
  | nil => simp [depthOfItems]
  | cons item rest ih => rw [depthOfItems, Nat.max_le, ih, List.forall_mem_cons]

theorem depthOfMembers_le_iff {limit : Nat} :
    depthOfMembers members ≤ limit ↔ ∀ member ∈ members, member.2.depth ≤ limit := by
  induction members with
  | nil => simp [depthOfMembers]
  | cons member rest ih => rw [depthOfMembers, Nat.max_le, ih, List.forall_mem_cons]

theorem areSound_iff {items : List Value} {room : Nat} :
    areSound room items = true ↔ ∀ item ∈ items, item.isSound room = true := by
  induction items with
  | nil => simp [areSound]
  | cons item rest ih => rw [areSound, Bool.and_eq_true, ih, List.forall_mem_cons]

theorem membersAreSound_iff {room : Nat} : membersAreSound room members = true ↔
    ∀ member ∈ members, member.1.isSome = true ∧ member.2.isSound room = true := by
  induction members with
  | nil => simp [membersAreSound]
  | cons member rest ih =>
    rw [membersAreSound, Bool.and_eq_true, Bool.and_eq_true, ih, List.forall_mem_cons]

/-- A value that is sound as soon as there is room for its depth. -/
def Plain (value : Value) : Prop :=
  ∀ room, value.isSound room = true ↔ value.depth ≤ room

@[simp] theorem depth_ofText (text : String) : (ofText text).depth = 0 :=
  rfl

@[simp] theorem depth_ofInt (n : Int) : (ofInt n).depth = 0 :=
  rfl

@[simp] theorem plain_null : Plain .null := by
  intro room
  simp [isSound, depth]

@[simp] theorem plain_ofText (text : String) : Plain (.ofText text) := by
  intro room
  simp [ofText, isSound, depth]

@[simp] theorem plain_ofInt (n : Int) : Plain (.ofInt n) := by
  intro room
  simp [ofInt, isSound, depth, Number.isFinite]

theorem plain_array {items : List Value} (h : ∀ item ∈ items, item.Plain) :
    Plain (.array items) := by
  intro room
  have hitems (room : Nat) : areSound room items = true ↔ depthOfItems items ≤ room := by
    rw [areSound_iff, depthOfItems_le_iff]
    exact forall₂_congr fun item hitem => h item hitem room
  rw [isSound, depth, Bool.and_eq_true, decide_eq_true_eq, hitems]
  omega

/-- The members of a written record. -/
theorem ofRecord_eq (record : Record) :
    ofRecord record = .object (record.map fun member => (some member.1, member.2)) :=
  rfl

theorem plain_ofRecord (h : ∀ member ∈ record, member.2.Plain) : Plain (.ofRecord record) := by
  intro room
  have hmembers (room : Nat) :
      membersAreSound room (record.map fun member => (some member.1, member.2)) = true ↔
        depthOfMembers (record.map fun member => (some member.1, member.2)) ≤ room := by
    rw [membersAreSound_iff, depthOfMembers_le_iff, List.forall_mem_map, List.forall_mem_map]
    refine forall₂_congr fun member hmember => ?_
    rw [Option.isSome_some, eq_self, true_and]
    exact h member hmember room
  rw [ofRecord_eq, isSound, depth, Bool.and_eq_true, decide_eq_true_eq, hmembers]
  omega

theorem plain_ofRecord_cons {name : String} (hvalue : value.Plain) (h : Plain (.ofRecord record)) :
    Plain (.ofRecord ((name, value) :: record)) := by
  intro room
  have hrest := h room
  rw [ofRecord_eq, isSound, depth, Bool.and_eq_true, decide_eq_true_eq] at hrest
  rw [ofRecord_eq, List.map_cons, isSound, depth, membersAreSound, depthOfMembers, Bool.and_eq_true,
    Bool.and_eq_true, Bool.and_eq_true, decide_eq_true_eq, Option.isSome_some, eq_self, true_and,
    hvalue, and_left_comm, hrest]
  dsimp only
  omega

/-! ### Fields of a record -/

theorem namedMembers?_ofRecord (record : Record) :
    namedMembers? (record.map fun member => (some member.1, member.2)) = some record := by
  induction record with
  | nil => rfl
  | cons member record ih =>
    rw [List.map_cons, namedMembers?, ih]
    rfl

theorem record?_of_namedMembers? (h : namedMembers? members = some record) :
    (object members).record? names =
      if ((record.filter fun member => names.contains member.1).map Prod.fst).Nodup then
        some (record.filter fun member => names.contains member.1)
      else none := by
  rw [record?, h]
  rfl

theorem record?_of_namedMembers?_none (h : namedMembers? members = none) :
    (object members).record? names = none := by
  rw [record?, h]
  rfl

/-- A record that has all of its fields, each once, is what its object gives. -/
theorem record?_ofRecord (h : record.map Prod.fst = names) (hnames : names.Nodup) :
    (ofRecord record).record? names = some record := by
  subst h
  have hfilter : record.filter (fun member => (record.map Prod.fst).contains member.1) = record :=
    List.filter_eq_self.mpr fun member hmember =>
      List.contains_iff_mem.mpr (List.mem_map_of_mem hmember)
  rw [ofRecord_eq, record?_of_namedMembers? (namedMembers?_ofRecord record), hfilter,
    if_pos hnames]

theorem namedMembers?_append :
    namedMembers? (front ++ back) =
      (namedMembers? front).bind fun known => (namedMembers? back).map (known ++ ·) := by
  induction front with
  | nil => simp [namedMembers?]
  | cons member front ih =>
    obtain ⟨key, value⟩ := member
    cases key with
    | none => rfl
    | some key =>
      rw [List.cons_append, namedMembers?, namedMembers?, ih]
      cases namedMembers? front with
      | none => rfl
      | some known => cases namedMembers? back <;> rfl

/-- A new member stays between the same others, unless one of these has no name. -/
theorem namedMembers?_insert (front back : List (Option String × Value)) (name : String)
    (value : Value) :
    (namedMembers? (front ++ (some name, value) :: back) = none ∧
        namedMembers? (front ++ back) = none) ∨
      ∃ known others, namedMembers? (front ++ (some name, value) :: back) =
          some (known ++ (name, value) :: others) ∧
        namedMembers? (front ++ back) = some (known ++ others) := by
  rw [namedMembers?_append, namedMembers?_append, namedMembers?]
  cases namedMembers? front with
  | none => exact .inl ⟨rfl, rfl⟩
  | some known =>
    cases namedMembers? back with
    | none => exact .inl ⟨rfl, rfl⟩
    | some others => exact .inr ⟨known, others, rfl, rfl⟩

theorem map_fst_of_namedMembers? (h : namedMembers? members = some record) :
    members.map Prod.fst = record.map fun member => some member.1 := by
  induction members generalizing record with
  | nil =>
    cases h
    rfl
  | cons member members ih =>
    obtain ⟨key, value⟩ := member
    obtain ⟨name, hname, h⟩ := Option.bind_eq_some_iff.mp h
    obtain ⟨others, hothers, h⟩ := Option.bind_eq_some_iff.mp h
    cases h
    rw [List.map_cons, List.map_cons, ih hothers, hname]

/-- A member that a record has no name for is passed over. -/
theorem record?_insert {name : String} (h : name ∉ names) (value : Value) :
    (object (front ++ (some name, value) :: back)).record? names =
      (object (front ++ back)).record? names := by
  obtain ⟨hnew, hold⟩ | ⟨known, others, hnew, hold⟩ := namedMembers?_insert front back name value
  · rw [record?_of_namedMembers?_none hnew, record?_of_namedMembers?_none hold]
  · have hfilter : ((name, value) :: others).filter (fun member => names.contains member.1) =
        others.filter fun member => names.contains member.1 :=
      List.filter_cons_of_neg (by simpa using h)
    rw [record?_of_namedMembers? hnew, record?_of_namedMembers? hold, List.filter_append, hfilter,
      ← List.filter_append]

/-- A reading that takes a field for granted may do so when its member is not there. -/
theorem record?_bind_insert {α : Type} {read : Record → Option α} {name : String}
    (hname : name ∈ names) (habsent : some name ∉ (front ++ back).map Prod.fst)
    (hread : ∀ record record' : Record, record.Adds record' name value →
      read record' = read record) :
    ((object (front ++ (some name, value) :: back)).record? names).bind read =
      ((object (front ++ back)).record? names).bind read := by
  obtain ⟨hnew, hold⟩ | ⟨known, others, hnew, hold⟩ := namedMembers?_insert front back name value
  · rw [record?_of_namedMembers?_none hnew, record?_of_namedMembers?_none hold]
  · have hfilter : ((name, value) :: others).filter (fun member => names.contains member.1) =
        (name, value) :: others.filter fun member => names.contains member.1 :=
      List.filter_cons_of_pos (by simpa using hname)
    have hfresh : name ∉
        ((known ++ others).filter fun member => names.contains member.1).map Prod.fst := by
      intro hmem
      obtain ⟨member, hmember, heq⟩ := List.mem_map.mp hmem
      refine habsent ?_
      rw [map_fst_of_namedMembers? hold]
      exact List.mem_map.mpr ⟨member, List.mem_of_mem_filter hmember, congrArg some heq⟩
    rw [List.filter_append] at hfresh
    rw [record?_of_namedMembers? hnew, record?_of_namedMembers? hold, List.filter_append,
      List.filter_append, hfilter]
    -- The fields alone decide from here on, and the new one is not among the others.
    generalize known.filter (fun member => names.contains member.1) = known at hfresh ⊢
    generalize others.filter (fun member => names.contains member.1) = others at hfresh ⊢
    have hnodup := Record.nodup_insert hfresh value
    by_cases h : ((known ++ others).map Prod.fst).Nodup
    · rw [if_pos (hnodup.mpr h), if_pos h]
      exact hread _ _ (Record.adds_insert hfresh value)
    · rw [if_neg (mt hnodup.mp h), if_neg h]

theorem depth_le_of_namedMembers? (h : namedMembers? members = some record) :
    ∀ member ∈ record, member.2.depth ≤ depthOfMembers members := by
  induction members generalizing record with
  | nil =>
    cases h
    exact List.forall_mem_nil _
  | cons member members ih =>
    obtain ⟨key, value⟩ := member
    rw [namedMembers?] at h
    obtain ⟨name, -, h⟩ := Option.bind_eq_some_iff.mp h
    obtain ⟨others, hothers, h⟩ := Option.bind_eq_some_iff.mp h
    cases h
    rw [depthOfMembers]
    refine List.forall_mem_cons.mpr ⟨Nat.le_max_left _ _, fun member hmember => ?_⟩
    exact Nat.le_trans (ih hothers member hmember) (Nat.le_max_right _ _)

/-- The fields of a record are nested less deeply than the value that they are found in. -/
theorem depth_lt_of_record? (h : value.record? names = some record) :
    ∀ member ∈ record, member.2.depth < value.depth := by
  intro member hmember
  cases value with
  | object members =>
    obtain ⟨known, hknown, h⟩ := Option.bind_eq_some_iff.mp h
    dsimp only at h
    split at h
    · cases h
      have hdepth := depth_le_of_namedMembers? hknown member (List.mem_of_mem_filter hmember)
      rw [depth]
      omega
    · cases h
  | array items =>
    rw [record?] at h
    split at h
    · cases h
      have hitem := (List.of_mem_zip hmember).2
      have hdepth := depthOfItems_le_iff.mp (Nat.le_refl _) member.2 hitem
      rw [depth]
      omega
    · cases h
  | null | boolean | number | string => cases h

end Value

end Json

end NemSigner
