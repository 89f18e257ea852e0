import NemSigner.Proofs.Json.Record

/-!
# Fields are read as they are written

What is written of a text, a number, an option, a list or a record is read back. A record that takes
some of its fields for granted is read from an object without them as from the same object with
them.

## Main definitions

- `Json.Restores` — what is written is read back, is not null and is plain
- `Json.Tolerates` — members without a name in the record, and usual ones, do not matter

## Main statements

- `Json.restores_record`, `Json.Restores.list`, `Json.Restores.nullable` — records, lists and
  options
- `Json.Restores.required`, `Json.Restores.withDefault`, `Json.Restores.optional` — a record is read
  back field by field
- `Json.tolerates_record` — a reading that does not look at anything else
-/

namespace NemSigner

namespace Json

namespace Value

theorem natural?_ofInt {n bound : Nat} (h : n < bound) : natural? bound (ofInt n) = some n :=
  if_pos h

/-- A number of thirty-two bits with a sign is as far from zero as its other bits say. -/
theorem magnitude_toInt_lt (n : Int32) : magnitude n.toInt < UInt32.size / 2 := by
  have hleast := n.le_toInt
  have hmost := n.toInt_lt
  change magnitude n.toInt < 2147483648
  cases hvalue : n.toInt with
  | ofNat m =>
    rw [hvalue, Int.ofNat_eq_natCast] at hmost
    rw [magnitude]
    omega
  | negSucc m =>
    rw [hvalue] at hleast
    rw [magnitude]
    omega

theorem text?_ofText (text : String) : text? (ofText text) = some text :=
  rfl

theorem uint8?_ofInt (n : UInt8) : uint8? (ofInt n.toNat) = some n := by
  rw [uint8?, natural?_ofInt n.toNat_lt, Option.map_some]
  exact congrArg some UInt8.ofNat_toNat

theorem uint32?_ofInt (n : UInt32) : uint32? (ofInt n.toNat) = some n := by
  rw [uint32?, natural?_ofInt n.toNat_lt, Option.map_some]
  exact congrArg some UInt32.ofNat_toNat

theorem uint64?_ofInt (n : UInt64) : uint64? (ofInt n.toNat) = some n := by
  rw [uint64?, natural?_ofInt n.toNat_lt, Option.map_some]
  exact congrArg some UInt64.ofNat_toNat

theorem nullable?_of_ne_null {α : Type} {read : Value → Option α} {value : Value}
    (h : value ≠ .null) :
    nullable? read value = (read value).map some := by
  cases value with
  | null => exact absurd rfl h
  | _ => rfl

theorem int32?_ofInt (n : Int32) : int32? (ofInt n.toInt) = some n := by
  change (if _ then _ else _) = _
  rw [if_pos (magnitude_toInt_lt n), Int32.ofInt_toInt]

end Value

open Value

/-- What is written is read back, is not null, and is sound as soon as there is room for it. -/
structure Restores {α : Type} (write : α → Value) (read : Value → Option α) : Prop where
  read_write : ∀ item, read (write item) = some item
  ne_null : ∀ item, write item ≠ .null
  plain : ∀ item, (write item).Plain

/-- A reading passes over members that it has no name for, and takes the usual ones for granted
where they are not given. -/
def Tolerates {α : Type} (names : List String) (usual : Record) (read : Value → Option α) : Prop :=
  ∀ (front back : List (Option String × Value)) (name : String) (value : Value),
    name ∉ names ∨ (name, value) ∈ usual ∧ some name ∉ (front ++ back).map Prod.fst →
      read (.object (front ++ (some name, value) :: back)) = read (.object (front ++ back))

/-! ### Records -/

section Records

variable {α : Type} {names : List String} {read : Record → Option α}

/-- A record is read back from the object with all of its fields. -/
theorem restores_record {write : α → Record} (hnames : names.Nodup)
    (hwrite : ∀ item, (write item).map Prod.fst = names)
    (hread : ∀ item, read (write item) = some item)
    (hplain : ∀ item, ∀ member ∈ write item, member.2.Plain) :
    Restores (fun item => ofRecord (write item)) fun value => (value.record? names).bind read where
  read_write item := by
    rw [record?_ofRecord (hwrite item) hnames]
    exact hread item
  ne_null _ := nofun
  plain item := plain_ofRecord (hplain item)

theorem tolerates_record {usual : Record} (hnames : ∀ member ∈ usual, member.1 ∈ names)
    (hread : ∀ member ∈ usual, ∀ record record' : Record, record.Adds record' member.1 member.2 →
      read record' = read record) :
    Tolerates names usual fun value => (value.record? names).bind read := by
  rintro front back name value (hname | ⟨husual, habsent⟩)
  · exact congrArg (Option.bind · read) (record?_insert hname value)
  · exact record?_bind_insert (hnames _ husual) habsent (hread _ husual)

theorem Tolerates.bind {β : Type} {usual : Record} {read : Value → Option α}
    (h : Tolerates names usual read) (f : α → Option β) :
    Tolerates names usual fun value => (read value).bind f :=
  fun front back name value hmember => congrArg (Option.bind · f) (h front back name value hmember)

end Records

/-! ### Texts, numbers, lists and options -/

theorem restores_text : Restores ofText text? where
  read_write := text?_ofText
  ne_null _ := nofun
  plain := plain_ofText

theorem restores_uint8 : Restores (fun n : UInt8 => ofInt n.toNat) uint8? where
  read_write := uint8?_ofInt
  ne_null _ := nofun
  plain n := plain_ofInt n.toNat

theorem restores_uint32 : Restores (fun n : UInt32 => ofInt n.toNat) uint32? where
  read_write := uint32?_ofInt
  ne_null _ := nofun
  plain n := plain_ofInt n.toNat

theorem restores_uint64 : Restores (fun n : UInt64 => ofInt n.toNat) uint64? where
  read_write := uint64?_ofInt
  ne_null _ := nofun
  plain n := plain_ofInt n.toNat

theorem restores_int32 : Restores (fun n : Int32 => ofInt n.toInt) int32? where
  read_write := int32?_ofInt
  ne_null _ := nofun
  plain n := plain_ofInt n.toInt

namespace Restores

variable {α : Type} {write : α → Value} {read : Value → Option α}

theorem list (h : Restores write read) : Restores (ofList write) (list? read) where
  read_write items := by
    induction items with
    | nil => rfl
    | cons item items ih =>
      have hitems : (items.map write).mapM read = some items := ih
      rw [ofList, list?, List.map_cons, List.mapM_cons, h.read_write, hitems]
      rfl
  ne_null _ := nofun
  plain items := plain_array (List.forall_mem_map.mpr fun item _ => h.plain item)

/-- An option is read back, because only nothing is written as null. -/
theorem nullable (h : Restores write read) (item : Option α) :
    nullable? read (ofOption write item) = some item := by
  cases item with
  | none => rfl
  | some item =>
    rw [ofOption, nullable?_of_ne_null (h.ne_null item), h.read_write]
    rfl

theorem plain_option (h : Restores write read) (item : Option α) : (ofOption write item).Plain := by
  cases item with
  | none => exact plain_null
  | some item => exact h.plain item

/-! ### One field after the other -/

section Reading

variable {β : Type} {record : Record} {name : String} {item default : α} {result : Option β}

/-- A field is read back in the course of reading a record, and the reading goes on with it. -/
theorem required {next : α → Option β} (h : Restores write read)
    (hfield : record.find? name = some (write item)) (hnext : next item = result) :
    (record.required name read >>= next) = result :=
  Record.required_bind hfield (h.read_write item) hnext

theorem withDefault {next : α → Option β} (h : Restores write read)
    (hfield : record.find? name = some (write item)) (hnext : next item = result) :
    (record.withDefault name default read >>= next) = result :=
  Record.withDefault_bind hfield (h.read_write item) hnext

theorem optional {item : Option α} {next : Option α → Option β} (h : Restores write read)
    (hfield : record.find? name = some (ofOption write item)) (hnext : next item = result) :
    (record.optional name read >>= next) = result :=
  Record.withDefault_bind hfield (h.nullable item) hnext

end Reading

end Restores

end Json

end NemSigner
