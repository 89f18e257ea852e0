import NemSigner.Json.Value

/-!
# Records in JSON

A record is written either as an object, with its fields by name, or as an array, with its fields in
order. An object may have further members, which are passed over, but none of the fields twice. An
array may end early, and leaves out the fields that follow.

## Main definitions

- `Json.Record`, `Value.record?` — the fields that a value gives to a record
- `Record.required`, `Record.withDefault`, `Record.optional` — the reading of one field
- `Value.uint?`, `Value.text?`, … — values of the types that fields have
- `Value.ofRecord` — the object of a record
-/

namespace NemSigner

namespace Json

/-- The fields that are given to a record, each with its name. -/
abbrev Record := List (String × Value)

namespace Value

/-- The members of an object with their keys, if these are all texts. -/
def namedMembers? : List (Option String × Value) → Option Record
  | [] => some []
  | (key, value) :: rest => do
    let name ← key
    let others ← namedMembers? rest
    return (name, value) :: others

/-- The fields that a value gives to a record with the given names. -/
def record? (names : List String) : Value → Option Record
  | .object members => do
    let known := (← namedMembers? members).filter fun member => names.contains member.1
    if (known.map Prod.fst).Nodup then some known else none
  | .array items => if items.length ≤ names.length then some (names.zip items) else none
  | _ => none

def ofRecord (record : Record) : Value :=
  .object (record.map fun (name, value) => (some name, value))

/-- A natural number below a bound. -/
def natural? (bound : Nat) : Value → Option Nat
  | .number (.integer (.ofNat n)) => if n < bound then some n else none
  | _ => none

def uint8? (value : Value) : Option UInt8 :=
  (value.natural? UInt8.size).map Nat.toUInt8

def uint32? (value : Value) : Option UInt32 :=
  (value.natural? UInt32.size).map Nat.toUInt32

def uint64? (value : Value) : Option UInt64 :=
  (value.natural? UInt64.size).map Nat.toUInt64

/-- What the bits below the sign make, taken without regard to the sign. -/
def magnitude : Int → Nat
  | .ofNat n => n
  | .negSucc n => n

/-- A number of thirty-two bits, the highest of which is the sign. -/
def int32? : Value → Option Int32
  | .number (.integer value) =>
    if magnitude value < UInt32.size / 2 then some (Int32.ofInt value) else none
  | _ => none

def text? : Value → Option String
  | .string text => text
  | _ => none

/-- A list whose items are all read in the same way. -/
def list? {α : Type} (read : Value → Option α) : Value → Option (List α)
  | .array items => items.mapM read
  | _ => none

/-- A value that may be null. -/
def nullable? {α : Type} (read : Value → Option α) : Value → Option (Option α)
  | .null => some none
  | value => (read value).map some

def ofInt (value : Int) : Value :=
  .number (.integer value)

def ofText (text : String) : Value :=
  .string (some text)

def ofList {α : Type} (write : α → Value) (items : List α) : Value :=
  .array (items.map write)

/-- An option as a value; nothing is written as null. -/
def ofOption {α : Type} (write : α → Value) : Option α → Value
  | none => .null
  | some value => write value

end Value

namespace Record

def find? (record : Record) (name : String) : Option Value :=
  record.lookup name

def required {α : Type} (record : Record) (name : String) (read : Value → Option α) : Option α := do
  read (← record.find? name)

/-- A field with a value for the case that it is not given. -/
def withDefault {α : Type} (record : Record) (name : String) (default : α)
    (read : Value → Option α) : Option α :=
  match record.find? name with
  | none => some default
  | some value => read value

/-- A field that may be null, and is when it is not given. -/
def optional {α : Type} (record : Record) (name : String) (read : Value → Option α) :
    Option (Option α) :=
  record.withDefault name none (Value.nullable? read)

end Record

end Json

end NemSigner
