import NemSigner.Field.Basic
import NemSigner.Limits

/-!
# Field tables

The fields of a transaction in the order in which they are shown. The device has room for a fixed
number of them.

## Main definitions

- `FieldTable` — at most `Limits.maxFieldCount` fields
- `FieldTable.add` — one more field at the end
- `FieldTable.get` — the field at a position
-/

namespace NemSigner

/-- The fields of a transaction, in order, no more than the device has room for. -/
structure FieldTable where
  toList : List Field
  length_le : toList.length ≤ Limits.maxFieldCount
  deriving DecidableEq, Repr

namespace FieldTable

def empty : FieldTable :=
  ⟨[], by decide⟩

instance : EmptyCollection FieldTable where
  emptyCollection := empty

def length (table : FieldTable) : Nat :=
  table.toList.length

theorem length_append_le {fields : List Field} (field : Field)
    (room : fields.length < Limits.maxFieldCount) :
    (fields ++ [field]).length ≤ Limits.maxFieldCount := by
  rw [List.length_append, List.length_singleton]
  exact room

/-- Puts a field at the end of a table that has room for it. -/
def push (table : FieldTable) (field : Field) : Except DecodeError FieldTable :=
  if room : table.toList.length < Limits.maxFieldCount then
    .ok ⟨table.toList ++ [field], length_append_le field room⟩
  else .error .tooManyFields

/-- Puts a field at the end: its bytes have to fit its type, then the table has to have room. -/
def add (table : FieldTable) (id : FieldId) (type : DataType) (data : Bytes) :
    Except DecodeError FieldTable := do
  table.push (← Field.make? id type data)

def get (table : FieldTable) (index : Nat) : Except DecodeError Field :=
  match table.toList[index]? with
  | some field => .ok field
  | none => .error .invalidData

@[simp] theorem toList_empty : (∅ : FieldTable).toList = [] := rfl

/-- Two tables with the same fields are the same table. -/
@[ext] theorem ext {left right : FieldTable} (same : left.toList = right.toList) :
    left = right := by
  cases left
  cases right
  simp_all

end FieldTable

end NemSigner
