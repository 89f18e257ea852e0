import NemSigner.Cursor.Structure
import NemSigner.Field.Table

/-!
# Decoders

A decoder reads a transaction and collects its review fields while it reads. Fields are collected
as soon as their bytes have been read, so a transaction with too many fields is refused before the
rest of it is looked at.

## Main definitions

- `Decoder` — a computation over a cursor and a field table
- `Decoder.emit` — collects one field
- `Decoder.within` — decodes a nested structure by a cursor of its own
- `Decoder.times` — the same step a number of times
-/

namespace NemSigner

/-- A computation that reads from a cursor and adds to a field table. -/
abbrev Decoder (α : Type) := StateT FieldTable (EStateM DecodeError Cursor) α

namespace Decoder

/-- Collects one field. -/
def emit (id : FieldId) (type : DataType) (data : Bytes) : Decoder Unit := fun table cursor =>
  match table.add id type data with
  | .ok larger => .ok ((), larger) cursor
  | .error error => .error error cursor

/-- Decodes the bytes of a nested structure by a cursor of their own. -/
def within {α : Type} (data : Bytes) (inner : Decoder α) : Decoder α := fun table cursor =>
  match inner table (Cursor.start data) with
  | .ok result _ => .ok result cursor
  | .error error _ => .error error cursor

/-- The same step a number of times. -/
def times : Nat → Decoder Unit → Decoder Unit
  | 0, _ => pure ()
  | count + 1, step => do
    step
    times count step

/-- The fields collected from a byte string, all of which has to be used up. -/
def run (decoder : Decoder Unit) (data : Bytes) : Except DecodeError FieldTable :=
  match (do decoder; Cursor.finish : Decoder Unit) ∅ (Cursor.start data) with
  | .ok (_, table) _ => .ok table
  | .error error _ => .error error

end Decoder

end NemSigner
