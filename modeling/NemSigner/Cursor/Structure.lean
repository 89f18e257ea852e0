import NemSigner.Cursor.Basic

/-!
# Nested structures

Structures of a transaction are nested: each has its length in front and fills it exactly.

## Main definitions

- `Cursor.exactly` — a reading that has to use up all bytes of a nested structure
- `Cursor.readNested` — a part whose declared length is below that of the whole
- `Cursor.readSized` — a part whose declared length has to be a given one
- `Cursor.readNames`, `Cursor.readNestedNames` — two texts with their lengths in front
-/

namespace NemSigner

namespace Cursor

/-- Reads a nested structure by a cursor of its own, which has to use up all its bytes. -/
def exactly {α : Type} (data : Bytes) (reading : Reading α) : Reading α := fun cursor =>
  match (do let value ← reading; finish; return value : Reading α) (start data) with
  | .ok value _ => .ok value cursor
  | .error error _ => .error error cursor

/-- Reads a declared length and as many bytes; the length has to be below a limit. -/
def readNested (limit : Nat) : Reading Bytes := do
  let count ← readLength
  if limit ≤ count then throw .invalidData
  readBytes count

/-- Reads a declared length, which has to be the given one, and as many bytes. -/
def readSized (count : Nat) : Reading Bytes := do
  if (← readLength) ≠ count then throw .invalidData
  readBytes count

/-- Reads two texts, each with its length in front. -/
def readNames : Reading (Bytes × Bytes) := do
  let first ← readPrefixed
  let second ← readPrefixed
  return (first, second)

/-- Reads a structure that consists of two texts, each declared shorter than the structure. -/
def readNestedNames (data : Bytes) : Reading (Bytes × Bytes) :=
  exactly data do
    let first ← readNested data.length
    let second ← readNested data.length
    return (first, second)

end Cursor

end NemSigner
