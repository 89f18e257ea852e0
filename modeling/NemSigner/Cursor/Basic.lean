import NemSigner.Bytes.Integer
import NemSigner.DecodeError

/-!
# Cursors

A cursor reads a byte string from front to back and never past its end. A nested structure of
declared length is read by a cursor of its own over exactly the bytes that the outer cursor gave
up.

## Main definitions

- `Cursor` — a byte string and how far it has been read
- `Cursor.Reading` — a computation that moves a cursor, and keeps it where it stands on failure
- `Cursor.readBytes` — the one primitive read; every other read is made of it
- `Cursor.finish` — success when all bytes have been read

## Design notes

Lengths are natural numbers, so the bound `offset + n ≤ length` is exact for every `n`, also where
the sum would not fit a machine word.
-/

namespace NemSigner

/-- A byte string and how many of its bytes have been read. -/
structure Cursor where
  data : Bytes
  offset : Nat
  deriving DecidableEq, Repr

namespace Cursor

/-- A computation that moves a cursor. When it fails the cursor is kept as the failing step left
it. -/
abbrev Reading (α : Type) := EStateM DecodeError Cursor α

def start (data : Bytes) : Cursor :=
  ⟨data, 0⟩

def length (cursor : Cursor) : Nat :=
  cursor.data.length

/-- The number of bytes still to be read. -/
def remaining (cursor : Cursor) : Nat :=
  cursor.length - cursor.offset

/-- The bytes still to be read. -/
def rest (cursor : Cursor) : Bytes :=
  cursor.data.drop cursor.offset

/-- Whether all bytes have been read. -/
def isExhausted (cursor : Cursor) : Bool :=
  cursor.remaining == 0

/-- Whether `count` more bytes can be read. -/
def hasData (cursor : Cursor) (count : Nat) : Bool :=
  cursor.offset + count ≤ cursor.length

/-- Whether all bytes have been read, asked in the course of a reading. -/
def atEnd : Reading Bool := do
  return (← get).isExhausted

/-- Whether `count` more bytes can be read, asked in the course of a reading. -/
def canRead (count : Nat) : Reading Bool := do
  return (← get).hasData count

/-- The number of bytes read so far, asked in the course of a reading. -/
def position : Reading Nat := do
  return (← get).offset

/-- Reads exactly `count` bytes, or fails without moving. -/
def readBytes (count : Nat) : Reading Bytes := fun cursor =>
  if cursor.hasData count then
    .ok (cursor.rest.take count) { cursor with offset := cursor.offset + count }
  else .error .notEnoughData cursor

/-- Reads an integer of `width` bytes, lowest first. -/
def readUInt (width : Nat) : Reading Nat := do
  return Bytes.toNatLE (← readBytes width)

/-- Reads the four bytes of a declared length. -/
def readLength : Reading Nat :=
  readUInt 4

/-- Reads a declared length and as many bytes. When the bytes are missing the length has been read
all the same. -/
def readPrefixed : Reading Bytes := do
  let count ← readLength
  readBytes count

/-- Gives up the next `count` bytes to a cursor of their own. -/
def split (count : Nat) : Reading Cursor := do
  return start (← readBytes count)

/-- Succeeds when all bytes have been read. -/
def finish : Reading Unit := fun cursor =>
  if cursor.isExhausted then .ok () cursor else .error .invalidData cursor

/-- The result of reading a byte string from its start. -/
def readAll {α : Type} (reading : Reading α) (data : Bytes) : Except DecodeError α :=
  match reading (start data) with
  | .ok value _ => .ok value
  | .error error _ => .error error

end Cursor

end NemSigner
