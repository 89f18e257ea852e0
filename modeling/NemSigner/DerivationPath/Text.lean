import NemSigner.Network
import NemSigner.Numeral

/-!
# Derivation paths as text

A path is written as `m` and its elements, each behind a slash. A hardened element is written as
the number without its highest bit, and marked with an apostrophe. When a path is read, a number
may have a plus sign and leading zeros.

## Main definitions

- `PathText.print` — the text of path elements
- `PathText.parse?` — the path elements of a text
-/

namespace NemSigner

namespace PathText

/-- What a path starts with. -/
def root : Char := 'm'

/-- What stands in front of every element. -/
def separator : Char := '/'

/-- What marks a hardened element. -/
def hardenedMark : Char := Char.ofNat 0x27

def printElement (element : UInt32) : List Char :=
  if element.toNat < Network.hardened then Nat.toDigits 10 element.toNat
  else Nat.toDigits 10 (element.toNat - Network.hardened) ++ [hardenedMark]

def print (elements : List UInt32) : String :=
  String.ofList (root :: elements.flatMap fun element => separator :: printElement element)

/-- The pieces of a text between separators, of which there is at least one. -/
def pieces : List Char → List (List Char)
  | [] => [[]]
  | character :: text =>
    match pieces text with
    | [] => [[character]]
    | piece :: rest =>
      if character = separator then [] :: piece :: rest else (character :: piece) :: rest

/-- A piece without the mark at its end, and whether there was one. -/
def unmark (piece : List Char) : List Char × Bool :=
  if piece.getLast? = some hardenedMark then (piece.dropLast, true) else (piece, false)

/-- The number of a piece without mark: digits, which may follow a plus sign. -/
def number? (text : List Char) : Option Nat :=
  let digits := match text with
    | '+' :: rest => rest
    | _ => text
  match Numeral.take digits with
  | ([], _) => none
  | (values, []) => some (Numeral.ofDigits values)
  | (_, _ :: _) => none

/-- The path element of a piece, whose number leaves the highest bit free. -/
def element? (piece : List Char) : Option UInt32 := do
  let (digits, isHardened) := unmark piece
  let number ← number? digits
  if number < Network.hardened then
    return (if isHardened then number + Network.hardened else number).toUInt32
  else none

def parse? (text : String) : Option (List UInt32) :=
  match pieces text.toList with
  | first :: rest => if first = [root] then rest.mapM element? else none
  | [] => none

end PathText

end NemSigner
