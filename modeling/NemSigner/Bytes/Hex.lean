import NemSigner.Bytes.Basic

/-!
# Hexadecimal text

Each byte is written as two digits, the high half first. Reading takes digits of either case.

## Main definitions

- `Hex.encode` — the digits of a byte string
- `Hex.decode` — the bytes that digits spell
- `Hex.Error` — why a text spells no bytes
-/

namespace NemSigner

namespace Hex

/-- Whether the digits above nine are written `a` to `f` or `A` to `F`. -/
inductive LetterCase
  | lower
  | upper
  deriving DecidableEq, Repr

/-- The character of a digit below sixteen. -/
def digit (letters : LetterCase) (value : Nat) : UInt8 :=
  if value < 10 then (0x30 + value).toUInt8
  else match letters with
    | .lower => (0x61 + (value - 10)).toUInt8
    | .upper => (0x41 + (value - 10)).toUInt8

/-- The two digits of a byte, high half first. -/
def encodeByte (letters : LetterCase) (byte : UInt8) : Bytes :=
  [digit letters (byte.toNat / 16), digit letters (byte.toNat % 16)]

def encode (letters : LetterCase) (data : Bytes) : Bytes :=
  data.flatMap (encodeByte letters)

/-- The lower case digits of a byte string, as a text. -/
def toText (data : Bytes) : String :=
  String.ofList ((encode .lower data).map fun byte => Char.ofNat byte.toNat)

def value? (character : UInt8) : Option Nat :=
  if 0x30 ≤ character && character ≤ 0x39 then some (character.toNat - 0x30)
  else if 0x41 ≤ character && character ≤ 0x46 then some (character.toNat - 0x41 + 10)
  else if 0x61 ≤ character && character ≤ 0x66 then some (character.toNat - 0x61 + 10)
  else none

/-- Why a text spells no bytes. -/
inductive Error
  | oddLength
  | invalidCharacter (character : UInt8) (position : Nat)
  deriving DecidableEq, Repr

/-- The value of the digit found at a position. -/
def valueAt (character : UInt8) (position : Nat) : Except Error Nat :=
  match value? character with
  | some value => .ok value
  | none => .error (.invalidCharacter character position)

/-- Reads pairs of digits; `position` counts the characters before them. -/
def decodePairs (position : Nat) : Bytes → Except Error Bytes
  | high :: low :: rest => do
    let upper ← valueAt high position
    let lower ← valueAt low (position + 1)
    let bytes ← decodePairs (position + 2) rest
    return (16 * upper + lower).toUInt8 :: bytes
  | _ => .ok []

/-- The bytes that a text of digits spells. An odd number of characters is found before any
character that is no digit, and of those the first is named. -/
def decode (text : Bytes) : Except Error Bytes :=
  if text.length % 2 = 0 then decodePairs 0 text else .error .oddLength

/-- A control character, a space without width or a character with a short escape is shown by its
escape, every other character of the first 256 by itself. -/
def shownCharacter (character : UInt8) : String :=
  match character.toNat with
  | 0x00 => "\\0"
  | 0x09 => "\\t"
  | 0x0a => "\\n"
  | 0x0d => "\\r"
  | 0x27 => "\\" ++ String.singleton (Char.ofNat 0x27)
  | 0x5c => "\\\\"
  | code =>
    if code < 0x20 || (0x7f ≤ code && code ≤ 0xa0) || code = 0xad then
      "\\u\x7b" ++ String.ofList (Nat.toDigits 16 code) ++ "\x7d"
    else String.singleton (Char.ofNat code)

def Error.message : Error → String
  | .oddLength => "Odd number of digits"
  | .invalidCharacter character position =>
    let quote := String.singleton (Char.ofNat 0x27)
    "Invalid character " ++ quote ++ shownCharacter character ++ quote ++
      " at position " ++ toString position

end Hex

end NemSigner
