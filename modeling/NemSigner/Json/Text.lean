/-!
# JSON strings

Between its quotes a string spells characters, most of them by themselves and some by an escape. An
escape with four hexadecimal digits names a unit of UTF-16; a character beyond the first 65536 takes
two such escapes, and half of such a pair spells nothing.

## Main definitions

- `Json.Piece` — what one character or one escape stands for
- `Json.parsePieces` — the pieces of a string
- `Json.spell` — the characters that pieces stand for together
- `Json.parseString` — a string as a text
-/

namespace NemSigner

namespace Json

/-- What one character or one escape of a string stands for. -/
inductive Piece
  | character (value : Char)
  | unit (value : Nat)
  deriving DecidableEq, Repr

def hexDigit? (character : Char) : Option Nat :=
  if '0' ≤ character && character ≤ '9' then some (character.toNat - '0'.toNat)
  else if 'a' ≤ character && character ≤ 'f' then some (character.toNat - 'a'.toNat + 10)
  else if 'A' ≤ character && character ≤ 'F' then some (character.toNat - 'A'.toNat + 10)
  else none

def hexUnit? (a b c d : Char) : Option Nat := do
  return ((16 * (← hexDigit? a) + (← hexDigit? b)) * 16 + (← hexDigit? c)) * 16 + (← hexDigit? d)

/-- The character that a backslash and another character stand for. -/
def escape? : Char → Option Char
  | '"' => some '"'
  | '\\' => some '\\'
  | '/' => some '/'
  | 'b' => some (Char.ofNat 0x08)
  | 'f' => some (Char.ofNat 0x0c)
  | 'n' => some '\n'
  | 'r' => some '\r'
  | 't' => some '\t'
  | _ => none

/-- The pieces of a string up to its closing quote, and the text behind it. Control characters stand
in a string only as escapes. -/
def parsePieces : List Char → Option (List Piece × List Char)
  | [] => none
  | '"' :: text => some ([], text)
  | '\\' :: 'u' :: a :: b :: c :: d :: text => do
    let value ← hexUnit? a b c d
    let (pieces, rest) ← parsePieces text
    return (.unit value :: pieces, rest)
  | '\\' :: character :: text => do
    let meant ← escape? character
    let (pieces, rest) ← parsePieces text
    return (.character meant :: pieces, rest)
  | character :: text =>
    if character = '\\' || character.toNat < 0x20 then none
    else do
      let (pieces, rest) ← parsePieces text
      return (.character character :: pieces, rest)

def isHighHalf (unit : Nat) : Bool :=
  0xd800 ≤ unit && unit < 0xdc00

def isLowHalf (unit : Nat) : Bool :=
  0xdc00 ≤ unit && unit < 0xe000

/-- The character that a pair of units stands for. -/
def ofPair (high low : Nat) : Char :=
  Char.ofNat (0x10000 + (high - 0xd800) * 0x400 + (low - 0xdc00))

/-- The characters that pieces stand for together; half of a pair stands for none. -/
def spell : List Piece → Option (List Char)
  | [] => some []
  | .character value :: pieces => (spell pieces).map (value :: ·)
  | .unit high :: .unit low :: pieces =>
    if isHighHalf high then
      if isLowHalf low then (spell pieces).map (ofPair high low :: ·) else none
    else if isLowHalf high then none
    else (spell (.unit low :: pieces)).map (Char.ofNat high :: ·)
  | .unit value :: pieces =>
    if isHighHalf value || isLowHalf value then none
    else (spell pieces).map (Char.ofNat value :: ·)

/-- A string behind its opening quote, which may spell no text, and what follows its closing
quote. -/
def parseString (text : List Char) : Option (Option String × List Char) := do
  let (pieces, rest) ← parsePieces text
  return ((spell pieces).map String.ofList, rest)

end Json

end NemSigner
