import NemSigner.Json.Text
import NemSigner.Json.Value

/-!
# Reading of JSON texts

A text is read into a value, character by character. The reading is strict about the grammar: no
comments, no commas without a value, no characters behind the value.

## Main definitions

- `Json.parse` — the value of a text
-/

namespace NemSigner

namespace Json

/-- The characters that may stand between the parts of a value. -/
def isSpace (character : Char) : Bool :=
  character = ' ' || character = '\t' || character = '\n' || character = '\r'

/-- The text behind any spaces. -/
def skipSpaces (text : List Char) : List Char :=
  text.dropWhile isSpace

/-- The text behind a word. -/
def skipWord : List Char → List Char → Option (List Char)
  | [], text => some text
  | expected :: word, character :: text =>
    if character = expected then skipWord word text else none
  | _ :: _, [] => none

/-- The digits before the point: one zero, or digits that do not start with one. -/
def parseWhole (text : List Char) : Option (List Nat × List Char) :=
  match Numeral.take text with
  | ([], _) => none
  -- A zero in front of other digits is no number.
  | (0 :: _ :: _, _) => none
  | found => some found

/-- The digits behind a point, of which there is at least one, if there is a point. -/
def parseFraction (text : List Char) : Option (Option (List Nat) × List Char) :=
  match text with
  | '.' :: text =>
    match Numeral.take text with
    | ([], _) => none
    | (digits, rest) => some (some digits, rest)
  | _ => some (none, text)

/-- The power of ten, if there is one. -/
def parseExponent (text : List Char) : Option (Option Int × List Char) :=
  let unsigned (negative : Bool) (text : List Char) : Option (Option Int × List Char) :=
    match Numeral.take text with
    | ([], _) => none
    | (digits, rest) =>
      let value : Int := Numeral.ofDigits digits
      some (some (if negative then -value else value), rest)
  match text with
  | 'e' :: '+' :: text | 'E' :: '+' :: text => unsigned false text
  | 'e' :: '-' :: text | 'E' :: '-' :: text => unsigned true text
  | 'e' :: text | 'E' :: text => unsigned false text
  | _ => some (none, text)

/-- A number without its sign. -/
def parseUnsigned (negative : Bool) (text : List Char) : Option (Value × List Char) := do
  let (whole, text) ← parseWhole text
  let (fraction, text) ← parseFraction text
  let (exponent, text) ← parseExponent text
  return (.number (Number.ofLiteral negative whole fraction exponent), text)

def parseNumber (text : List Char) : Option (Value × List Char) :=
  match text with
  | '-' :: text => parseUnsigned true text
  | _ => parseUnsigned false text

mutual

/-- The value at the front of a text, and the rest. -/
def parseValue : Nat → List Char → Option (Value × List Char)
  | 0, _ => none
  | fuel + 1, text =>
    match skipSpaces text with
    | 'n' :: text => (skipWord ['u', 'l', 'l'] text).map fun rest => (.null, rest)
    | 't' :: text => (skipWord ['r', 'u', 'e'] text).map fun rest => (.boolean true, rest)
    | 'f' :: text => (skipWord ['a', 'l', 's', 'e'] text).map fun rest => (.boolean false, rest)
    | '"' :: text => (parseString text).map fun (found, rest) => (.string found, rest)
    | '[' :: text =>
      match skipSpaces text with
      | ']' :: rest => some (.array [], rest)
      | text => (parseItems fuel text).map fun (items, rest) => (.array items, rest)
    | '{' :: text =>
      match skipSpaces text with
      | '}' :: rest => some (.object [], rest)
      | text => (parseMembers fuel text).map fun (members, rest) => (.object members, rest)
    | text => parseNumber text

/-- The items of an array up to its closing bracket; there is at least one. -/
def parseItems : Nat → List Char → Option (List Value × List Char)
  | 0, _ => none
  | fuel + 1, text =>
    match parseValue fuel text with
    | none => none
    | some (item, text) =>
      match skipSpaces text with
      | ',' :: text => (parseItems fuel text).map fun (items, rest) => (item :: items, rest)
      | ']' :: rest => some ([item], rest)
      | _ => none

/-- The members of an object up to its closing brace; there is at least one. -/
def parseMembers : Nat → List Char → Option (List (Option String × Value) × List Char)
  | 0, _ => none
  | fuel + 1, text =>
    match skipSpaces text with
    | '"' :: text =>
      match parseString text with
      | none => none
      | some (key, text) =>
        match skipSpaces text with
        | ':' :: text =>
          match parseValue fuel text with
          | none => none
          | some (value, text) =>
            match skipSpaces text with
            | ',' :: text =>
              (parseMembers fuel text).map fun (members, rest) => ((key, value) :: members, rest)
            | '}' :: rest => some ([(key, value)], rest)
            | _ => none
        | _ => none
    | _ => none

end

/-- The value of a text, behind which only spaces may stand. Every character is the reason for at
most two steps. -/
def parse (text : String) : Option Value :=
  let characters := text.toList
  match parseValue (2 * characters.length + 2) characters with
  | some (value, rest) => if (skipSpaces rest).isEmpty then some value else none
  | none => none

end Json

end NemSigner
