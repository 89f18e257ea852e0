/-!
# Reading of decimal digits

## Main definitions

- `Numeral.digit?` — the value of a digit
- `Numeral.ofDigits` — the number that digits spell
- `Numeral.take` — the digits at the front of a text
-/

namespace NemSigner

namespace Numeral

def digit? (character : Char) : Option Nat :=
  if '0' ≤ character && character ≤ '9' then some (character.toNat - '0'.toNat) else none

/-- The number that digits spell, highest first. -/
def ofDigits (digits : List Nat) : Nat :=
  digits.foldl (fun value digit => 10 * value + digit) 0

/-- The digits at the front of a text, and the rest. -/
def take : List Char → List Nat × List Char
  | [] => ([], [])
  | character :: text =>
    match digit? character with
    | some value =>
      let (digits, rest) := take text
      (value :: digits, rest)
    | none => ([], character :: text)

end Numeral

end NemSigner
