import NemSigner.Numeral

/-!
# JSON numbers

A number without fraction and exponent that fits sixty-four bits is an integer. Every other number
is a real number, known by the first digits of its decimal form and a power of ten. A real number
counts as finite when the binary number of double precision that is computed from both is finite.

## Main definitions

- `Json.Number` — integers and real numbers
- `Json.Number.ofLiteral` — the number that a literal stands for
- `Json.Number.isFinite` — whether it has a value in double precision
-/

namespace NemSigner

namespace Json

/-- The number that a literal stands for. The sign of a real number is left out. -/
inductive Number
  | integer (value : Int)
  | real (significand : Nat) (exponent : Int)
  deriving DecidableEq, Repr

namespace Number

/-- Appends digits to a significand while it fits sixty-four bits; the digits from the first that
does not fit are left over. -/
def gather (significand : Nat) : List Nat → Nat × List Nat
  | [] => (significand, [])
  | digit :: rest =>
    if 10 * significand + digit < UInt64.size then gather (10 * significand + digit) rest
    else (significand, digit :: rest)

/-- The real number with the given digits before and behind the point, times a power of ten. Digits
that the significand has no room for count as zeros before the point and are left out behind it. -/
def ofParts (whole fraction : List Nat) (exponent : Int) : Number :=
  let (leading, unused) := gather 0 whole
  let (significand, dropped) := gather leading fraction
  .real significand (exponent + unused.length - (fraction.length - dropped.length : Nat))

/-- The number of a literal: its sign, its digits, and its fraction and exponent if it has them. A
negative zero is a real number. -/
def ofLiteral (negative : Bool) (whole : List Nat) (fraction : Option (List Nat))
    (exponent : Option Int) : Number :=
  let value := Numeral.ofDigits whole
  match fraction, exponent with
  | none, none =>
    -- The least integer of sixty-four bits is one further from zero than the largest.
    if negative then
      if 0 < value ∧ value ≤ UInt64.size / 2 then .integer (-value) else ofParts whole [] 0
    else if value < UInt64.size then .integer value
    else ofParts whole [] 0
  | _, _ => ofParts whole (fraction.getD []) (exponent.getD 0)

/-- The nearest number with fifty-three significant bits, the even one of two at the same
distance. -/
def roundToDouble (n : Nat) : Nat :=
  if n < 1 <<< 53 then n
  else
    let step := 1 <<< (Nat.log2 n - 52)
    let quotient := n / step
    let remainder := n % step
    if step < 2 * remainder ∨ (2 * remainder = step ∧ quotient % 2 = 1) then (quotient + 1) * step
    else quotient * step

/-- The least number that double precision rounds to infinity. -/
def overflowBound : Nat :=
  ((1 <<< 54) - 1) <<< 970

/-- The largest power of ten that has a value in double precision. -/
def maxPower : Nat := 308

/-- Whether a number has a value in double precision: the significand and the power of ten are
rounded, then multiplied. -/
def isFinite : Number → Bool
  | integer _ => true
  | real significand exponent =>
    significand = 0 || exponent ≤ 0 ||
      (exponent ≤ maxPower &&
        roundToDouble significand * roundToDouble (Nat.pow 10 exponent.toNat) < overflowBound)

end Number

end Json

end NemSigner
