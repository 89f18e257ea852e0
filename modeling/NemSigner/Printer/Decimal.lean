import NemSigner.Printer.Basic

/-!
# Decimal numerals

Whole numbers are written with as few digits as they need, and amounts with a point when they have a
fractional part.

## Main definitions

- `Decimal.numeral`, `Decimal.signed` — a natural number, an integer
- `Decimal.amount` — a number of smallest units as a number of whole ones
- `Printer.token` — an amount and its unit
-/

namespace NemSigner

namespace Decimal

/-- The digits of a natural number, zero as one digit and no other number with a leading zero. -/
def numeral (n : Nat) : Bytes :=
  (Nat.toDigits 10 n).map fun digit => digit.toNat.toUInt8

/-- The digits of an integer, after a minus sign when it is negative. -/
def signed : Int → Bytes
  | .ofNat n => numeral n
  | .negSucc n => 0x2d :: numeral (n + 1)

/-- A text without the zeros at its end. -/
def trimZeros (digits : Bytes) : Bytes :=
  (digits.reverse.dropWhile (· == 0x30)).reverse

/-- Exactly `places` digits of a number that needs no more. -/
def padded (places n : Nat) : Bytes :=
  let digits := numeral n
  List.replicate (places - digits.length) 0x30 ++ digits

/-- The fractional digits that stand behind the point, with the point; nothing for a fraction of
zero. -/
def fraction (places n : Nat) : Bytes :=
  if n = 0 then [] else 0x2e :: trimZeros (padded places n)

/-- The number of smallest units in a whole one. -/
def unit (places : Nat) : Nat :=
  Nat.pow 10 places

/-- The number of whole units that a number of smallest ones makes. -/
def amount (places n : Nat) : Bytes :=
  numeral (n / unit places) ++ fraction places (n % unit places)

end Decimal

namespace Printer

def decimal (n : Nat) : Printer :=
  text (Decimal.numeral n)

def signedDecimal (z : Int) : Printer :=
  text (Decimal.signed z)

/-- The most decimal places whose power of ten fits sixty-four bits. -/
def maxDecimalPlaces : Nat := 19

/-- Writes an amount and, behind a space, its unit. -/
def token (places n : Nat) (unit : Option Bytes) : Printer :=
  if maxDecimalPlaces < places then fail .invalidData
  else text (Decimal.amount places n ++
    match unit with
    | some name => 0x20 :: name
    | none => [])

end Printer

end NemSigner
