/-!
# Coded types

Many of the small types of the wire format are finite lists of values, each with a name and a
number.

## Main definitions

- `Coded` — a finite type with names and numbers
- `Coded.ofCode?`, `Coded.ofName?` — the value behind a number or a name
-/

namespace NemSigner

/-- A finite type whose values have a name and a number each. -/
class Coded (α : Type) where
  /-- All values, in order of declaration. -/
  all : List α
  /-- The name of a value. -/
  name : α → String
  /-- The number of a value. -/
  code : α → Nat

namespace Coded

variable {α : Type} [Coded α]

/-- The value with a number. -/
def ofCode? (number : Nat) : Option α :=
  (all : List α).find? fun value => code value == number

/-- The value with a name, which must match exactly. -/
def ofName? (text : String) : Option α :=
  (all : List α).find? fun value => name value == text

end Coded

end NemSigner
