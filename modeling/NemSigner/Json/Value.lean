import NemSigner.Json.Number

/-!
# JSON values

A value keeps the members of an object in order and with repetitions, so that a reader can refuse
what it does not want. A string whose escapes name half of a surrogate pair is no text; such a
string is kept as a hole, because a reader that passes over it does not mind.

## Main definitions

- `Json.Value` — values
- `Json.Value.depth` — how deeply arrays and objects are nested
- `Json.Value.isSound` — values without holes, of limited depth, whose numbers are all finite
-/

namespace NemSigner

namespace Json

/-- A JSON value. A string is `none` when its escapes do not spell a text. -/
inductive Value
  | null
  | boolean (value : Bool)
  | number (value : Number)
  | string (text : Option String)
  | array (items : List Value)
  | object (members : List (Option String × Value))
  deriving Repr

namespace Value

mutual

/-- How deeply arrays and objects are nested. -/
def depth : Value → Nat
  | array items => 1 + depthOfItems items
  | object members => 1 + depthOfMembers members
  | _ => 0

/-- The depth of the deepest of several values. -/
def depthOfItems : List Value → Nat
  | [] => 0
  | item :: rest => max item.depth (depthOfItems rest)

/-- The depth of the deepest of several members. -/
def depthOfMembers : List (Option String × Value) → Nat
  | [] => 0
  | (_, value) :: rest => max value.depth (depthOfMembers rest)

end

mutual

/-- Whether all strings are texts, all numbers are finite, and arrays and objects are nested no
deeper than there is room for. -/
def isSound (room : Nat) : Value → Bool
  | null | boolean _ => true
  | number value => value.isFinite
  | string text => text.isSome
  | array items => 0 < room && areSound (room - 1) items
  | object members => 0 < room && membersAreSound (room - 1) members

/-- Whether several values are sound. -/
def areSound (room : Nat) : List Value → Bool
  | [] => true
  | item :: rest => item.isSound room && areSound room rest

/-- Whether several members are sound, keys included. -/
def membersAreSound (room : Nat) : List (Option String × Value) → Bool
  | [] => true
  | (key, value) :: rest => key.isSome && value.isSound room && membersAreSound room rest

end

end Value

end Json

end NemSigner
