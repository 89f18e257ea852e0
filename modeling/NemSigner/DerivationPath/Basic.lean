import NemSigner.Apdu.Basic
import NemSigner.Bytes.Integer
import NemSigner.Limits
import NemSigner.Network

/-!
# Derivation paths

A key is named by a path of numbers of thirty-two bits. The third of them names the network.

## Main definitions

- `DerivationPath` — a path of limited depth
- `DerivationPath.ofElements` — a path that names a key, which has at least one element
- `DerivationPath.toBytes`, `DerivationPath.decode` — its written form and the reading of it
- `DerivationPath.network?` — the network that a path selects
-/

namespace NemSigner

/-- A path of numbers, no deeper than the device can follow. -/
structure DerivationPath where
  elements : List UInt32
  depth_le : elements.length ≤ Limits.maxPathDepth
  deriving DecidableEq, Repr

namespace DerivationPath

/-- The path without elements, which names no key. -/
def cleared : DerivationPath :=
  ⟨[], by decide⟩

def depth (path : DerivationPath) : Nat :=
  path.elements.length

/-- The path with the given elements, which are at least one and no more than the device can
follow. -/
def ofElements (elements : List UInt32) : Except ApduError DerivationPath :=
  if elements = [] then .error .invalidEncoding
  else if fits : elements.length ≤ Limits.maxPathDepth then .ok ⟨elements, fits⟩
  else .error .invalidEncoding

/-- The network that a path selects by its third element. -/
def network? (path : DerivationPath) : Option Network := do
  Network.ofPathElement? (← path.elements[2]?)

/-- The written form of a path: its depth in one byte, then its elements, highest byte first. -/
def toBytes (path : DerivationPath) : Bytes :=
  path.depth.toUInt8 :: path.elements.flatMap fun element => Bytes.ofNatBE 4 element.toNat

def encodedLength (path : DerivationPath) : Nat :=
  1 + 4 * path.depth

def encode (capacity : Nat) (path : DerivationPath) : Except ApduError Bytes :=
  Apdu.place capacity path.toBytes

/-- The first `count` numbers of four bytes, highest byte first. -/
def elementsOf : Nat → Bytes → List UInt32
  | 0, _ => []
  | count + 1, data => (Bytes.toNatBE (data.take 4)).toUInt32 :: elementsOf count (data.drop 4)

@[simp] theorem length_elementsOf (count : Nat) (data : Bytes) :
    (elementsOf count data).length = count := by
  induction count generalizing data with
  | zero => rfl
  | succ count ih => simp [elementsOf, ih]

/-- Reads a path from the front of a byte string, and says how many bytes it takes up. A depth that
no path has is found before missing bytes. -/
def decode (data : Bytes) : Except ApduError (DerivationPath × Nat) :=
  match data with
  | [] => .error .invalidLength
  | first :: rest =>
    let depth := first.toNat
    if depth = 0 then .error .invalidEncoding
    else if fits : depth ≤ Limits.maxPathDepth then
      if rest.length < 4 * depth then .error .invalidLength
      else .ok (⟨elementsOf depth rest, by simpa using fits⟩, 1 + 4 * depth)
    else .error .invalidEncoding

end DerivationPath

end NemSigner
