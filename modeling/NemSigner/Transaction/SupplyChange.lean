import NemSigner.Transaction.Header
import NemSigner.Transaction.Mosaic

/-!
# Supply changes

Units of a mosaic are created or deleted by its owner.
-/

namespace NemSigner

/-- The content of a supply change. -/
structure SupplyChange where
  id : MosaicId
  type : UInt32
  delta : UInt64
  deriving DecidableEq, Repr

namespace SupplyChange

def create : UInt32 := 1

def delete : UInt32 := 2

def encode (change : SupplyChange) : Bytes :=
  Bytes.prefixed change.id.encode ++ Bytes.ofNatLE 4 change.type.toNat ++
  Bytes.ofNatLE 8 change.delta.toNat

def fields (fee : Field) (change : SupplyChange) : List Field :=
  [⟨.namespaceName, .text, change.id.space⟩,
   ⟨.mosaicName, .text, change.id.name⟩,
   ⟨if change.type = create then .supplyCreated else .supplyDeleted, .mosaicQuantity,
    Bytes.ofNatLE 8 change.delta.toNat⟩,
   fee]

/-- The type is one of the two known ones, and the identifier has a length that four bytes can
declare. -/
def WellFormed (change : SupplyChange) : Prop :=
  (change.type = create ∨ change.type = delete) ∧ change.id.WellFormed

def decode (header : Header) : Decoder Unit := do
  let id ← Cursor.readPrefixed
  let (space, name) ← Cursor.readNestedNames id
  let type ← Cursor.readUInt 4
  let delta ← Cursor.readBytes 8
  Decoder.emit .namespaceName .text space
  Decoder.emit .mosaicName .text name
  if type = create.toNat then Decoder.emit .supplyCreated .mosaicQuantity delta
  else if type = delete.toNat then Decoder.emit .supplyDeleted .mosaicQuantity delta
  else throw .invalidData
  header.emitFee

end SupplyChange

end NemSigner
