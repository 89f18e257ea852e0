import NemSigner.Bytes.Integer

/-!
# Mosaics

A mosaic is known by the namespace that it belongs to and its name in it. The native currency is the
mosaic `xem` in the namespace `nem`.
-/

namespace NemSigner

/-- What a mosaic is known by. -/
structure MosaicId where
  space : Bytes
  name : Bytes
  deriving DecidableEq, Repr

namespace MosaicId

/-- The native currency. -/
def xem : MosaicId :=
  ⟨Bytes.ofText "nem", Bytes.ofText "xem"⟩

def encode (id : MosaicId) : Bytes :=
  Bytes.prefixed id.space ++ Bytes.prefixed id.name

/-- The written form has a length that four bytes can declare. -/
def WellFormed (id : MosaicId) : Prop :=
  id.encode.length < UInt32.size

end MosaicId

end NemSigner
