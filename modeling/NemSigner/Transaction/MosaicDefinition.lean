import NemSigner.Transaction.Header
import NemSigner.Transaction.Mosaic

/-!
# Mosaic definitions

A mosaic is defined by its creator, its identifier, a description, any number of named properties
and possibly a levy on every transfer of it. The fee for it goes to a sink address.

## Main definitions

- `MosaicProperty`, `Levy` — parts of a definition
- `MosaicDefinition` — the content of the transaction
-/

namespace NemSigner

/-- A named property of a mosaic. -/
structure MosaicProperty where
  name : Bytes
  value : Bytes
  deriving DecidableEq, Repr

/-- What every transfer of a mosaic costs in addition. -/
structure Levy where
  type : UInt32
  recipient : Bytes
  id : MosaicId
  fee : UInt64
  deriving DecidableEq, Repr

/-- The content of a mosaic definition. -/
structure MosaicDefinition where
  creator : Bytes
  id : MosaicId
  description : Bytes
  properties : List MosaicProperty
  levy : Option Levy
  sink : Bytes
  rentalFee : UInt64
  deriving DecidableEq, Repr

namespace MosaicProperty

def encode (property : MosaicProperty) : Bytes :=
  Bytes.prefixed property.name ++ Bytes.prefixed property.value

def field (property : MosaicProperty) : Field :=
  ⟨.property, .property, property.encode⟩

/-- Decodes a property with its length in front, in a definition of a given length. -/
def decode (limit : Nat) : Decoder Unit := do
  let property ← Cursor.readNested limit
  let _ ← Cursor.readNestedNames property
  Decoder.emit .property .property property

end MosaicProperty

namespace Levy

/-- The type of a levy of a fixed amount. -/
def absolute : UInt32 := 1

/-- The type of a levy that grows with the amount sent. -/
def percentile : UInt32 := 2

def encode (levy : Levy) : Bytes :=
  Bytes.ofNatLE 4 levy.type.toNat ++ Bytes.prefixed levy.recipient ++
  Bytes.prefixed levy.id.encode ++ Bytes.ofNatLE 8 levy.fee.toNat

def fields (levy : Levy) : List Field :=
  [⟨.levyMosaic, .text, levy.id.encode⟩,
   ⟨.levyAddress, .address, levy.recipient⟩,
   ⟨.levyFeeType, .uint32, Bytes.ofNatLE 4 levy.type.toNat⟩,
   ⟨.levyFee, .xem, Bytes.ofNatLE 8 levy.fee.toNat⟩]

/-- The type is one of the two known ones and the recipient is an address. -/
def WellFormed (levy : Levy) : Prop :=
  (levy.type = absolute ∨ levy.type = percentile) ∧
  levy.recipient.length = Limits.addressLength

/-- Decodes the bytes of a levy. -/
def decode (levy : Bytes) : Decoder Unit := do
  let (type, recipient, id, fee) ← Cursor.exactly levy do
    let type ← Cursor.readBytes 4
    let recipient ← Cursor.readSized Limits.addressLength
    let id ← Cursor.readNested levy.length
    let fee ← Cursor.readBytes 8
    return (type, recipient, id, fee)
  -- The bytes are all read before the type is looked at.
  let number := Bytes.toNatLE type
  if number ≠ absolute.toNat ∧ number ≠ percentile.toNat then throw .invalidData
  let _ ← Cursor.readNestedNames id
  Decoder.emit .levyMosaic .text id
  Decoder.emit .levyAddress .address recipient
  Decoder.emit .levyFeeType .uint32 type
  Decoder.emit .levyFee .xem fee

end Levy

namespace MosaicDefinition

/-- The written form of the definition proper, without its length. -/
def encodeProper (definition : MosaicDefinition) : Bytes :=
  Bytes.prefixed definition.creator ++ Bytes.prefixed definition.id.encode ++
  Bytes.prefixed definition.description ++
  Bytes.ofNatLE 4 definition.properties.length ++
  (definition.properties.flatMap fun property => Bytes.prefixed property.encode) ++
  match definition.levy with
    | none => Bytes.ofNatLE 4 0
    | some levy => Bytes.prefixed levy.encode

def encode (definition : MosaicDefinition) : Bytes :=
  Bytes.prefixed definition.encodeProper ++ Bytes.prefixed definition.sink ++
  Bytes.ofNatLE 8 definition.rentalFee.toNat

/-- The review fields of a mosaic definition. The creator is not shown. -/
def fields (fee : Field) (definition : MosaicDefinition) : List Field :=
  [⟨.parentNamespace, .text, definition.id.space⟩,
   ⟨.mosaicName, .text, definition.id.name⟩,
   ⟨.description, .text, definition.description⟩] ++
  definition.properties.map MosaicProperty.field ++
  (match definition.levy with
    | none => []
    | some levy => levy.fields) ++
  [⟨.sinkAddress, .address, definition.sink⟩,
   ⟨.rentalFee, .xem, Bytes.ofNatLE 8 definition.rentalFee.toNat⟩,
   fee]

def WellFormed (definition : MosaicDefinition) : Prop :=
  definition.creator.length = Limits.publicKeyLength ∧
  (∀ levy ∈ definition.levy, levy.WellFormed) ∧
  definition.encodeProper.length < UInt32.size ∧
  definition.sink.length = Limits.addressLength

/-- Decodes the definition proper, whose length limits that of every part. -/
def decodeProper (bound : Nat → Nat) (limit : Nat) : Decoder Unit := do
  let _ ← Cursor.readSized Limits.publicKeyLength
  let id ← Cursor.readNested limit
  let (space, name) ← Cursor.readNestedNames id
  Decoder.emit .parentNamespace .text space
  Decoder.emit .mosaicName .text name
  let description ← Cursor.readNested limit
  Decoder.emit .description .text description
  let count ← Cursor.readUInt 4
  Decoder.times (bound count) (MosaicProperty.decode limit)
  let levy ← Cursor.readNested limit
  if levy ≠ [] then Levy.decode levy
  Cursor.finish

/-- Decodes the content of a mosaic definition. A definition that is declared longer than the data
contradicts it. -/
def decode (bound : Nat → Nat) (header : Header) : Decoder Unit := do
  let length ← Cursor.readLength
  if !(← Cursor.canRead length) then throw .invalidData
  let proper ← Cursor.readBytes length
  Decoder.within proper (decodeProper bound length)
  let sink ← Cursor.readSized Limits.addressLength
  let rentalFee ← Cursor.readBytes 8
  Decoder.emit .sinkAddress .address sink
  Decoder.emit .rentalFee .xem rentalFee
  header.emitFee

end MosaicDefinition

end NemSigner
