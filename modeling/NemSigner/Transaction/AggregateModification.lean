import NemSigner.Transaction.Header

/-!
# Aggregate modifications

An aggregate modification adds cosignatories to a multisig account and removes them. Its second
version can also change how many of them have to sign.

## Main definitions

- `Modification` — one cosignatory added or removed
- `RelativeChange` — the change in the number of signatures
- `AggregateModification` — the content of the transaction
-/

namespace NemSigner

/-- One cosignatory added or removed. -/
structure Modification where
  type : UInt32
  cosignatory : Bytes
  deriving DecidableEq, Repr

/-- The change in the number of cosignatories that have to sign. -/
inductive RelativeChange
  /-- The first version says nothing about it. -/
  | absent
  /-- The second version leaves it out. -/
  | unspecified
  /-- A signed number of thirty-two bits, as the unsigned one with the same bits. -/
  | delta (amount : UInt32)
  deriving DecidableEq, Repr

/-- The content of an aggregate modification. -/
structure AggregateModification where
  modifications : List Modification
  change : RelativeChange
  deriving DecidableEq, Repr

namespace Modification

def encode (modification : Modification) : Bytes :=
  Bytes.ofNatLE 4 modification.type.toNat ++ Bytes.prefixed modification.cosignatory

def fields (modification : Modification) : List Field :=
  [⟨.modificationType, .uint32, Bytes.ofNatLE 4 modification.type.toNat⟩,
   ⟨.cosignatoryKey, .hash256, modification.cosignatory⟩]

/-- The cosignatory is given by a public key. -/
def WellFormed (modification : Modification) : Prop :=
  modification.cosignatory.length = Limits.publicKeyLength

/-- Decodes a modification with its length in front. -/
def decode : Decoder Unit := do
  let modification ← Cursor.readPrefixed
  let (type, cosignatory) ← Cursor.exactly modification do
    let type ← Cursor.readBytes 4
    let cosignatory ← Cursor.readSized Limits.publicKeyLength
    return (type, cosignatory)
  Decoder.emit .modificationType .uint32 type
  Decoder.emit .cosignatoryKey .hash256 cosignatory

end Modification

namespace RelativeChange

def encode : RelativeChange → Bytes
  | absent => []
  | unspecified => Bytes.ofNatLE 4 0
  | delta amount => Bytes.prefixed (Bytes.ofNatLE 4 amount.toNat)

/-- The review fields of a relative change. One that is left out is shown as a change by zero. -/
def fields : RelativeChange → List Field
  | absent => []
  | unspecified => [⟨.relativeChange, .uint32, Bytes.ofNatLE 4 0⟩]
  | delta amount => [⟨.relativeChange, .uint32, Bytes.ofNatLE 4 amount.toNat⟩]

/-- Decodes the relative change of the second version. -/
def decode : Decoder Unit := do
  let lengthBytes ← Cursor.readBytes 4
  let length := Bytes.toNatLE lengthBytes
  -- The four bytes of the length, which are zeros, are shown as the change.
  if length = 0 then Decoder.emit .relativeChange .uint32 lengthBytes
  else
    let change ← Cursor.readBytes length
    let amount ← Cursor.exactly change (Cursor.readBytes 4)
    Decoder.emit .relativeChange .uint32 amount

end RelativeChange

namespace AggregateModification

def encode (aggregate : AggregateModification) : Bytes :=
  Bytes.ofNatLE 4 aggregate.modifications.length ++
  (aggregate.modifications.flatMap fun modification => Bytes.prefixed modification.encode) ++
  aggregate.change.encode

def fields (fee : Field) (aggregate : AggregateModification) : List Field :=
  [⟨.cosignatoryCount, .uint32, Bytes.ofNatLE 4 aggregate.modifications.length⟩] ++
  aggregate.modifications.flatMap Modification.fields ++
  aggregate.change.fields ++ [fee]

/-- The sizes are those of the wire format, and the second version only says something about the
change. -/
def WellFormed (version : UInt8) (aggregate : AggregateModification) : Prop :=
  aggregate.modifications.length < UInt32.size ∧
  (∀ modification ∈ aggregate.modifications, modification.WellFormed) ∧
  (aggregate.change ≠ .absent ↔ version = 2)

def decode (bound : Nat → Nat) (header : Header) : Decoder Unit := do
  let countBytes ← Cursor.readBytes 4
  Decoder.emit .cosignatoryCount .uint32 countBytes
  Decoder.times (bound (Bytes.toNatLE countBytes)) Modification.decode
  if header.version = 2 then RelativeChange.decode
  header.emitFee

end AggregateModification

end NemSigner
