import NemSigner.Bytes.Hex
import NemSigner.Descriptor.Basic
import NemSigner.Transaction.Basic

/-!
# Descriptors in the wire format

Putting a descriptor into the wire format resolves its texts into bytes. This fails only where a
text has to spell bytes of a certain number and does not. The parts are resolved in the order in
which they are written, and the first failure is the one reported.

## Main definitions

- `DescriptorError` — why a descriptor cannot be encoded
- `HeaderDescriptor.resolve`, `ActionDescriptor.resolve` — the header and the content described
- `Descriptor.encode` — the written form of the transaction described
-/

namespace NemSigner

/-- The parts of a descriptor that have a length of their own. -/
inductive SizedPart
  | signer
  | remote
  | cosignatory
  | hash
  | creator
  | address
  deriving DecidableEq, Repr

def SizedPart.word : SizedPart → String
  | .signer => "signer"
  | .remote => "remote"
  | .cosignatory => "cosignatory"
  | .hash => "hash"
  | .creator => "creator"
  | .address => "address"

/-- Why a descriptor cannot be encoded. -/
inductive DescriptorError
  /-- A text that has to be hexadecimal is not. -/
  | hex (error : Hex.Error)
  /-- A part has a number of bytes that it cannot have. -/
  | length (part : SizedPart) (count : Nat)
  deriving DecidableEq, Repr

def DescriptorError.message : DescriptorError → String
  | .hex error => "hex decode error: " ++ error.message
  | .length part count => "invalid " ++ part.word ++ " length (" ++ toString count ++ " bytes)"

namespace Descriptor

/-- The result of putting a part of a descriptor into the wire format. -/
abbrev Resolution := Except DescriptorError

/-- The bytes that a hexadecimal text spells. -/
def hexBytes (text : String) : Resolution Bytes :=
  match Hex.decode (Bytes.ofText text) with
  | .ok bytes => .ok bytes
  | .error error => .error (.hex error)

/-- The bytes of a part with a fixed length. -/
def sized (part : SizedPart) (length : Nat) (bytes : Bytes) : Resolution Bytes :=
  if bytes.length = length then .ok bytes else .error (.length part bytes.length)

/-- The bytes of a public key or a hash. -/
def fixedBytes (part : SizedPart) (length : Nat) (text : String) : Resolution Bytes := do
  sized part length (← hexBytes text)

/-- The bytes of a public key. -/
def keyBytes (part : SizedPart) (text : String) : Resolution Bytes :=
  fixedBytes part Limits.publicKeyLength text

/-- The bytes of an address. Only their number is looked at. -/
def addressBytes (text : String) : Resolution Bytes :=
  sized .address Limits.addressLength (Bytes.ofText text)

/-- What a mosaic is known by. -/
def mosaicId (space name : String) : MosaicId :=
  ⟨Bytes.ofText space, Bytes.ofText name⟩

end Descriptor

open Descriptor (Resolution hexBytes fixedBytes keyBytes addressBytes mosaicId)

def HeaderDescriptor.resolve (header : HeaderDescriptor) (kind : TransactionKind) :
    Resolution Header := do
  let signer ← keyBytes .signer header.signer
  return {
    typeNumber := (Coded.code kind).toUInt32
    version := header.version
    reserved := 0
    network := header.network
    timestamp := header.timestamp
    signer
    fee := header.fee
    deadline := header.deadline }

def MessageDescriptor.payload (message : MessageDescriptor) : Resolution Bytes :=
  match message.text, message.hex with
  | some text, _ => .ok (Bytes.ofText text)
  | none, some hex => hexBytes hex
  | none, none => .ok []

def MessageDescriptor.resolve (message : MessageDescriptor) : Resolution Message := do
  return ⟨message.payloadType, ← message.payload⟩

def MosaicDescriptor.resolve (mosaic : MosaicDescriptor) : AttachedMosaic :=
  ⟨mosaicId mosaic.space mosaic.name, mosaic.quantity⟩

def TransferDescriptor.resolve (version : UInt8) (transfer : TransferDescriptor) :
    Resolution Transfer := do
  let recipient ← addressBytes transfer.recipient
  let message ← transfer.message.mapM MessageDescriptor.resolve
  return {
    recipient
    amount := transfer.amount
    message
    mosaics :=
      if version = 2 then some (transfer.mosaics.map MosaicDescriptor.resolve) else none }

def ImportanceDescriptor.resolve (transfer : ImportanceDescriptor) :
    Resolution ImportanceTransfer := do
  return ⟨transfer.mode, ← keyBytes .remote transfer.remote⟩

def ModificationDescriptor.resolve (modification : ModificationDescriptor) :
    Resolution Modification := do
  return ⟨modification.type, ← keyBytes .cosignatory modification.cosignatory⟩

def AggregateDescriptor.relativeChange (version : UInt8) (aggregate : AggregateDescriptor) :
    RelativeChange :=
  if version = 2 then
    match aggregate.change with
    | some amount => .delta amount.toUInt32
    | none => .unspecified
  else .absent

def AggregateDescriptor.resolve (version : UInt8) (aggregate : AggregateDescriptor) :
    Resolution AggregateModification := do
  let modifications ← aggregate.modifications.mapM ModificationDescriptor.resolve
  return ⟨modifications, aggregate.relativeChange version⟩

def CosignatureDescriptor.resolve (cosignature : CosignatureDescriptor) :
    Resolution Cosignature := do
  let hash ← fixedBytes .hash Limits.hashLength cosignature.hash
  let account ← addressBytes cosignature.account
  return ⟨hash, account⟩

def ProvisionDescriptor.resolve (provision : ProvisionDescriptor) :
    Resolution NamespaceProvision := do
  let sink ← addressBytes provision.sink
  return {
    sink
    rentalFee := provision.rentalFee
    name := Bytes.ofText provision.name
    parent := provision.parent.map Bytes.ofText }

def PropertyDescriptor.resolve (property : PropertyDescriptor) : MosaicProperty :=
  ⟨Bytes.ofText property.name, Bytes.ofText property.value⟩

def LevyDescriptor.resolve (levy : LevyDescriptor) : Resolution Levy := do
  let recipient ← addressBytes levy.recipient
  return ⟨levy.type, recipient, mosaicId levy.space levy.name, levy.fee⟩

def DefinitionDescriptor.resolve (definition : DefinitionDescriptor) :
    Resolution MosaicDefinition := do
  let creator ← keyBytes .creator definition.creator
  let levy ← definition.levy.mapM LevyDescriptor.resolve
  let sink ← addressBytes definition.sink
  return {
    creator
    id := mosaicId definition.space definition.name
    description := Bytes.ofText definition.description
    properties := definition.properties.map PropertyDescriptor.resolve
    levy
    sink
    rentalFee := definition.rentalFee }

def SupplyDescriptor.resolve (change : SupplyDescriptor) : SupplyChange :=
  ⟨mosaicId change.space change.name, change.type, change.delta⟩

def ActionDescriptor.resolve (version : UInt8) : ActionDescriptor → Resolution Action
  | transfer content => return .transfer (← content.resolve version)
  | importanceTransfer content => return .importanceTransfer (← content.resolve)
  | aggregateModification content => return .aggregateModification (← content.resolve version)
  | cosignature content => return .cosignature (← content.resolve)
  | namespaceProvision content => return .namespaceProvision (← content.resolve)
  | mosaicDefinition content => return .mosaicDefinition (← content.resolve)
  | supplyChange content => return .supplyChange content.resolve

namespace Descriptor

def encode : Descriptor → Resolution Bytes
  | action header content => do
    let resolved ← header.resolve content.kind
    let action ← content.resolve header.version
    return resolved.encode ++ action.encode
  | multisig header carried => do
    let resolved ← header.resolve .multisig
    let inner ← carried.encode
    return resolved.encode ++ Bytes.prefixed inner
  | cosigned header content carried => do
    let resolved ← header.resolve .multisigSignature
    let cosignature ← content.resolve
    let detail ← carried.encode
    return resolved.encode ++ cosignature.encode ++ Bytes.prefixed detail

end Descriptor

end NemSigner
