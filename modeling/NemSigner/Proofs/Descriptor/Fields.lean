import NemSigner.Descriptor.Encode

/-!
# What a descriptor has reviewed

The review fields of a transaction can be read off its descriptor, without the wire format between
them: numbers and texts as they are written down, keys and hashes as the bytes that their digits
spell.

## Main definitions

- `Descriptor.fields` — the fields that are read off a descriptor
- `Descriptor.InUse` — the descriptors whose versions and types the signer knows
-/

namespace NemSigner

namespace Descriptor

/-- The bytes that a hexadecimal text spells, none when it spells none. -/
def spelled (text : String) : Bytes :=
  match Hex.decode (Bytes.ofText text) with
  | .ok bytes => bytes
  | .error _ => []

/-- The field that shows a kind of transaction. -/
def kindField (id : FieldId) (kind : TransactionKind) : Field :=
  ⟨id, .uint32, Bytes.ofNatLE 4 (Coded.code kind)⟩

end Descriptor

open Descriptor (spelled kindField mosaicId)

def MessageDescriptor.spelledPayload (message : MessageDescriptor) : Bytes :=
  match message.text, message.hex with
  | some text, _ => Bytes.ofText text
  | none, some hex => spelled hex
  | none, none => []

/-- No message is reviewed like an empty text, and of an encrypted one nothing is. -/
def TransferDescriptor.messageField (transfer : TransferDescriptor) : Field :=
  match transfer.message with
  | none => ⟨.plainMessage, .message, []⟩
  | some message =>
    if message.payloadType = 1 then ⟨.plainMessage, .message, message.spelledPayload⟩
    else ⟨.encryptedMessage, .message, []⟩

def MosaicDescriptor.fields (mosaic : MosaicDescriptor) : List Field :=
  if mosaic.space = "nem" ∧ mosaic.name = "xem" then
    [⟨.mosaicAmount, .xem, Bytes.ofNatLE 8 mosaic.quantity.toNat⟩]
  else
    [⟨.unknownMosaic, .text, []⟩,
     ⟨.transferMosaic, .text, (mosaicId mosaic.space mosaic.name).encode⟩,
     ⟨.mosaicUnits, .mosaicQuantity, Bytes.ofNatLE 8 mosaic.quantity.toNat⟩]

/-- The first version does not look at the mosaics. -/
def TransferDescriptor.fields (version : UInt8) (fee : Field) (transfer : TransferDescriptor) :
    List Field :=
  let amount : Field := ⟨.mosaicAmount, .xem, Bytes.ofNatLE 8 transfer.amount.toNat⟩
  ⟨.recipient, .address, Bytes.ofText transfer.recipient⟩ ::
    if version = 1 then [amount, transfer.messageField, fee]
    else transfer.messageField :: fee ::
      match transfer.mosaics with
      | [] => [amount]
      | mosaics =>
        ⟨.mosaicCount, .uint32, Bytes.ofNatLE 4 mosaics.length⟩ ::
          mosaics.flatMap MosaicDescriptor.fields

def ImportanceDescriptor.fields (fee : Field) (transfer : ImportanceDescriptor) : List Field :=
  [⟨.importanceMode, .uint32, Bytes.ofNatLE 4 transfer.mode.toNat⟩,
   ⟨.remoteKey, .hash256, spelled transfer.remote⟩, fee]

def ModificationDescriptor.fields (modification : ModificationDescriptor) : List Field :=
  [⟨.modificationType, .uint32, Bytes.ofNatLE 4 modification.type.toNat⟩,
   ⟨.cosignatoryKey, .hash256, spelled modification.cosignatory⟩]

/-- The first version does not look at the change, and the second reviews one that is left out as a
change by zero. -/
def AggregateDescriptor.fields (version : UInt8) (fee : Field) (aggregate : AggregateDescriptor) :
    List Field :=
  let change : Nat := match aggregate.change with
    | some amount => amount.toUInt32.toNat
    | none => 0
  ⟨.cosignatoryCount, .uint32, Bytes.ofNatLE 4 aggregate.modifications.length⟩ ::
    (aggregate.modifications.flatMap ModificationDescriptor.fields ++
      if version = 2 then [⟨.relativeChange, .uint32, Bytes.ofNatLE 4 change⟩, fee] else [fee])

def CosignatureDescriptor.fields (cosignature : CosignatureDescriptor) : List Field :=
  [⟨.transactionHash, .hash256, spelled cosignature.hash⟩,
   ⟨.multisigAddress, .address, Bytes.ofText cosignature.account⟩]

def ProvisionDescriptor.fields (fee : Field) (provision : ProvisionDescriptor) : List Field :=
  [⟨.namespaceName, .text, Bytes.ofText provision.name⟩,
   match provision.parent with
    | none => ⟨.rootNamespace, .text, Bytes.ofNatLE 4 0xffffffff⟩
    | some parent => ⟨.parentNamespace, .text, Bytes.ofText parent⟩,
   ⟨.sinkAddress, .address, Bytes.ofText provision.sink⟩,
   ⟨.rentalFee, .xem, Bytes.ofNatLE 8 provision.rentalFee.toNat⟩, fee]

def PropertyDescriptor.field (property : PropertyDescriptor) : Field :=
  ⟨.property, .property,
    Bytes.prefixed (Bytes.ofText property.name) ++ Bytes.prefixed (Bytes.ofText property.value)⟩

def LevyDescriptor.fields (levy : LevyDescriptor) : List Field :=
  [⟨.levyMosaic, .text, (mosaicId levy.space levy.name).encode⟩,
   ⟨.levyAddress, .address, Bytes.ofText levy.recipient⟩,
   ⟨.levyFeeType, .uint32, Bytes.ofNatLE 4 levy.type.toNat⟩,
   ⟨.levyFee, .xem, Bytes.ofNatLE 8 levy.fee.toNat⟩]

def DefinitionDescriptor.fields (fee : Field) (definition : DefinitionDescriptor) : List Field :=
  [⟨.parentNamespace, .text, Bytes.ofText definition.space⟩,
   ⟨.mosaicName, .text, Bytes.ofText definition.name⟩,
   ⟨.description, .text, Bytes.ofText definition.description⟩] ++
  definition.properties.map PropertyDescriptor.field ++
  definition.levy.elim [] LevyDescriptor.fields ++
  [⟨.sinkAddress, .address, Bytes.ofText definition.sink⟩,
   ⟨.rentalFee, .xem, Bytes.ofNatLE 8 definition.rentalFee.toNat⟩, fee]

def SupplyDescriptor.fields (fee : Field) (change : SupplyDescriptor) : List Field :=
  [⟨.namespaceName, .text, Bytes.ofText change.space⟩,
   ⟨.mosaicName, .text, Bytes.ofText change.name⟩,
   ⟨if change.type = 1 then .supplyCreated else .supplyDeleted, .mosaicQuantity,
    Bytes.ofNatLE 8 change.delta.toNat⟩, fee]

namespace ActionDescriptor

/-- The fields of an action, in a version and with the fee in its place. -/
def fields (version : UInt8) (fee : Field) : ActionDescriptor → List Field
  | transfer content => content.fields version fee
  | importanceTransfer content => content.fields fee
  | aggregateModification content => content.fields version fee
  | cosignature content => content.fields ++ [fee]
  | namespaceProvision content => content.fields fee
  | mosaicDefinition content => content.fields fee
  | supplyChange content => content.fields fee

/-- The types of supply changes and levies are known. -/
def InUse : ActionDescriptor → Prop
  | mosaicDefinition content => ∀ levy ∈ content.levy, levy.type = 1 ∨ levy.type = 2
  | supplyChange content => content.type = 1 ∨ content.type = 2
  | _ => True

end ActionDescriptor

/-- The fee under an identifier that says what it is paid for. -/
def HeaderDescriptor.feeField (id : FieldId) (header : HeaderDescriptor) : Field :=
  ⟨id, .xem, Bytes.ofNatLE 8 header.fee.toNat⟩

namespace Descriptor

/-- The fields of a carried transaction, whose kind is shown under an identifier of its own. One
that carries another itself has none. -/
def carriedFields (typeId : FieldId) : Descriptor → List Field
  | action header content =>
    kindField typeId content.kind :: content.fields header.version (header.feeField .fee)
  | multisig _ _ => []
  | cosigned _ _ _ => []

/-- The fields that are read off a descriptor, in the order in which they are shown. -/
def fields : Descriptor → List Field
  | action header content =>
    kindField .transactionType content.kind :: content.fields header.version (header.feeField .fee)
  | multisig header carried =>
    kindField .transactionType .multisig :: header.feeField .multisigFee ::
      carried.carriedFields .innerTransactionType
  | cosigned header content carried =>
    kindField .transactionType .multisigSignature :: content.fields ++
      header.feeField .multisigFee :: carried.carriedFields .detailTransactionType

/-- The transaction carries no other. -/
def CarriesNone : Descriptor → Prop
  | action _ _ => True
  | multisig _ _ => False
  | cosigned _ _ _ => False

/-- All versions and types are known, and what is carried carries nothing. -/
def InUse : Descriptor → Prop
  | action header content => (header.version = 1 ∨ header.version = 2) ∧ content.InUse
  | multisig header carried =>
    (header.version = 1 ∨ header.version = 2) ∧ carried.CarriesNone ∧ carried.InUse
  | cosigned header _ carried =>
    (header.version = 1 ∨ header.version = 2) ∧ carried.CarriesNone ∧ carried.InUse

end Descriptor

end NemSigner
