import NemSigner.Descriptor.Basic
import NemSigner.Json.Parser
import NemSigner.Json.Record

/-!
# Descriptors in JSON

A descriptor is a record whose last field, the body, is a record again, tagged with the kind of
transaction. What is usual can be left out when a descriptor is read, and is always written.

## Main definitions

- `Descriptor.toJson` — the value of a descriptor
- `Descriptor.ofJson` — the descriptor that a value gives
- `Descriptor.ofText?` — the descriptor that a text gives

## Design notes

The body of the outermost descriptor says by name of which kind it is; those that it carries can
also say it by number. A body as a whole has to be sound and of limited depth, its unused members
included, while the unused members of the outermost record may be anything.
-/

namespace NemSigner

open Json (Value Record)

namespace TransactionKind

/-- The word that tags the body of a descriptor. -/
def tag : TransactionKind → String
  | .transfer => "transfer"
  | .importanceTransfer => "importance_transfer"
  | .aggregateModification => "aggregate_modification"
  | .multisigSignature => "multisig_signature"
  | .multisig => "multisig"
  | .provisionNamespace => "provision_namespace"
  | .mosaicDefinition => "mosaic_definition"
  | .mosaicSupplyChange => "mosaic_supply_change"

/-- The kind with a tag. -/
def ofTag? (text : String) : Option TransactionKind :=
  (Coded.all : List TransactionKind).find? fun kind => kind.tag == text

/-- The kind named by its tag. -/
def ofJson (value : Value) : Option TransactionKind := do
  ofTag? (← value.text?)

/-- The kind named by its tag or by its place in the order of declaration. -/
def ofJsonOrNumber (value : Value) : Option TransactionKind :=
  match value with
  | .number (.integer (.ofNat place)) => (Coded.all : List TransactionKind)[place]?
  | _ => ofJson value

end TransactionKind

/-! ## Parts -/

namespace MessageDescriptor

def fieldNames : List String := ["payload_type", "text", "hex"]

def toJson (message : MessageDescriptor) : Value :=
  .ofRecord [
    ("payload_type", .ofInt message.payloadType.toNat),
    ("text", .ofOption .ofText message.text),
    ("hex", .ofOption .ofText message.hex)]

/-- The message that a value gives; usually its payload is a text. -/
def ofJson (value : Value) : Option MessageDescriptor := do
  let record ← value.record? fieldNames
  let payloadType ← record.withDefault "payload_type" 1 Value.uint32?
  let text ← record.optional "text" Value.text?
  let hex ← record.optional "hex" Value.text?
  return { payloadType, text, hex }

end MessageDescriptor

namespace MosaicDescriptor

def fieldNames : List String := ["namespace", "name", "quantity"]

def toJson (mosaic : MosaicDescriptor) : Value :=
  .ofRecord [
    ("namespace", .ofText mosaic.space),
    ("name", .ofText mosaic.name),
    ("quantity", .ofInt mosaic.quantity.toNat)]

def ofJson (value : Value) : Option MosaicDescriptor := do
  let record ← value.record? fieldNames
  let space ← record.required "namespace" Value.text?
  let name ← record.required "name" Value.text?
  let quantity ← record.required "quantity" Value.uint64?
  return { space, name, quantity }

end MosaicDescriptor

namespace ModificationDescriptor

def fieldNames : List String := ["modification_type", "cosignatory"]

def toJson (modification : ModificationDescriptor) : Value :=
  .ofRecord [
    ("modification_type", .ofInt modification.type.toNat),
    ("cosignatory", .ofText modification.cosignatory)]

def ofJson (value : Value) : Option ModificationDescriptor := do
  let record ← value.record? fieldNames
  let type ← record.required "modification_type" Value.uint32?
  let cosignatory ← record.required "cosignatory" Value.text?
  return { type, cosignatory }

end ModificationDescriptor

namespace PropertyDescriptor

def fieldNames : List String := ["name", "value"]

def toJson (property : PropertyDescriptor) : Value :=
  .ofRecord [("name", .ofText property.name), ("value", .ofText property.value)]

def ofJson (value : Value) : Option PropertyDescriptor := do
  let record ← value.record? fieldNames
  let name ← record.required "name" Value.text?
  let content ← record.required "value" Value.text?
  return { name, value := content }

end PropertyDescriptor

namespace LevyDescriptor

def fieldNames : List String := ["fee_type", "recipient", "namespace", "name", "fee"]

def toJson (levy : LevyDescriptor) : Value :=
  .ofRecord [
    ("fee_type", .ofInt levy.type.toNat),
    ("recipient", .ofText levy.recipient),
    ("namespace", .ofText levy.space),
    ("name", .ofText levy.name),
    ("fee", .ofInt levy.fee.toNat)]

def ofJson (value : Value) : Option LevyDescriptor := do
  let record ← value.record? fieldNames
  let type ← record.required "fee_type" Value.uint32?
  let recipient ← record.required "recipient" Value.text?
  let space ← record.required "namespace" Value.text?
  let name ← record.required "name" Value.text?
  let fee ← record.required "fee" Value.uint64?
  return { type, recipient, space, name, fee }

end LevyDescriptor

/-! ## Contents -/

namespace TransferDescriptor

def fieldNames : List String := ["recipient", "amount", "message", "mosaics"]

def toRecord (transfer : TransferDescriptor) : Record := [
  ("recipient", .ofText transfer.recipient),
  ("amount", .ofInt transfer.amount.toNat),
  ("message", .ofOption MessageDescriptor.toJson transfer.message),
  ("mosaics", .ofList MosaicDescriptor.toJson transfer.mosaics)]

/-- The transfer that a value gives; usually it has neither a message nor mosaics. -/
def ofJson (value : Value) : Option TransferDescriptor := do
  let record ← value.record? fieldNames
  let recipient ← record.required "recipient" Value.text?
  let amount ← record.required "amount" Value.uint64?
  let message ← record.optional "message" MessageDescriptor.ofJson
  let mosaics ← record.withDefault "mosaics" [] (Value.list? MosaicDescriptor.ofJson)
  return { recipient, amount, message, mosaics }

end TransferDescriptor

namespace ImportanceDescriptor

def fieldNames : List String := ["mode", "remote"]

def toRecord (transfer : ImportanceDescriptor) : Record := [
  ("mode", .ofInt transfer.mode.toNat),
  ("remote", .ofText transfer.remote)]

def ofJson (value : Value) : Option ImportanceDescriptor := do
  let record ← value.record? fieldNames
  let mode ← record.required "mode" Value.uint32?
  let remote ← record.required "remote" Value.text?
  return { mode, remote }

end ImportanceDescriptor

namespace AggregateDescriptor

def fieldNames : List String := ["modifications", "min_cosignatories"]

def toRecord (aggregate : AggregateDescriptor) : Record := [
  ("modifications", .ofList ModificationDescriptor.toJson aggregate.modifications),
  ("min_cosignatories", .ofOption (fun change => .ofInt change.toInt) aggregate.change)]

/-- The aggregate modification that a value gives; usually it has no change in the number of
signatures. -/
def ofJson (value : Value) : Option AggregateDescriptor := do
  let record ← value.record? fieldNames
  let modifications ← record.required "modifications" (Value.list? ModificationDescriptor.ofJson)
  let change ← record.optional "min_cosignatories" Value.int32?
  return { modifications, change }

end AggregateDescriptor

namespace CosignatureDescriptor

def fieldNames : List String := ["hash", "multisig_address", "cosigned"]

def toRecord (cosignature : CosignatureDescriptor) (carried : Value) : Record := [
  ("hash", .ofText cosignature.hash),
  ("multisig_address", .ofText cosignature.account),
  ("cosigned", carried)]

def ofRecord (record : Record) : Option CosignatureDescriptor := do
  let hash ← record.required "hash" Value.text?
  let account ← record.required "multisig_address" Value.text?
  return { hash, account }

end CosignatureDescriptor

namespace ProvisionDescriptor

def fieldNames : List String := ["sink", "rental_fee", "namespace", "parent"]

def toRecord (provision : ProvisionDescriptor) : Record := [
  ("sink", .ofText provision.sink),
  ("rental_fee", .ofInt provision.rentalFee.toNat),
  ("namespace", .ofText provision.name),
  ("parent", .ofOption .ofText provision.parent)]

/-- The namespace provision that a value gives; usually it makes a root namespace. -/
def ofJson (value : Value) : Option ProvisionDescriptor := do
  let record ← value.record? fieldNames
  let sink ← record.required "sink" Value.text?
  let rentalFee ← record.required "rental_fee" Value.uint64?
  let name ← record.required "namespace" Value.text?
  let parent ← record.optional "parent" Value.text?
  return { sink, rentalFee, name, parent }

end ProvisionDescriptor

namespace DefinitionDescriptor

def fieldNames : List String :=
  ["creator", "namespace", "name", "description", "properties", "levy", "sink", "rental_fee"]

def toRecord (definition : DefinitionDescriptor) : Record := [
  ("creator", .ofText definition.creator),
  ("namespace", .ofText definition.space),
  ("name", .ofText definition.name),
  ("description", .ofText definition.description),
  ("properties", .ofList PropertyDescriptor.toJson definition.properties),
  ("levy", .ofOption LevyDescriptor.toJson definition.levy),
  ("sink", .ofText definition.sink),
  ("rental_fee", .ofInt definition.rentalFee.toNat)]

/-- The mosaic definition that a value gives; usually it has neither properties nor a levy. -/
def ofJson (value : Value) : Option DefinitionDescriptor := do
  let record ← value.record? fieldNames
  let creator ← record.required "creator" Value.text?
  let space ← record.required "namespace" Value.text?
  let name ← record.required "name" Value.text?
  let description ← record.required "description" Value.text?
  let properties ← record.withDefault "properties" [] (Value.list? PropertyDescriptor.ofJson)
  let levy ← record.optional "levy" LevyDescriptor.ofJson
  let sink ← record.required "sink" Value.text?
  let rentalFee ← record.required "rental_fee" Value.uint64?
  return { creator, space, name, description, properties, levy, sink, rentalFee }

end DefinitionDescriptor

namespace SupplyDescriptor

def fieldNames : List String := ["namespace", "name", "supply_type", "delta"]

def toRecord (change : SupplyDescriptor) : Record := [
  ("namespace", .ofText change.space),
  ("name", .ofText change.name),
  ("supply_type", .ofInt change.type.toNat),
  ("delta", .ofInt change.delta.toNat)]

def ofJson (value : Value) : Option SupplyDescriptor := do
  let record ← value.record? fieldNames
  let space ← record.required "namespace" Value.text?
  let name ← record.required "name" Value.text?
  let type ← record.required "supply_type" Value.uint32?
  let delta ← record.required "delta" Value.uint64?
  return { space, name, type, delta }

end SupplyDescriptor

namespace ActionDescriptor

def toRecord : ActionDescriptor → Record
  | transfer content => content.toRecord
  | importanceTransfer content => content.toRecord
  | aggregateModification content => content.toRecord
  | cosignature content => content.toRecord .null
  | namespaceProvision content => content.toRecord
  | mosaicDefinition content => content.toRecord
  | supplyChange content => content.toRecord

end ActionDescriptor

/-! ## Headers and bodies -/

namespace Descriptor

def fieldNames : List String :=
  ["version", "network", "timestamp", "signer", "fee", "deadline", "body"]

def tagName : String := "type"

/-- The value of a body: its tag, then its fields. -/
def taggedJson (kind : TransactionKind) (record : Record) : Value :=
  .ofRecord ((tagName, .ofText kind.tag) :: record)

/-- The tag of a body, and the body without it. An object has exactly one tag and an array starts
with it. -/
def untag (body : Value) : Option (Value × Value) :=
  match body with
  | .object members =>
    match members.partition fun member => member.1 == some tagName with
    | ([(_, tag)], rest) => some (tag, .object rest)
    | _ => none
  | .array (tag :: rest) => some (tag, .array rest)
  | _ => none

def recordJson (header : HeaderDescriptor) (body : Value) : Value :=
  .ofRecord [
    ("version", .ofInt header.version.toNat),
    ("network", .ofInt header.network.toNat),
    ("timestamp", .ofInt header.timestamp.toNat),
    ("signer", .ofText header.signer),
    ("fee", .ofInt header.fee.toNat),
    ("deadline", .ofInt header.deadline.toNat),
    ("body", body)]

def toJson : Descriptor → Value
  | action header content => recordJson header (taggedJson content.kind content.toRecord)
  | multisig header carried => recordJson header (taggedJson .multisig [("inner", carried.toJson)])
  | cosigned header content carried =>
    recordJson header (taggedJson .multisigSignature (content.toRecord carried.toJson))

/-- The header that a record gives. Only the fee is never left out. -/
def headerOfRecord (record : Record) : Option HeaderDescriptor := do
  let version ← record.withDefault "version" HeaderDescriptor.usualVersion Value.uint8?
  let network ← record.withDefault "network" HeaderDescriptor.usualNetwork Value.uint8?
  let timestamp ← record.withDefault "timestamp" 0 Value.uint32?
  let signer ← record.withDefault "signer" HeaderDescriptor.usualSigner Value.text?
  let fee ← record.required "fee" Value.uint64?
  let deadline ← record.withDefault "deadline" 0 Value.uint32?
  return { version, network, timestamp, signer, fee, deadline }

/-- The descriptor with a header and a body of a kind, for a reading of the transactions carried. -/
def ofBody (ofCarried : Value → Option Descriptor) (header : HeaderDescriptor)
    (kind : TransactionKind) (body : Value) : Option Descriptor :=
  match kind with
  | .transfer => do return .action header (.transfer (← TransferDescriptor.ofJson body))
  | .importanceTransfer => do
    return .action header (.importanceTransfer (← ImportanceDescriptor.ofJson body))
  | .aggregateModification => do
    return .action header (.aggregateModification (← AggregateDescriptor.ofJson body))
  | .multisigSignature => do
    let record ← body.record? CosignatureDescriptor.fieldNames
    let cosignature ← CosignatureDescriptor.ofRecord record
    match ← record.optional "cosigned" ofCarried with
    | some carried => return .cosigned header cosignature carried
    | none => return .action header (.cosignature cosignature)
  | .multisig => do
    let record ← body.record? ["inner"]
    return .multisig header (← record.required "inner" ofCarried)
  | .provisionNamespace => do
    return .action header (.namespaceProvision (← ProvisionDescriptor.ofJson body))
  | .mosaicDefinition => do
    return .action header (.mosaicDefinition (← DefinitionDescriptor.ofJson body))
  | .mosaicSupplyChange => do
    return .action header (.supplyChange (← SupplyDescriptor.ofJson body))

/-- The descriptor that a value gives, for a reading of kinds and one of the transactions
carried. -/
def ofValue (ofKind : Value → Option TransactionKind) (ofCarried : Value → Option Descriptor)
    (value : Value) : Option Descriptor := do
  let record ← value.record? fieldNames
  let header ← headerOfRecord record
  let (tag, content) ← record.required "body" untag
  ofBody ofCarried header (← ofKind tag) content

/-- The carried descriptor that a value gives, if it is nested no deeper than `depth`. -/
def ofCarriedJson : Nat → Value → Option Descriptor
  | 0, _ => none
  | depth + 1, value => ofValue TransactionKind.ofJsonOrNumber (ofCarriedJson depth) value

/-- The descriptor that a value gives. A descriptor is nested no deeper than its value. -/
def ofJson (value : Value) : Option Descriptor :=
  ofValue TransactionKind.ofJson (ofCarriedJson value.depth) value

/-- How deeply a text may be nested, in arrays and objects. -/
def maxDepth : Nat := 127

/-- The body in the value of a descriptor is sound, where the value itself stands inside a number of
arrays and objects. -/
def hasSoundBody (outside : Nat) (value : Value) : Bool :=
  match (value.record? fieldNames).bind fun record => record.find? "body" with
  | some body => body.isSound (maxDepth - outside - 1)
  | none => false

def ofText? (text : String) : Option Descriptor := do
  let value ← Json.parse text
  if hasSoundBody 0 value then ofJson value else none

end Descriptor

end NemSigner
