import NemSigner.Transaction.Kind

/-!
# Descriptors

A descriptor says what a transaction is to contain, in the way a person would write it down: keys
and hashes as hexadecimal text, addresses and names as text, and only what is not the usual.
Nothing is checked in a descriptor before it is put into the wire format.

## Main definitions

- `HeaderDescriptor` — what a header is to contain
- `TransferDescriptor`, … — what a content is to contain
- `ActionDescriptor` — any content that carries no other transaction
- `Descriptor` — any transaction, with those that it carries
-/

namespace NemSigner

/-- What a header is to contain. -/
structure HeaderDescriptor where
  version : UInt8
  network : UInt8
  timestamp : UInt32
  /-- The public key of the account that pays, in hexadecimal text. -/
  signer : String
  fee : UInt64
  deadline : UInt32
  deriving DecidableEq, Repr

/-- What a message is to contain. A text is taken before hexadecimal text, and neither means an
empty payload. -/
structure MessageDescriptor where
  payloadType : UInt32
  text : Option String
  hex : Option String
  deriving DecidableEq, Repr

/-- A mosaic that a transfer is to carry. -/
structure MosaicDescriptor where
  space : String
  name : String
  quantity : UInt64
  deriving DecidableEq, Repr

/-- What a transfer is to contain. Only the second version has mosaics. -/
structure TransferDescriptor where
  recipient : String
  amount : UInt64
  message : Option MessageDescriptor
  mosaics : List MosaicDescriptor
  deriving DecidableEq, Repr

/-- What an importance transfer is to contain. -/
structure ImportanceDescriptor where
  mode : UInt32
  /-- The public key of the remote account, in hexadecimal text. -/
  remote : String
  deriving DecidableEq, Repr

/-- A cosignatory to be added or removed. -/
structure ModificationDescriptor where
  type : UInt32
  /-- The public key, in hexadecimal text. -/
  cosignatory : String
  deriving DecidableEq, Repr

/-- What an aggregate modification is to contain. Only the second version has a change in the
number of signatures. -/
structure AggregateDescriptor where
  modifications : List ModificationDescriptor
  change : Option Int32
  deriving DecidableEq, Repr

/-- What a cosignature is to contain. -/
structure CosignatureDescriptor where
  /-- The hash of the transaction agreed to, in hexadecimal text. -/
  hash : String
  account : String
  deriving DecidableEq, Repr

/-- What a namespace provision is to contain; a root namespace has no parent. -/
structure ProvisionDescriptor where
  sink : String
  rentalFee : UInt64
  name : String
  parent : Option String
  deriving DecidableEq, Repr

/-- A property that a mosaic is to have. -/
structure PropertyDescriptor where
  name : String
  value : String
  deriving DecidableEq, Repr

/-- A levy that a mosaic is to have. -/
structure LevyDescriptor where
  type : UInt32
  recipient : String
  space : String
  name : String
  fee : UInt64
  deriving DecidableEq, Repr

/-- What a mosaic definition is to contain. -/
structure DefinitionDescriptor where
  /-- The public key of the creator, in hexadecimal text. -/
  creator : String
  space : String
  name : String
  description : String
  properties : List PropertyDescriptor
  levy : Option LevyDescriptor
  sink : String
  rentalFee : UInt64
  deriving DecidableEq, Repr

/-- What a supply change is to contain. -/
structure SupplyDescriptor where
  space : String
  name : String
  type : UInt32
  delta : UInt64
  deriving DecidableEq, Repr

/-- A content that is to carry no other transaction. -/
inductive ActionDescriptor
  | transfer (content : TransferDescriptor)
  | importanceTransfer (content : ImportanceDescriptor)
  | aggregateModification (content : AggregateDescriptor)
  | cosignature (content : CosignatureDescriptor)
  | namespaceProvision (content : ProvisionDescriptor)
  | mosaicDefinition (content : DefinitionDescriptor)
  | supplyChange (content : SupplyDescriptor)
  deriving DecidableEq, Repr

/-- What a transaction is to contain. A multisig transaction and a cosignature can carry another
one, which can be of any kind here. -/
inductive Descriptor
  | action (header : HeaderDescriptor) (action : ActionDescriptor)
  | multisig (header : HeaderDescriptor) (carried : Descriptor)
  | cosigned (header : HeaderDescriptor) (cosignature : CosignatureDescriptor)
      (carried : Descriptor)
  deriving DecidableEq, Repr

namespace HeaderDescriptor

/-- The version of a header that names none. -/
def usualVersion : UInt8 := 1

/-- The network of a header that names none. -/
def usualNetwork : UInt8 := 0x98

/-- The account that pays if a header names none. -/
def usualSigner : String :=
  "c5f54ba980fcbb657dbaaa42700539b207873e134d2375efeab5f1ab52f87844"

/-- The header that names nothing but a fee. -/
def ofFee (fee : UInt64) : HeaderDescriptor :=
  { version := usualVersion
    network := usualNetwork
    timestamp := 0
    signer := usualSigner
    fee
    deadline := 0 }

end HeaderDescriptor

namespace ActionDescriptor

/-- The kind of transaction that an action makes. -/
def kind : ActionDescriptor → TransactionKind
  | transfer _ => .transfer
  | importanceTransfer _ => .importanceTransfer
  | aggregateModification _ => .aggregateModification
  | cosignature _ => .multisigSignature
  | namespaceProvision _ => .provisionNamespace
  | mosaicDefinition _ => .mosaicDefinition
  | supplyChange _ => .mosaicSupplyChange

end ActionDescriptor

namespace Descriptor

def kind : Descriptor → TransactionKind
  | action _ content => content.kind
  | multisig _ _ => .multisig
  | cosigned _ _ _ => .multisigSignature

/-- What the header is to contain. -/
def header : Descriptor → HeaderDescriptor
  | action header _ => header
  | multisig header _ => header
  | cosigned header _ _ => header

end Descriptor

end NemSigner
