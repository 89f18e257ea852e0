import NemSigner.Transaction.AggregateModification
import NemSigner.Transaction.Cosignature
import NemSigner.Transaction.ImportanceTransfer
import NemSigner.Transaction.MosaicDefinition
import NemSigner.Transaction.NamespaceProvision
import NemSigner.Transaction.SupplyChange
import NemSigner.Transaction.Transfer

/-!
# Transactions

A transaction has a header and a content. An action is a content that stands for itself; the other
two contents carry further transactions: a multisig transaction carries those that it makes in the
name of a multisig account, and a cosignature can carry those that it agrees to. Carried
transactions carry none themselves.

## Main definitions

- `Action`, `ActionTransaction` — contents that stand for themselves
- `Transaction` — any transaction
- `Transaction.encode`, `Transaction.fields` — its written form and its review fields
- `Transaction.WellFormed` — the transactions of the wire format
-/

namespace NemSigner

/-- A content that carries no other transaction. -/
inductive Action
  | transfer (content : Transfer)
  | importanceTransfer (content : ImportanceTransfer)
  | aggregateModification (content : AggregateModification)
  | cosignature (content : Cosignature)
  | namespaceProvision (content : NamespaceProvision)
  | mosaicDefinition (content : MosaicDefinition)
  | supplyChange (content : SupplyChange)
  deriving DecidableEq, Repr

/-- A transaction that carries no other. -/
structure ActionTransaction where
  header : Header
  action : Action
  deriving DecidableEq, Repr

/-- The content of any transaction. -/
inductive Content
  | action (action : Action)
  | multisig (carried : List ActionTransaction)
  | cosigned (cosignature : Cosignature) (carried : List ActionTransaction)
  deriving DecidableEq, Repr

/-- Any transaction. -/
structure Transaction where
  header : Header
  content : Content
  deriving DecidableEq, Repr

namespace Action

def kind : Action → TransactionKind
  | transfer _ => .transfer
  | importanceTransfer _ => .importanceTransfer
  | aggregateModification _ => .aggregateModification
  | cosignature _ => .multisigSignature
  | namespaceProvision _ => .provisionNamespace
  | mosaicDefinition _ => .mosaicDefinition
  | supplyChange _ => .mosaicSupplyChange

def encode : Action → Bytes
  | transfer content => content.encode
  | importanceTransfer content => content.encode
  | aggregateModification content => content.encode
  | cosignature content => content.encode
  | namespaceProvision content => content.encode
  | mosaicDefinition content => content.encode
  | supplyChange content => content.encode

/-- The review fields of an action, with the fee in its place. -/
def fields (fee : Field) : Action → List Field
  | transfer content => content.fields fee
  | importanceTransfer content => content.fields fee
  | aggregateModification content => content.fields fee
  | cosignature content => content.fields ++ [fee]
  | namespaceProvision content => content.fields fee
  | mosaicDefinition content => content.fields fee
  | supplyChange content => content.fields fee

/-- The action has the sizes and the parts that the wire format has in a version. -/
def WellFormed (version : UInt8) : Action → Prop
  | transfer content => content.WellFormed version
  | importanceTransfer content => content.WellFormed
  | aggregateModification content => content.WellFormed version
  | cosignature content => content.WellFormed
  | namespaceProvision content => content.WellFormed
  | mosaicDefinition content => content.WellFormed
  | supplyChange content => content.WellFormed

end Action

namespace Header

/-- The header names a kind, has a version in use, and a key of the right size. -/
def WellFormed (header : Header) (kind : TransactionKind) : Prop :=
  header.typeNumber.toNat = Coded.code kind ∧
  (header.version = 1 ∨ header.version = 2) ∧
  header.signer.length = Limits.publicKeyLength

end Header

namespace ActionTransaction

def encode (transaction : ActionTransaction) : Bytes :=
  transaction.header.encode ++ transaction.action.encode

/-- The review fields of a carried transaction, whose kind is shown under an identifier of its
own. -/
def fields (typeId : FieldId) (transaction : ActionTransaction) : List Field :=
  ⟨typeId, .uint32, transaction.header.typeBytes⟩ ::
    transaction.action.fields transaction.header.feeField

/-- Header and action have the form of the wire format and belong together. -/
def WellFormed (transaction : ActionTransaction) : Prop :=
  transaction.header.WellFormed transaction.action.kind ∧
  transaction.action.WellFormed transaction.header.version

/-- The written form of carried transactions, one behind the other, without their length. -/
def encodeAll (carried : List ActionTransaction) : Bytes :=
  carried.flatMap encode

/-- Carried transactions are at least one, all well formed, and their length can be declared in four
bytes. -/
def AllWellFormed (carried : List ActionTransaction) : Prop :=
  carried ≠ [] ∧ (∀ transaction ∈ carried, transaction.WellFormed) ∧
  (encodeAll carried).length < UInt32.size

end ActionTransaction

namespace Content

def kind : Content → TransactionKind
  | action content => content.kind
  | multisig _ => .multisig
  | cosigned _ _ => .multisigSignature

def encode : Content → Bytes
  | action content => content.encode
  | multisig carried => Bytes.prefixed (ActionTransaction.encodeAll carried)
  | cosigned cosignature carried =>
    cosignature.encode ++ Bytes.prefixed (ActionTransaction.encodeAll carried)

/-- The review fields of a content. What is paid for carrying transactions is shown before them. -/
def fields (header : Header) : Content → List Field
  | action content => content.fields header.feeField
  | multisig carried =>
    ⟨.multisigFee, .xem, header.feeBytes⟩ ::
      carried.flatMap (ActionTransaction.fields .innerTransactionType)
  | cosigned cosignature carried =>
    cosignature.fields ++ ⟨.multisigFee, .xem, header.feeBytes⟩ ::
      carried.flatMap (ActionTransaction.fields .detailTransactionType)

def WellFormed (version : UInt8) : Content → Prop
  | action content => content.WellFormed version
  | multisig carried => ActionTransaction.AllWellFormed carried
  | cosigned cosignature carried =>
    cosignature.WellFormed ∧ ActionTransaction.AllWellFormed carried

end Content

namespace Transaction

def encode (transaction : Transaction) : Bytes :=
  transaction.header.encode ++ transaction.content.encode

/-- The review fields of a transaction, in the order in which they are shown. -/
def fields (transaction : Transaction) : List Field :=
  ⟨.transactionType, .uint32, transaction.header.typeBytes⟩ ::
    transaction.content.fields transaction.header

/-- The transactions of the wire format. -/
def WellFormed (transaction : Transaction) : Prop :=
  transaction.header.WellFormed transaction.content.kind ∧
  transaction.content.WellFormed transaction.header.version

end Transaction

end NemSigner
