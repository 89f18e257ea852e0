import NemSigner.Coded

/-!
# Kinds of transactions

The first four bytes of a transaction name its kind.
-/

namespace NemSigner

/-- The kinds of transactions. -/
inductive TransactionKind
  | transfer
  | importanceTransfer
  | aggregateModification
  | multisigSignature
  | multisig
  | provisionNamespace
  | mosaicDefinition
  | mosaicSupplyChange
  deriving DecidableEq, Repr

namespace TransactionKind

instance : Coded TransactionKind where
  all := [.transfer, .importanceTransfer, .aggregateModification, .multisigSignature, .multisig,
    .provisionNamespace, .mosaicDefinition, .mosaicSupplyChange]
  name
    | .transfer => "Transfer"
    | .importanceTransfer => "ImportanceTransfer"
    | .aggregateModification => "AggregateModification"
    | .multisigSignature => "MultisigSignature"
    | .multisig => "Multisig"
    | .provisionNamespace => "ProvisionNamespace"
    | .mosaicDefinition => "MosaicDefinition"
    | .mosaicSupplyChange => "MosaicSupplyChange"
  code
    | .transfer => 0x0101
    | .importanceTransfer => 0x0801
    | .aggregateModification => 0x1001
    | .multisigSignature => 0x1002
    | .multisig => 0x1004
    | .provisionNamespace => 0x2001
    | .mosaicDefinition => 0x4001
    | .mosaicSupplyChange => 0x4002

def label : TransactionKind → String
  | .transfer => "Transfer TX"
  | .importanceTransfer => "Importance Transfer TX"
  | .aggregateModification => "Modify Multisig Aggregate TX"
  | .multisigSignature => "Multi Sig. TX"
  | .multisig => "Multisig TX"
  | .provisionNamespace => "Provision Namespace TX"
  | .mosaicDefinition => "Mosaic Definition TX"
  | .mosaicSupplyChange => "Mosaic Supply Change"

end TransactionKind

end NemSigner
