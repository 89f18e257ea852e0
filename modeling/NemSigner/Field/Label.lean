import NemSigner.Cursor.Basic
import NemSigner.Field.Basic
import NemSigner.Printer.Sanitised

/-!
# Labels

What stands above a value on the screen. The label follows from the identifier and the type of a
field, except that a property of a mosaic is labelled with its own name.

## Main definitions

- `Field.fixedLabel?` — the labels that do not depend on the transaction
- `Field.label` — the label of any field
-/

namespace NemSigner

namespace Field

/-- The label of a field with no other label. -/
def unknownLabel : String := "Unknown Field"

/-- The labels that do not depend on the transaction. -/
def fixedLabel? : DataType → FieldId → Option String
  | .uint32, .transactionType => some "Transaction Type"
  | .uint32, .innerTransactionType => some "Inner TX Type"
  | .uint32, .detailTransactionType => some "Detail TX Type"
  | .uint32, .mosaicCount => some "Mosaics"
  | .uint32, .importanceMode => some "Importance Mode"
  | .uint32, .cosignatoryCount => some "Cosignatory Num"
  | .uint32, .modificationType => some "Mod. Type"
  | .uint32, .relativeChange => some "Relative Change"
  | .uint32, .levyFeeType => some "Levy Fee Type"
  | .uint64, .duration => some "Duration"
  | .hash256, .transactionHash => some "SHA3 Tx Hash"
  | .hash256, .remoteKey => some "Rmt. Public Key"
  | .hash256, .cosignatoryKey => some "Cosignatory PbK"
  | .address, .recipient => some "Recipient"
  | .address, .multisigAddress => some "Multisig Address"
  | .address, .sinkAddress => some "Sink Address"
  | .address, .levyAddress => some "Levy Address"
  | .mosaicQuantity, .mosaicAmount => some "Amount"
  | .mosaicQuantity, .mosaicUnits => some "Micro Units"
  | .mosaicQuantity, .supplyCreated => some "Create Supply"
  | .mosaicQuantity, .supplyDeleted => some "Delete Supply"
  | .xem, .fee => some "Fee"
  | .xem, .rentalFee => some "Rental Fee"
  | .xem, .mosaicAmount => some "Amount"
  | .xem, .levyFee => some "Levy Fee"
  | .xem, .multisigFee => some "Multisig Fee"
  | .message, .plainMessage => some "Message"
  | .message, .encryptedMessage => some "Message"
  | .text, .unknownMosaic => some "Unknown Mosaic"
  | .text, .transferMosaic => some "Namespace"
  | .text, .namespaceName => some "Namespace"
  | .text, .parentNamespace => some "Parent Name"
  | .text, .rootNamespace => some "Create new root"
  | .text, .mosaicName => some "Mosaic Name"
  | .text, .description => some "Description"
  | .text, .levyMosaic => some "Levy Mosaic"
  | _, _ => none

/-- The name of a property, sanitised and cut to the buffer; none when nothing of it can be
shown. -/
def propertyName? (data buffer : Bytes) : Option Bytes :=
  match Cursor.readAll Cursor.readPrefixed data with
  | .error _ => none
  | .ok name =>
    match (Printer.sanitised name).run buffer with
    | .ok [] | .error _ => none
    | .ok shown => some shown

/-- The label of a field. Only the name of a property is cut to the buffer. -/
def label (field : Field) (buffer : Bytes) : Bytes :=
  match fixedLabel? field.type field.id with
  | some fixed => Bytes.ofText fixed
  | none =>
    match field.type, field.id with
    | .property, .property =>
      (propertyName? field.data buffer).getD (Bytes.ofText unknownLabel)
    | _, _ => Bytes.ofText unknownLabel

end Field

end NemSigner
