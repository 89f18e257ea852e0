import NemSigner.Transaction.Basic

/-!
# Decoding of transactions

A transaction is decoded in one pass into the table of its review fields.

## Main definitions

- `Transaction.decode` — the review fields of a transaction
- `Transaction.decodeBounded` — the same with a bound on the turns of every loop

## Design notes

A transaction declares how many mosaics, modifications and properties it has, and those numbers are
not to be trusted. Every loop therefore takes its number of turns through a function, which is the
identity when a transaction is decoded. That the table is full long before a large number is
reached can then be said as an equation between two bounds.
-/

namespace NemSigner

namespace Action

/-- Decodes the content of a transaction that is carried by another. Such a transaction carries none
itself. -/
def decodeCarried (bound : Nat → Nat) (header : Header) : Decoder Unit := do
  match ← MonadExcept.ofExcept header.kind with
  | .transfer => Transfer.decode bound header
  | .importanceTransfer => ImportanceTransfer.decode header
  | .aggregateModification => AggregateModification.decode bound header
  | .multisigSignature =>
    Cosignature.decode
    header.emitFee
  | .multisig => throw .invalidData
  | .provisionNamespace => NamespaceProvision.decode header
  | .mosaicDefinition => MosaicDefinition.decode bound header
  | .mosaicSupplyChange => SupplyChange.decode header

end Action

namespace ActionTransaction

/-- Decodes one carried transaction and shows its kind under the given identifier. -/
def decode (bound : Nat → Nat) (typeId : FieldId) : Decoder Unit := do
  let header ← Header.read
  Decoder.emit typeId .uint32 header.typeBytes
  Action.decodeCarried bound header

/-- Decodes carried transactions until all bytes have been read, each of which has to move the
cursor. -/
def decodeAll (bound : Nat → Nat) (typeId : FieldId) : Nat → Decoder Unit
  | 0 => do
    if !(← Cursor.atEnd) then throw .invalidData
  | turns + 1 => do
    if !(← Cursor.atEnd) then
      let before ← Cursor.position
      decode bound typeId
      if (← Cursor.position) = before then throw .invalidData
      decodeAll bound typeId turns

/-- Decodes carried transactions with their length in front. There has to be at least one. -/
def decodeWrapped (bound : Nat → Nat) (header : Header) (typeId : FieldId) : Decoder Unit := do
  let carried ← Cursor.readPrefixed
  Decoder.emit .multisigFee .xem header.feeBytes
  if carried = [] then throw .invalidData
  Decoder.within carried (decodeAll bound typeId (bound carried.length))

end ActionTransaction

namespace Content

def decode (bound : Nat → Nat) (header : Header) : Decoder Unit := do
  match ← MonadExcept.ofExcept header.kind with
  | .multisig => ActionTransaction.decodeWrapped bound header .innerTransactionType
  | .multisigSignature =>
    Cosignature.decode
    -- The fee of a cosignature that carries something is shown with what it carries.
    if ← Cursor.atEnd then header.emitFee
    else ActionTransaction.decodeWrapped bound header .detailTransactionType
  | _ => Action.decodeCarried bound header

end Content

namespace Transaction

/-- The review fields of a transaction, when no loop takes more turns than a bound allows for the
number declared. -/
def decodeBounded (bound : Nat → Nat) (data : Bytes) : Except DecodeError FieldTable :=
  Decoder.run (do
    let header ← Header.read
    Decoder.emit .transactionType .uint32 header.typeBytes
    Content.decode bound header) data

/-- The review fields of a transaction. Every byte has to be used up. -/
def decode (data : Bytes) : Except DecodeError FieldTable :=
  decodeBounded id data

end Transaction

end NemSigner
