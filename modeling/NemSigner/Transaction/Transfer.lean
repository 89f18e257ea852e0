import NemSigner.Transaction.Header
import NemSigner.Transaction.Mosaic

/-!
# Transfers

A transfer sends an amount of XEM, and in its second version any mosaics, to an address, with or
without a message.

## Main definitions

- `Transfer` — the content of a transfer
- `Transfer.encode`, `Transfer.fields` — its written form and its review fields
- `Transfer.decode` — the reading of it
-/

namespace NemSigner

/-- A message. Payloads of type one are text, all others are encrypted. -/
structure Message where
  payloadType : UInt32
  payload : Bytes
  deriving DecidableEq, Repr

/-- A mosaic that a transfer carries. -/
structure AttachedMosaic where
  id : MosaicId
  quantity : UInt64
  deriving DecidableEq, Repr

/-- The content of a transfer. Only the second version has a list of mosaics; when the list is empty
the amount is one of XEM, else it is a factor that the review does not show. -/
structure Transfer where
  recipient : Bytes
  amount : UInt64
  message : Option Message
  mosaics : Option (List AttachedMosaic)
  deriving DecidableEq, Repr

namespace Message

/-- The payload type of text. -/
def plain : UInt32 := 1

def encode (message : Message) : Bytes :=
  Bytes.ofNatLE 4 message.payloadType.toNat ++ Bytes.prefixed message.payload

/-- The review field of a message. The payload of an encrypted message is not shown. -/
def field (message : Message) : Field :=
  if message.payloadType = plain then ⟨.plainMessage, .message, message.payload⟩
  else ⟨.encryptedMessage, .message, []⟩

/-- The written form has a length that four bytes can declare. -/
def WellFormed (message : Message) : Prop :=
  message.encode.length < UInt32.size

/-- Decodes a message of a declared length; a length of zero stands for no message. -/
def decode (length : Nat) : Decoder Unit := do
  if length = 0 then Decoder.emit .plainMessage .message []
  else
    let message ← Cursor.readBytes length
    let (payloadType, payload) ← Cursor.exactly message do
      let payloadType ← Cursor.readUInt 4
      let payload ← Cursor.readPrefixed
      return (payloadType, payload)
    if payloadType = plain.toNat then Decoder.emit .plainMessage .message payload
    else Decoder.emit .encryptedMessage .message []

end Message

namespace AttachedMosaic

def encode (mosaic : AttachedMosaic) : Bytes :=
  Bytes.prefixed mosaic.id.encode ++ Bytes.ofNatLE 8 mosaic.quantity.toNat

/-- The review fields of a mosaic: an amount of XEM, or the smallest units of a mosaic whose places
are not known. -/
def fields (mosaic : AttachedMosaic) : List Field :=
  let quantity := Bytes.ofNatLE 8 mosaic.quantity.toNat
  if mosaic.id = MosaicId.xem then [⟨.mosaicAmount, .xem, quantity⟩]
  else
    [⟨.unknownMosaic, .text, []⟩,
     ⟨.transferMosaic, .text, mosaic.id.encode⟩,
     ⟨.mosaicUnits, .mosaicQuantity, quantity⟩]

/-- The written form has a length that four bytes can declare. -/
def WellFormed (mosaic : AttachedMosaic) : Prop :=
  mosaic.encode.length < UInt32.size

/-- Decodes a mosaic with its length in front. -/
def decode : Decoder Unit := do
  let mosaic ← Cursor.readPrefixed
  let (id, quantity) ← Cursor.exactly mosaic do
    let id ← Cursor.readPrefixed
    let quantity ← Cursor.readBytes 8
    return (id, quantity)
  let (space, name) ← Cursor.exactly id Cursor.readNames
  if (⟨space, name⟩ : MosaicId) = MosaicId.xem then
    Decoder.emit .mosaicAmount .xem quantity
  else
    Decoder.emit .unknownMosaic .text []
    Decoder.emit .transferMosaic .text id
    Decoder.emit .mosaicUnits .mosaicQuantity quantity

end AttachedMosaic

namespace Transfer

def encode (transfer : Transfer) : Bytes :=
  Bytes.prefixed transfer.recipient ++ Bytes.ofNatLE 8 transfer.amount.toNat ++
  (match transfer.message with
    | none => Bytes.ofNatLE 4 0
    | some message => Bytes.prefixed message.encode) ++
  (match transfer.mosaics with
    | none => []
    | some mosaics =>
      Bytes.ofNatLE 4 mosaics.length ++
      mosaics.flatMap fun mosaic => Bytes.prefixed mosaic.encode)

def fields (fee : Field) (transfer : Transfer) : List Field :=
  let amount : Field := ⟨.mosaicAmount, .xem, Bytes.ofNatLE 8 transfer.amount.toNat⟩
  let message := match transfer.message with
    | none => ⟨.plainMessage, .message, []⟩
    | some message => message.field
  [⟨.recipient, .address, transfer.recipient⟩] ++
  match transfer.mosaics with
    | none => [amount, message, fee]
    | some [] => [message, fee, amount]
    | some mosaics =>
      [message, fee, ⟨.mosaicCount, .uint32, Bytes.ofNatLE 4 mosaics.length⟩] ++
      mosaics.flatMap AttachedMosaic.fields

/-- The sizes are those of the wire format, and there is a list of mosaics in the second version
only. -/
def WellFormed (version : UInt8) (transfer : Transfer) : Prop :=
  transfer.recipient.length = Limits.addressLength ∧
  (∀ message ∈ transfer.message, message.WellFormed) ∧
  (transfer.mosaics.isSome ↔ version = 2) ∧
  ∀ mosaics ∈ transfer.mosaics,
    mosaics.length < UInt32.size ∧ ∀ mosaic ∈ mosaics, mosaic.WellFormed

/-- Decodes the list of mosaics. Without mosaics the amount is one of XEM. -/
def decodeMosaics (bound : Nat → Nat) (amount : Bytes) : Decoder Unit := do
  let countBytes ← Cursor.readBytes 4
  let count := Bytes.toNatLE countBytes
  if count = 0 then Decoder.emit .mosaicAmount .xem amount
  else
    Decoder.emit .mosaicCount .uint32 countBytes
    Decoder.times (bound count) AttachedMosaic.decode

def decode (bound : Nat → Nat) (header : Header) : Decoder Unit := do
  let recipient ← Cursor.readSized Limits.addressLength
  let amount ← Cursor.readBytes 8
  let messageLength ← Cursor.readLength
  Decoder.emit .recipient .address recipient
  -- The amount has been read in both versions, but it is shown here only in the first.
  if header.version = 1 then Decoder.emit .mosaicAmount .xem amount
  Message.decode messageLength
  header.emitFee
  if header.version = 2 then decodeMosaics bound amount

end Transfer

end NemSigner
