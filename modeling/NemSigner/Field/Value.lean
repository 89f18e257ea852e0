import NemSigner.Address
import NemSigner.Cursor.Structure
import NemSigner.Field.Basic
import NemSigner.Limits
import NemSigner.Printer.Decimal
import NemSigner.Printer.Hex
import NemSigner.Printer.Sanitised
import NemSigner.Transaction.Kind

/-!
# Values

What stands on the screen for the bytes of a field. Numbers, amounts, keys and fixed texts are shown
whole or not at all; text that comes from the transaction is sanitised and cut to the buffer.

## Main definitions

- `Field.print` — the printer of a field on a network
- `Field.value` — the text that it leaves, never empty
-/

namespace NemSigner

namespace Field

/-- Blocks are made every fifteen seconds. -/
def blocksPerMinute : Nat := 4

def blocksPerHour : Nat := 60 * blocksPerMinute

def blocksPerDay : Nat := 24 * blocksPerHour

/-- A number of blocks as days, hours and minutes; zero blocks stand for no limit. -/
def durationText (blocks : Nat) : Bytes :=
  if blocks = 0 then Bytes.ofText "Unlimited"
  else
    Decimal.numeral (blocks / blocksPerDay) ++ Bytes.ofText "d " ++
    Decimal.numeral (blocks % blocksPerDay / blocksPerHour) ++ Bytes.ofText "h " ++
    Decimal.numeral (blocks % blocksPerHour / blocksPerMinute) ++ Bytes.ofText "m"

/-- The text for a number that stands for none of the known choices. -/
def unknownChoice : String := "Unknown"

/-- The kind of transaction that a number stands for. -/
def kindText (number : Nat) : String :=
  match (Coded.ofCode? number : Option TransactionKind) with
  | some kind => kind.label
  | none => unknownChoice

/-- A number of thirty-two bits read as a signed one. -/
def signedWord (number : Nat) : Int :=
  if number < UInt32.size / 2 then number else (number : Int) - UInt32.size

/-- The text of a number of thirty-two bits, which depends on what it means. -/
def wordText (id : FieldId) (number : Nat) : Bytes :=
  match id with
  | .mosaicCount => Bytes.ofText "Found " ++ Decimal.numeral number
  | .transactionType | .innerTransactionType | .detailTransactionType =>
    Bytes.ofText (kindText number)
  | .importanceMode =>
    match number with
    | 1 => Bytes.ofText "Activate"
    | 2 => Bytes.ofText "Deactivate"
    | _ => Bytes.ofText unknownChoice
  | .modificationType =>
    match number with
    | 1 => Bytes.ofText "Add cosignatory"
    | 2 => Bytes.ofText "Delete cosign."
    | _ => Bytes.ofText unknownChoice
  | .relativeChange =>
    match number with
    | 0 => Bytes.ofText "Not change"
    | _ => Decimal.signed (signedWord number)
  | .levyFeeType =>
    match number with
    | 1 => Bytes.ofText "Absolute"
    | 2 => Bytes.ofText "Percentile"
    | _ => Bytes.ofText unknownChoice
  | _ => Decimal.numeral number

/-- Prints what is read from the front of the data, or fails as the reading does. -/
def printRead {α : Type} (data : Bytes) (reading : Cursor.Reading α) (print : α → Printer) :
    Printer :=
  match Cursor.readAll reading data with
  | .ok value => print value
  | .error error => Printer.fail error

/-- Text that has to be shown whole, but is sanitised. -/
def printWhole (data : Bytes) : Printer := fun buffer =>
  if buffer.length < data.length then ⟨.error .notEnoughData, buffer⟩
  else Printer.sanitised data buffer

/-- An address stands as it is. A public key in its place is shown as the address of that key. -/
def printAddress (field : Field) (network : Network) : Printer :=
  -- Only these two fields can hold a key, and only a key has this length.
  let isKey := field.id = .remoteKey ∨ field.id = .cosignatoryKey
  if isKey ∧ field.data.length = Limits.publicKeyLength then
    Printer.text (Address.ofPublicKey network field.data)
  else printWhole field.data

/-- The first byte of a message whose other bytes are shown as hexadecimal digits. -/
def hexMarker : UInt8 := 0xfe

/-- A message is shown as text, or as digits after the marker. -/
def printMessage (id : FieldId) (data : Bytes) : Printer :=
  match data with
  | [] =>
    if id = .encryptedMessage then Printer.text (Bytes.ofText "<encrypted msg>")
    else Printer.text (Bytes.ofText "<empty msg>")
  | first :: rest =>
    if first = hexMarker then Printer.hexTruncated rest else Printer.sanitised data

/-- Text is shown as it is, a mosaic as its namespace and its name; two meanings have a fixed
text. -/
def printText (id : FieldId) (data : Bytes) : Printer :=
  match id with
  | .unknownMosaic => Printer.text (Bytes.ofText "Divisibility and levy cannot be shown")
  | .rootNamespace => Printer.text (Bytes.ofText "namespace")
  | .levyMosaic | .transferMosaic =>
    printRead data Cursor.readNames fun (space, name) =>
      Printer.sanitised space ++ Printer.sanitised (Bytes.ofText ": ") ++ Printer.sanitised name
  | _ => Printer.sanitised data

/-- The unit of an amount. A levy is counted in units of a mosaic whose places are not known. -/
def unitText (id : FieldId) : Bytes :=
  match id with
  | .levyFee => Bytes.ofText "micro"
  | _ => Bytes.ofText "XEM"

/-- The text for a data type that no transaction uses. -/
def notImplemented : String := "[Not implemented]"

/-- The printer of a field on a network. -/
def print (field : Field) (network : Network) : Printer :=
  match field.type with
  | .uint8 => printRead field.data (Cursor.readUInt 1) Printer.decimal
  | .uint16 => printRead field.data (Cursor.readUInt 2) Printer.hexNumeral
  | .uint32 => printRead field.data (Cursor.readUInt 4) fun number =>
      Printer.text (wordText field.id number)
  | .uint64 =>
    match field.id with
    | .duration => printRead field.data (Cursor.readUInt 8) fun blocks =>
        Printer.text (durationText blocks)
    | _ => Printer.hex .upper true field.data
  | .hash256 => Printer.hex .upper false field.data
  | .address => printAddress field network
  | .mosaicQuantity => printRead field.data (Cursor.readUInt 8) Printer.decimal
  | .xem => printRead field.data (Cursor.readUInt 8) fun amount =>
      Printer.token Limits.xemDivisibility amount (some (unitText field.id))
  | .message => printMessage field.id field.data
  | .text => printText field.id field.data
  | .property => printRead field.data Cursor.readNames fun (_, value) => Printer.sanitised value
  | .int8 | .publicKey | .mosaicCount => Printer.text (Bytes.ofText notImplemented)

/-- The value of a field as it fills a buffer. An empty text is shown as one space. -/
def value (field : Field) (network : Network) (buffer : Bytes) : Except DecodeError Bytes := do
  match ← (field.print network).run buffer with
  | [] => return [0x20]
  | shown => return shown

end Field

end NemSigner
