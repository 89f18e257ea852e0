import NemSigner.Bytes.Basic
import NemSigner.Coded
import NemSigner.DecodeError

/-!
# Review fields

A decoded transaction is reviewed field by field. A field carries an identifier, which says what it
means, a data type, which says how its bytes are to be read, and the bytes themselves, exactly as
they stand in the transaction.

## Main definitions

- `FieldId` — the meanings
- `DataType` — the readings; some of them fix the number of bytes
- `Field`, `Field.make?` — a field, and the check that its bytes fit its type
-/

namespace NemSigner

/-- What a field means. -/
inductive FieldId
  | transactionType
  | innerTransactionType
  | modificationType
  | relativeChange
  | cosignatoryCount
  | importanceMode
  | mosaicCount
  | levyFeeType
  | detailTransactionType
  | fee
  | multisigFee
  | duration
  | rentalFee
  | levyFee
  | remoteKey
  | cosignatoryKey
  | recipient
  | plainMessage
  | encryptedMessage
  | multisigAddress
  | namespaceName
  | parentNamespace
  | rootNamespace
  | sinkAddress
  | mosaicName
  | description
  | property
  | levyMosaic
  | levyAddress
  | transferMosaic
  | transactionHash
  | mosaicAmount
  | mosaicUnits
  | supplyCreated
  | supplyDeleted
  | unknownMosaic
  deriving DecidableEq, Repr

/-- How the bytes of a field are to be read. -/
inductive DataType
  | int8
  | uint8
  | uint16
  | uint32
  | uint64
  | hash256
  | publicKey
  | text
  /-- An amount in millionths of a XEM. -/
  | xem
  | mosaicCount
  /-- An amount in the smallest unit of a mosaic. -/
  | mosaicQuantity
  | message
  | address
  /-- A name and a value, each with its length in front. -/
  | property
  deriving DecidableEq, Repr

instance : Coded FieldId where
  all := [.transactionType, .innerTransactionType, .modificationType, .relativeChange,
    .cosignatoryCount, .importanceMode, .mosaicCount, .levyFeeType, .detailTransactionType, .fee,
    .multisigFee, .duration, .rentalFee, .levyFee, .remoteKey, .cosignatoryKey, .recipient,
    .plainMessage, .encryptedMessage, .multisigAddress, .namespaceName, .parentNamespace,
    .rootNamespace, .sinkAddress, .mosaicName, .description, .property, .levyMosaic, .levyAddress,
    .transferMosaic, .transactionHash, .mosaicAmount, .mosaicUnits, .supplyCreated, .supplyDeleted,
    .unknownMosaic]
  name
    | .transactionType => "TransactionType"
    | .innerTransactionType => "InnerTransactionType"
    | .modificationType => "AmModificationType"
    | .relativeChange => "AmRelativeChange"
    | .cosignatoryCount => "AmCosignatoryNum"
    | .importanceMode => "ItMode"
    | .mosaicCount => "MosaicCount"
    | .levyFeeType => "LevyFeeType"
    | .detailTransactionType => "DetailTransactionType"
    | .fee => "TxnFee"
    | .multisigFee => "MultisigFee"
    | .duration => "Duration"
    | .rentalFee => "RentalFee"
    | .levyFee => "LevyFee"
    | .remoteKey => "ItRemote"
    | .cosignatoryKey => "AmCosignatory"
    | .recipient => "RecipientAddress"
    | .plainMessage => "TxnMessage"
    | .encryptedMessage => "EncMessage"
    | .multisigAddress => "MultisigAddress"
    | .namespaceName => "Namespace"
    | .parentNamespace => "ParentNamespace"
    | .rootNamespace => "RootNamespace"
    | .sinkAddress => "SinkAddress"
    | .mosaicName => "Mosaic"
    | .description => "Description"
    | .property => "Property"
    | .levyMosaic => "LevyMosaic"
    | .levyAddress => "LevyAddress"
    | .transferMosaic => "TransferMosaic"
    | .transactionHash => "Hash256"
    | .mosaicAmount => "MosaicAmount"
    | .mosaicUnits => "MosaicUnits"
    | .supplyCreated => "CreateSupplyDelta"
    | .supplyDeleted => "DeleteSupplyDelta"
    | .unknownMosaic => "MosaicUnknownType"
  code
    | .transactionType => 0x30
    | .innerTransactionType => 0x31
    | .modificationType => 0x32
    | .relativeChange => 0x33
    | .cosignatoryCount => 0x34
    | .importanceMode => 0x35
    | .mosaicCount => 0x36
    | .levyFeeType => 0x37
    | .detailTransactionType => 0x39
    | .fee => 0x70
    | .multisigFee => 0x71
    | .duration => 0x72
    | .rentalFee => 0x73
    | .levyFee => 0x74
    | .remoteKey => 0x80
    | .cosignatoryKey => 0x81
    | .recipient => 0x90
    | .plainMessage => 0x91
    | .encryptedMessage => 0x92
    | .multisigAddress => 0x93
    | .namespaceName => 0x94
    | .parentNamespace => 0x95
    | .rootNamespace => 0x96
    | .sinkAddress => 0x97
    | .mosaicName => 0x98
    | .description => 0x99
    | .property => 0x9a
    | .levyMosaic => 0x9b
    | .levyAddress => 0x9c
    | .transferMosaic => 0x9d
    | .transactionHash => 0xb0
    | .mosaicAmount => 0xd0
    | .mosaicUnits => 0xd1
    | .supplyCreated => 0xd2
    | .supplyDeleted => 0xd3
    | .unknownMosaic => 0xd4

instance : Coded DataType where
  all := [.int8, .uint8, .uint16, .uint32, .uint64, .hash256, .publicKey, .text, .xem, .mosaicCount,
    .mosaicQuantity, .message, .address, .property]
  name
    | .int8 => "Int8"
    | .uint8 => "Uint8"
    | .uint16 => "Uint16"
    | .uint32 => "Uint32"
    | .uint64 => "Uint64"
    | .hash256 => "Hash256"
    | .publicKey => "PublicKey"
    | .text => "Str"
    | .xem => "Nem"
    | .mosaicCount => "MosaicCount"
    | .mosaicQuantity => "MosaicCurrency"
    | .message => "Message"
    | .address => "Address"
    | .property => "Property"
  code
    | .int8 => 0x01
    | .uint8 => 0x02
    | .uint16 => 0x03
    | .uint32 => 0x04
    | .uint64 => 0x05
    | .hash256 => 0x06
    | .publicKey => 0x07
    | .text => 0x17
    | .xem => 0xa0
    | .mosaicCount => 0xa1
    | .mosaicQuantity => 0xa2
    | .message => 0xa3
    | .address => 0xa4
    | .property => 0xa5

/-- The number of bytes that a data type asks for, none for a type of any length. -/
def DataType.fixedLength : DataType → Option Nat
  | .int8 | .uint8 => some 1
  | .uint16 => some 2
  | .uint32 | .mosaicCount => some 4
  | .uint64 | .xem | .mosaicQuantity => some 8
  | .hash256 | .publicKey => some 32
  | .text | .message | .address | .property => none

/-- One item of a transaction that is shown for review. -/
structure Field where
  id : FieldId
  type : DataType
  data : Bytes
  deriving DecidableEq, Repr

/-- Whether the bytes of a field are as many as its type asks for. -/
def Field.fits (field : Field) : Bool :=
  match field.type.fixedLength with
  | some length => field.data.length == length
  | none => true

/-- The field of an identifier, a type and bytes, refused when the bytes do not fit the type. -/
def Field.make? (id : FieldId) (type : DataType) (data : Bytes) : Except DecodeError Field :=
  let field : Field := ⟨id, type, data⟩
  if field.fits then .ok field else .error .invalidData

end NemSigner
