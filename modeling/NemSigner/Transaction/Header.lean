import NemSigner.Cursor.Basic
import NemSigner.Limits
import NemSigner.Transaction.Decoder
import NemSigner.Transaction.Kind

/-!
# Transaction headers

Every transaction, also one inside another, starts with the same header of sixty bytes.

## Main definitions

- `Header` — the header
- `Header.encode`, `Header.read` — its written form, and the reading of it
- `Header.kind` — the kind that the type number stands for
-/

namespace NemSigner

/-- What every transaction starts with. -/
structure Header where
  typeNumber : UInt32
  version : UInt8
  reserved : UInt16
  network : UInt8
  timestamp : UInt32
  signer : Bytes
  fee : UInt64
  deadline : UInt32
  deriving DecidableEq, Repr

namespace Header

def typeBytes (header : Header) : Bytes :=
  Bytes.ofNatLE 4 header.typeNumber.toNat

def feeBytes (header : Header) : Bytes :=
  Bytes.ofNatLE 8 header.fee.toNat

def encode (header : Header) : Bytes :=
  header.typeBytes ++ Bytes.ofNatLE 1 header.version.toNat ++
  Bytes.ofNatLE 2 header.reserved.toNat ++ Bytes.ofNatLE 1 header.network.toNat ++
  Bytes.ofNatLE 4 header.timestamp.toNat ++ Bytes.ofNatLE 4 header.signer.length ++ header.signer ++
  header.feeBytes ++ Bytes.ofNatLE 4 header.deadline.toNat

/-- Reads a header. All its bytes are read before the length of the key and the version, which is
one or two, are looked at. -/
def read : Cursor.Reading Header := do
  let typeNumber ← Cursor.readUInt 4
  let version ← Cursor.readUInt 1
  let reserved ← Cursor.readUInt 2
  let network ← Cursor.readUInt 1
  let timestamp ← Cursor.readUInt 4
  let keyLength ← Cursor.readLength
  let signer ← Cursor.readBytes Limits.publicKeyLength
  let fee ← Cursor.readUInt 8
  let deadline ← Cursor.readUInt 4
  if keyLength ≠ Limits.publicKeyLength then throw .invalidData
  if version ≠ 1 ∧ version ≠ 2 then throw .invalidData
  return {
    typeNumber := typeNumber.toUInt32
    version := version.toUInt8
    reserved := reserved.toUInt16
    network := network.toUInt8
    timestamp := timestamp.toUInt32
    signer
    fee := fee.toUInt64
    deadline := deadline.toUInt32 }

/-- The kind that the type number stands for. -/
def kind (header : Header) : Except DecodeError TransactionKind :=
  match Coded.ofCode? header.typeNumber.toNat with
  | some kind => .ok kind
  | none => .error .invalidData

def feeField (header : Header) : Field :=
  ⟨.fee, .xem, header.feeBytes⟩

def emitFee (header : Header) : Decoder Unit :=
  Decoder.emit .fee .xem header.feeBytes

end Header

end NemSigner
