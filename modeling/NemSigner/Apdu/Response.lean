import NemSigner.Apdu.Basic
import NemSigner.Limits

/-!
# Answers

The device answers a signed transaction with a signature of sixty-four bytes, and a question about
itself with its flags and its version in four bytes.

## Main definitions

- `Signature`, `Signature.encode`, `Signature.decode` — signatures
- `AppFlags`, `AppConfig` — what the device says about itself
-/

namespace NemSigner

/-- A signature of sixty-four bytes. -/
structure Signature where
  bytes : Bytes
  length_eq : bytes.length = Limits.signatureLength
  deriving DecidableEq, Repr

namespace Signature

/-- The signature made of the given bytes, if they are as many as a signature has. -/
def ofBytes? (bytes : Bytes) : Option Signature :=
  if fits : bytes.length = Limits.signatureLength then some ⟨bytes, fits⟩ else none

def encode (capacity : Nat) (signature : Signature) : Except ApduError Bytes :=
  Apdu.place capacity signature.bytes

def decode (data : Bytes) : Except ApduError (Signature × Nat) :=
  match ofBytes? (data.take Limits.signatureLength) with
  | some signature => .ok (signature, Limits.signatureLength)
  | none => .error .invalidLength

end Signature

/-- What the device allows. -/
structure AppFlags where
  /-- Whether transactions that cannot be shown are signed, which is never so. -/
  blindSigning : Bool
  deriving DecidableEq, Repr

namespace AppFlags

/-- The bit of blind signing. -/
def blindSigningBit : UInt8 := 0x01

/-- The known bit of a byte; all others are passed over. -/
def ofByte (byte : UInt8) : AppFlags :=
  ⟨byte &&& blindSigningBit ≠ 0⟩

def toByte (flags : AppFlags) : UInt8 :=
  if flags.blindSigning then blindSigningBit else 0

def encode (capacity : Nat) (flags : AppFlags) : Except ApduError Bytes :=
  Apdu.place capacity [flags.toByte]

def decode : Bytes → Except ApduError (AppFlags × Nat)
  | [] => .error .invalidLength
  | byte :: _ => .ok (ofByte byte, 1)

end AppFlags

/-- What the device says about itself. -/
structure AppConfig where
  flags : AppFlags
  major : UInt8
  minor : UInt8
  patch : UInt8
  deriving DecidableEq, Repr

namespace AppConfig

def toBytes (config : AppConfig) : Bytes :=
  [config.flags.toByte, config.major, config.minor, config.patch]

def encode (capacity : Nat) (config : AppConfig) : Except ApduError Bytes :=
  Apdu.place capacity config.toBytes

def decode : Bytes → Except ApduError (AppConfig × Nat)
  | flags :: major :: minor :: patch :: _ => .ok (⟨AppFlags.ofByte flags, major, minor, patch⟩, 4)
  | _ => .error .invalidLength

end AppConfig

/-- The question that a configuration answers; it has no content. -/
structure ConfigRequest where
  deriving DecidableEq, Repr

namespace ConfigRequest

def encode (capacity : Nat) (_ : ConfigRequest) : Except ApduError Bytes :=
  Apdu.place capacity []

/-- Reads the question, which takes up no bytes, from any byte string. -/
def decode (_ : Bytes) : Except ApduError (ConfigRequest × Nat) :=
  .ok ({}, 0)

end ConfigRequest

end NemSigner
