import NemSigner.Bytes.Basic
import NemSigner.Coded

/-!
# Messages between host and device

The host sends commands, each with an instruction, a parameter and some bytes of payload; the device
answers with bytes and a status word.

## Main definitions

- `ApduError` — why a message is refused
- `Instruction`, `StatusWord` — the numbers of commands and answers
- `Apdu.place` — a message as it fills a buffer
-/

namespace NemSigner

/-- Why a message cannot be written or read. -/
inductive ApduError
  /-- There are fewer bytes than the message needs. -/
  | invalidLength
  /-- The parts of the message contradict each other. -/
  | invalidEncoding
  /-- Bytes that have to be a text are not. -/
  | invalidText
  /-- The message is of a version that is not spoken. -/
  | invalidVersion
  deriving DecidableEq, Repr

def ApduError.name : ApduError → String
  | .invalidLength => "InvalidLength"
  | .invalidEncoding => "InvalidEncoding"
  | .invalidText => "InvalidUtf8"
  | .invalidVersion => "InvalidVersion"

/-- The commands that the device knows by number. -/
inductive Instruction
  | getPublicKey
  | sign
  | getRemoteAccount
  | getConfiguration
  deriving DecidableEq, Repr

instance : Coded Instruction where
  all := [.getPublicKey, .sign, .getRemoteAccount, .getConfiguration]
  name
    | .getPublicKey => "GetPublicKey"
    | .sign => "Sign"
    | .getRemoteAccount => "GetRemoteAccount"
    | .getConfiguration => "GetAppConfiguration"
  code
    | .getPublicKey => 0x02
    | .sign => 0x04
    | .getRemoteAccount => 0x05
    | .getConfiguration => 0x06

/-- The last two bytes of every answer. -/
inductive StatusWord
  | ok
  | wrongDataLength
  | securityStatusNotSatisfied
  | deny
  | incorrectData
  | invalidPath
  | invalidParameters
  | instructionNotSupported
  | classNotSupported
  | unknown
  deriving DecidableEq, Repr

namespace StatusWord

instance : Coded StatusWord where
  all := [.ok, .wrongDataLength, .securityStatusNotSatisfied, .deny, .incorrectData, .invalidPath,
    .invalidParameters, .instructionNotSupported, .classNotSupported, .unknown]
  name
    | .ok => "Ok"
    | .wrongDataLength => "WrongDataLength"
    | .securityStatusNotSatisfied => "SecurityStatusNotSatisfied"
    | .deny => "Deny"
    | .incorrectData => "IncorrectData"
    | .invalidPath => "InvalidPath"
    | .invalidParameters => "InvalidP1P2"
    | .instructionNotSupported => "InsNotSupported"
    | .classNotSupported => "ClaNotSupported"
    | .unknown => "Unknown"
  code
    | .ok => 0x9000
    | .wrongDataLength => 0x6700
    | .securityStatusNotSatisfied => 0x6982
    | .deny => 0x6985
    | .incorrectData => 0x6a80
    | .invalidPath => 0x6a81
    | .invalidParameters => 0x6b00
    | .instructionNotSupported => 0x6d00
    | .classNotSupported => 0x6e00
    | .unknown => 0x6f00

def number (status : StatusWord) : Nat :=
  Coded.code status

def encode (status : StatusWord) : Bytes :=
  [(status.number / 256).toUInt8, status.number.toUInt8]

/-- Whether a status word reports an error; those start with the digit six. -/
def isError (status : StatusWord) : Bool :=
  status.number / 0x1000 % 16 == 6

end StatusWord

namespace Apdu

/-- The class of every command to the signer. -/
def commandClass : Nat := 0xe0

/-- A message as it fills a buffer of `capacity` bytes: whole or not at all. -/
def place (capacity : Nat) (message : Bytes) : Except ApduError Bytes :=
  if message.length ≤ capacity then .ok message else .error .invalidLength

end Apdu

end NemSigner
