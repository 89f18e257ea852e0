import NemSigner.Apdu.Response
import NemSigner.Apdu.SignRequest
import NemSigner.DecodeError

/-!
# Events and outputs of a session

The device turns commands into events, gives them to a session and answers with what comes out.

## Main definitions

- `SessionError` — why a session stops, with its wording and its status word
- `Event`, `Event.ofCommand` — what can happen to a session, and the reading of a command
- `Output`, `Output.encode` — what a session answers, and its written form
-/

namespace NemSigner

/-- Why a session stops. -/
inductive SessionError
  | incorrectData
  | invalidLength
  | invalidPath
  | unexpectedEvent
  | invalidState
  | rejected
  | signingFailed
  | instructionNotSupported
  deriving DecidableEq, Repr

namespace SessionError

def message : SessionError → String
  | .incorrectData => "incorrect data"
  | .invalidLength => "Invalid argument length"
  | .invalidPath => "invalid derivation path"
  | .unexpectedEvent => "Unexpected event"
  | .invalidState => "invalid engine state"
  | .rejected => "transaction rejected"
  | .signingFailed => "Signing error"
  | .instructionNotSupported => "instruction not supported"

/-- The status word that the host sees. -/
def status : SessionError → StatusWord
  | .incorrectData | .unexpectedEvent | .invalidState => .incorrectData
  | .invalidLength => .wrongDataLength
  | .invalidPath => .invalidPath
  | .rejected => .deny
  | .signingFailed => .unknown
  | .instructionNotSupported => .instructionNotSupported

/-- Missing bytes of a message are reported as such, every other fault of it as incorrect data. -/
def ofApdu : ApduError → SessionError
  | .invalidLength => .invalidLength
  | .invalidEncoding | .invalidText | .invalidVersion => .incorrectData

/-- The host does not learn why a transaction cannot be decoded. -/
def ofDecode (_ : DecodeError) : SessionError :=
  .incorrectData

end SessionError

/-- What can happen to a session from outside. -/
inductive Event
  /-- Nothing; a session does not expect to be told so. -/
  | nothing
  /-- The first chunk of a transaction, with the path of the key to sign with. -/
  | signInit (path : DerivationPath) (more : Bool) (data : Bytes)
  /-- A further chunk. -/
  | signContinue (more : Bool) (data : Bytes)
  /-- The question what the device says about itself. -/
  | getConfiguration
  deriving DecidableEq, Repr

namespace Event

/-- A signing request as an event. -/
def ofSignRequest (request : SignRequest) : Event :=
  match request.path with
  | some path => .signInit path request.flags.more request.data
  | none => .signContinue request.flags.more request.data

/-- The event of a command. A path of impossible depth is reported as such, but only for a first
chunk. -/
def ofCommand (instruction parameter : UInt8) (data : Bytes) : Except SessionError Event :=
  match (Coded.ofCode? instruction.toNat : Option Instruction) with
  | some .sign =>
    match SignRequest.decode parameter data with
    | .ok (request, _) => .ok (ofSignRequest request)
    | .error .invalidEncoding =>
      if (SignFlags.ofByte parameter).isFirst then .error .invalidPath
      else .error (SessionError.ofApdu .invalidEncoding)
    | .error error => .error (SessionError.ofApdu error)
  | some .getConfiguration =>
    match ConfigRequest.decode data with
    | .ok _ => .ok .getConfiguration
    | .error error => .error (SessionError.ofApdu error)
  | _ => .error .instructionNotSupported

end Event

/-- What a session answers. -/
inductive Output
  | nothing
  /-- The chunk is taken, more have to follow. -/
  | accepted
  /-- The transaction is complete; the answer waits for the user. -/
  | pending
  | signature (signature : Signature)
  | configuration (config : AppConfig)
  deriving DecidableEq, Repr

def Output.encode (capacity : Nat) : Output → Except ApduError Bytes
  | .nothing | .accepted | .pending => Apdu.place capacity []
  | .signature value => value.encode capacity
  | .configuration config => config.encode capacity

end NemSigner
