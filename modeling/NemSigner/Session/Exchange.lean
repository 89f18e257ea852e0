import NemSigner.Session.Basic

/-!
# Exchanges with a session

The host talks to a session in commands, one after the other, and stops at the first error.

## Main definitions

- `Session.command` — what a command does to a session
- `Session.runUntilError` — a sequence of steps up to the first error
- `Session.exchange` — the chunks of a transaction, sent as commands
-/

namespace NemSigner

namespace Session

/-- The answer to the host, and the session afterwards. -/
abbrev Step := Except SessionError Output × Session

/-- What a command does. One that is no event does not reach the session. -/
def command (session : Session) (instruction parameter : UInt8) (data : Bytes) : Step :=
  match Event.ofCommand instruction parameter data with
  | .ok event => session.update event
  | .error error => (.error error, session)

/-- Sends a chunk as a command. -/
def receive (session : Session) (request : SignRequest) : Step :=
  session.command (Coded.code Instruction.sign).toUInt8 request.flags.toByte request.toBytes

/-- Takes step after step up to the first error; the answers and the session afterwards. -/
def runUntilError {α : Type} (step : Session → α → Step) (session : Session) :
    List α → List (Except SessionError Output) × Session
  | [] => ([], session)
  | item :: rest =>
    match step session item with
    | (.error error, next) => ([.error error], next)
    | (.ok output, next) =>
      let (answers, last) := runUntilError step next rest
      (.ok output :: answers, last)

/-- Sends chunks as commands. -/
def exchange (session : Session) (requests : List SignRequest) :
    List (Except SessionError Output) × Session :=
  session.runUntilError receive requests

end Session

end NemSigner
