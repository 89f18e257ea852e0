import NemSigner.Apdu.SignRequest
import NemSigner.CommandLine.Arguments
import NemSigner.TestVector.Catalogue

/-!
# Outcomes of the command line

A command either shows some lines or fails with a message.

## Main definitions

- `CommandError` — why a command fails
- `Command.lines` — the lines that a command shows
- `Outcome`, `Command.run` — what a command leaves behind
-/

namespace NemSigner

/-- Why a command fails. -/
inductive CommandError
  /-- No test vector is named. -/
  | noSource
  /-- The test vector is of no use. -/
  | vector (error : TestVectorError)
  /-- The path is of a depth that the device cannot follow. -/
  | path (error : ApduError)
  /-- A chunk cannot be written. -/
  | chunk (error : ApduError)
  deriving DecidableEq, Repr

def CommandError.message : CommandError → String
  | .noSource => "vector name or --input required"
  | .vector error => error.message
  | .path error => "invalid path: " ++ error.name
  | .chunk error => "encode failed: " ++ error.name

/-- The contents of files by their paths; the reason if a file cannot be read. -/
abbrev Files := String → Except String String

/-- What a command leaves behind: an exit code, a text shown, and a text of complaint. -/
structure Outcome where
  code : Nat
  shown : String
  complaint : String
  deriving DecidableEq, Repr

namespace Source

def vector (files : Files) : Source → Except CommandError TestVector
  | missing => .error .noSource
  | catalogue name => (TestVector.find name).mapError .vector
  | file path =>
    match files path with
    | .ok text => (TestVector.ofText text).mapError .vector
    | .error reason => .error (.vector (.unreadable reason))

end Source

namespace Command

/-- The width of the column of names. -/
def nameWidth : Nat := 40

def listLine (vector : TestVector) : String :=
  vector.name ++ String.ofList (List.replicate (nameWidth - vector.name.length) ' ') ++ " " ++
    vector.description

/-- The room for one chunk. -/
def chunkCapacity : Nat := 256

/-- The line of one chunk: class, instruction and both parameters of the command, the length of its
payload and the payload. -/
def chunkLine (request : SignRequest) : Except CommandError String := do
  let payload ← (request.encode chunkCapacity).mapError .chunk
  return Hex.toText ([Apdu.commandClass.toUInt8, (Coded.code Instruction.sign).toUInt8,
    request.flags.toByte, 0x00, payload.length.toUInt8] ++ payload)

/-- The lines of the chunks of a test vector. The transaction is encoded before its path is looked
at. -/
def chunkLines (vector : TestVector) : Except CommandError (List String) := do
  let transaction ← vector.encode.mapError .vector
  let elements ← vector.elements.mapError .vector
  let path ← (DerivationPath.ofElements elements).mapError .path
  (SignRequest.chunks path transaction).mapM chunkLine

def fieldLine (field : String × String) : String :=
  field.1 ++ ": " ++ field.2

/-- The lines that a command shows. -/
def lines (files : Files) : Command → Except CommandError (List String)
  | list => .ok (TestVector.catalogue.map listLine)
  | encode source => do
    let vector ← source.vector files
    let transaction ← vector.encode.mapError .vector
    return [Hex.toText transaction]
  | apdus source => do
    chunkLines (← source.vector files)
  | fields source => do
    return (← source.vector files).fields.map fieldLine

/-- The text of lines, each with its end. -/
def textOfLines (lines : List String) : String :=
  String.join (lines.map (· ++ "\n"))

def run (files : Files) (command : Command) : Outcome :=
  match command.lines files with
  | .ok lines => ⟨0, textOfLines lines, ""⟩
  | .error error => ⟨1, "", "Error: " ++ error.message ++ "\n"⟩

/-- How the command line is used. -/
def usage : String :=
  "usage: [--log-level LEVEL] list\n" ++
  "       [--log-level LEVEL] encode|apdus|fields [NAME | --input FILE]\n"

/-- What arguments leave behind; they are used wrongly if they give no command. -/
def runArguments (files : Files) (arguments : List String) : Outcome :=
  match ofArguments? arguments with
  | some command => command.run files
  | none => ⟨2, "", usage⟩

end Command

end NemSigner
