/-!
# Arguments of the command line

An argument that starts with a hyphen is an option, except for a hyphen alone. The value of an
option follows as the next argument or behind an equals sign. Two hyphens alone end the options.

## Main definitions

- `Argument` — what an argument is
- `Source`, `Source.ofArguments?` — where a command takes its test vector from
- `Command`, `Command.ofArguments?` — the command that arguments give
-/

namespace NemSigner

/-- What an argument is. -/
inductive Argument
  | value (text : String)
  | option (name : String) (attached : Option String)
  | endOfOptions
  deriving DecidableEq, Repr

/-- Where a command takes its test vector from. -/
inductive Source
  | missing
  | catalogue (name : String)
  | file (path : String)
  deriving DecidableEq, Repr

/-- The commands. -/
inductive Command
  /-- Lists the test vectors of the catalogue. -/
  | list
  /-- Shows the written form of a transaction. -/
  | encode (source : Source)
  /-- Shows the messages that have a transaction signed. -/
  | apdus (source : Source)
  /-- Shows what is expected on the screen. -/
  | fields (source : Source)
  deriving DecidableEq, Repr

namespace Argument

/-- An option, with the value behind the first equals sign if there is one. -/
def ofOption (text : List Char) : Argument :=
  let name := String.ofList (text.takeWhile (· ≠ '='))
  match text.dropWhile (· ≠ '=') with
  | [] => .option name none
  | _ :: attached => .option name (some (String.ofList attached))

/-- What a text is as an argument. -/
def ofText (text : String) : Argument :=
  match text.toList with
  | ['-', '-'] => .endOfOptions
  | '-' :: second :: rest => ofOption ('-' :: second :: rest)
  | _ => .value text

end Argument

namespace Source

/-- What has been found while the arguments of a command are read. -/
structure Reading where
  name : Option String
  input : Option String
  /-- An option stands in front whose value is still to come. -/
  awaitsInput : Bool
  /-- All that follows are values. -/
  optionsEnded : Bool
  deriving DecidableEq, Repr

namespace Reading

def start : Reading := ⟨none, none, false, false⟩

/-- A name is found, of which there is at most one. -/
def withName (reading : Reading) (text : String) : Option Reading :=
  if reading.name.isSome then none else some { reading with name := some text }

/-- One more argument is read. -/
def step (reading : Reading) (argument : String) : Option Reading :=
  if reading.optionsEnded then reading.withName argument
  else
    match Argument.ofText argument with
    | .endOfOptions => some { reading with optionsEnded := true }
    | .value text =>
      if reading.awaitsInput then some { reading with input := some text, awaitsInput := false }
      else reading.withName text
    | .option "--input" attached =>
      if reading.input.isSome || reading.awaitsInput then none
      else match attached with
        | some text => some { reading with input := some text }
        | none => some { reading with awaitsInput := true }
    | .option _ _ => none

/-- The source that is found in the end. A name and a file exclude each other. -/
def finish (reading : Reading) : Option Source :=
  if reading.awaitsInput then none
  else match reading.name, reading.input with
    | none, none => some .missing
    | some name, none => some (.catalogue name)
    | none, some path => some (.file path)
    | some _, some _ => none

end Reading

/-- The source that the arguments of a command give. -/
def ofArguments? (arguments : List String) : Option Source := do
  (← arguments.foldlM Reading.step Reading.start).finish

end Source

namespace Command

/-- The levels of logging. -/
def logLevels : List String := ["off", "error", "warn", "info", "debug", "trace"]

/-- Whether a text names a level of logging, in letters of either case. -/
def isLogLevel (text : String) : Bool :=
  logLevels.contains (String.ofList (text.toList.map Char.toLower))

/-- The arguments behind a level of logging, if one is in front. -/
def skipLogLevel : List String → Option (List String)
  | "--log-level" :: level :: rest => if isLogLevel level then some rest else none
  | argument :: rest =>
    match Argument.ofText argument with
    | .option "--log-level" (some level) => if isLogLevel level then some rest else none
    | _ => some (argument :: rest)
  | [] => some []

/-- The command that arguments give; what they give otherwise is a mistake in their use. -/
def ofArguments? (arguments : List String) : Option Command := do
  match ← skipLogLevel arguments with
  | "list" :: rest => if ← (Source.ofArguments? rest).map (· == .missing) then some .list else none
  | "encode" :: rest => return .encode (← Source.ofArguments? rest)
  | "apdus" :: rest => return .apdus (← Source.ofArguments? rest)
  | "fields" :: rest => return .fields (← Source.ofArguments? rest)
  | _ => none

/-- The source of the test vector that a command is about. -/
def source? : Command → Option Source
  | list => none
  | encode source => some source
  | apdus source => some source
  | fields source => some source

end Command

end NemSigner
