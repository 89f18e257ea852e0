import NemSigner.DerivationPath.Text
import NemSigner.Descriptor.Encode
import NemSigner.Descriptor.Json

/-!
# Test vectors

A test vector is a transaction to be signed, the path of the key to sign it with, and what the
screen is expected to show.

## Main definitions

- `TestVector` — a test vector
- `TestVectorError` — why a test vector is of no use
- `TestVector.encode`, `TestVector.elements` — the transaction and the path in the form that is sent
- `TestVector.toJson`, `TestVector.ofJson` — its value in JSON, and the reading of it
-/

namespace NemSigner

open Json (Value Record)

/-- A transaction, the path of a key, and the labels and values that are expected on the screen. -/
structure TestVector where
  name : String
  description : String
  path : String
  transaction : Descriptor
  fields : List (String × String)
  deriving DecidableEq, Repr

/-- Why a test vector is of no use. -/
inductive TestVectorError
  /-- The transaction cannot be encoded. -/
  | descriptor (error : DescriptorError)
  /-- A text is no derivation path. -/
  | path (text : String)
  /-- There is no vector of a name. -/
  | unknown (name : String)
  /-- A text is not the JSON of a vector. -/
  | json
  /-- A file cannot be read. -/
  | unreadable (reason : String)
  deriving DecidableEq, Repr

def TestVectorError.message : TestVectorError → String
  | .descriptor error => error.message
  | .path text => "invalid derivation path: " ++ text
  | .unknown name => "unknown vector: " ++ name
  | .json => "json decode error"
  | .unreadable reason => "io error: " ++ reason

namespace TestVector

/-- The path of the first account on the test network. -/
def usualPath : String := "m/44'/43'/152'/0'/0'"

/-- The elements of a path that is given as text. -/
def elementsOfText (text : String) : Except TestVectorError (List UInt32) :=
  match PathText.parse? text with
  | some elements => .ok elements
  | none => .error (.path text)

def encode (vector : TestVector) : Except TestVectorError Bytes :=
  match vector.transaction.encode with
  | .ok bytes => .ok bytes
  | .error error => .error (.descriptor error)

def elements (vector : TestVector) : Except TestVectorError (List UInt32) :=
  elementsOfText vector.path

def fieldNames : List String := ["name", "description", "path", "tx", "fields"]

def fieldToJson (field : String × String) : Value :=
  .array [.ofText field.1, .ofText field.2]

def fieldOfJson : Value → Option (String × String)
  | .array [label, value] => do return (← label.text?, ← value.text?)
  | _ => none

def toJson (vector : TestVector) : Value :=
  .ofRecord [
    ("name", .ofText vector.name),
    ("description", .ofText vector.description),
    ("path", .ofText vector.path),
    ("tx", vector.transaction.toJson),
    ("fields", .ofList fieldToJson vector.fields)]

/-- The test vector that a value gives; usually it has no description. -/
def ofJson (value : Value) : Option TestVector := do
  let record ← value.record? fieldNames
  let name ← record.required "name" Value.text?
  let description ← record.withDefault "description" "" Value.text?
  let path ← record.required "path" Value.text?
  let transaction ← record.required "tx" Descriptor.ofJson
  let fields ← record.required "fields" (Value.list? fieldOfJson)
  return { name, description, path, transaction, fields }

def hasSoundBody (value : Value) : Bool :=
  match (value.record? fieldNames).bind fun record => record.find? "tx" with
  | some transaction => Descriptor.hasSoundBody 1 transaction
  | none => false

def ofText (text : String) : Except TestVectorError TestVector :=
  match (Json.parse text).bind fun value => if hasSoundBody value then ofJson value else none with
  | some vector => .ok vector
  | none => .error .json

end TestVector

end NemSigner
