import NemSigner.Field.Label
import NemSigner.Field.Value
import NemSigner.Session.Event
import NemSigner.Transaction.Decode

/-!
# Signing sessions

A session puts a transaction together from chunks, decodes it, holds it while the user looks at its
fields, and has it signed when the user agrees. Any failure, and any decision of the user, forgets
everything.

## Main definitions

- `Session` — idle, receiving chunks, or waiting for the user
- `Session.update` — what an event does
- `Session.fields`, `Session.render` — what the user looks at
- `Session.approve`, `Session.reject`, `Session.reset` — how a session ends

## Design notes

The key never comes near a session. What is to be signed is handed out as a `SigningJob`, and the
signature comes back from a function that stands for the key store. An approval names the job it
handed out, so that it can be said which bytes were signed and under which path.
-/

namespace NemSigner

/-- A transaction, whole or in part, the path of the key to sign it with, and the network that the
path selects. -/
structure Draft where
  path : DerivationPath
  network : Network
  data : Bytes
  deriving DecidableEq, Repr

/-- What a session remembers. -/
inductive Session
  | idle
  /-- Some chunks are there and more have to follow. -/
  | receiving (draft : Draft)
  /-- The transaction is complete and can be decoded; the user decides. -/
  | reviewing (draft : Draft)
  deriving DecidableEq, Repr

/-- What a session is doing. -/
inductive SessionState
  | idle
  | waitingForMore
  | pendingReview
  deriving DecidableEq, Repr

instance : Coded SessionState where
  all := [.idle, .waitingForMore, .pendingReview]
  name
    | .idle => "Idle"
    | .waitingForMore => "WaitingForMore"
    | .pendingReview => "PendingReview"
  code
    | .idle => 0
    | .waitingForMore => 1
    | .pendingReview => 2

/-- What the key store is asked to sign. -/
structure SigningJob where
  path : DerivationPath
  algorithm : Algorithm
  message : Bytes
  deriving DecidableEq, Repr

/-- The key store: it gives a signature or fails. -/
abbrev Signer := SigningJob → Option Signature

/-- What an approval leads to. -/
structure Approval where
  /-- The answer to the host. -/
  answer : Except SessionError Output
  /-- What the key store was asked to sign, if it was asked. -/
  signed : Option SigningJob
  /-- The session afterwards. -/
  session : Session

namespace Session

def state : Session → SessionState
  | idle => .idle
  | receiving _ => .waitingForMore
  | reviewing _ => .pendingReview

def draft? : Session → Option Draft
  | idle => none
  | receiving draft | reviewing draft => some draft

def network? (session : Session) : Option Network :=
  session.draft?.map Draft.network

/-- The bytes received so far. -/
def data (session : Session) : Bytes :=
  match session.draft? with
  | some draft => draft.data
  | none => []

/-- What the device says about itself. -/
def configuration : AppConfig :=
  let (major, minor, patch) := Limits.version
  ⟨⟨false⟩, major.toUInt8, minor.toUInt8, patch.toUInt8⟩

/-- Adds a chunk to a draft. The draft must not get too long, and when no more chunks follow it has
to be a transaction. -/
def extend (draft : Draft) (data : Bytes) (more : Bool) : Except SessionError (Output × Session) :=
  let longer := { draft with data := draft.data ++ data }
  if Limits.maxTransactionLength < longer.data.length then .error .invalidLength
  -- Data is decoded only when it is complete.
  else if more then .ok (.accepted, receiving longer)
  else
    match Transaction.decode longer.data with
    | .ok _ => .ok (.pending, reviewing longer)
    | .error _ => .error .incorrectData

/-- What an event does when nothing fails. -/
def handle (session : Session) (event : Event) : Except SessionError (Output × Session) :=
  match session, event with
  -- The question is answered in every state, and it ends what was going on.
  | _, .getConfiguration => .ok (.configuration configuration, idle)
  | idle, .signInit path more data =>
    match path.network? with
    | some network => extend ⟨path, network, []⟩ data more
    | none => .error .incorrectData
  | receiving draft, .signContinue more data => extend draft data more
  | _, _ => .error .unexpectedEvent

/-- What an event does. A failure ends the session. -/
def update (session : Session) (event : Event) : Except SessionError Output × Session :=
  match session.handle event with
  | .ok (output, next) => (.ok output, next)
  | .error error => (.error error, idle)

def fields : Session → Except SessionError FieldTable
  | reviewing draft => (Transaction.decode draft.data).mapError SessionError.ofDecode
  | idle | receiving _ => .error .invalidState

/-- Label and value of the review field at a position, as they fill two buffers. -/
def render (session : Session) (index : Nat) (labelBuffer valueBuffer : Bytes) :
    Except SessionError (Bytes × Bytes) :=
  match session.network? with
  | none => .error .invalidState
  | some network => do
    let table ← session.fields
    let field ← (table.get index).mapError SessionError.ofDecode
    let value ← (field.value network valueBuffer).mapError SessionError.ofDecode
    return (field.label labelBuffer, value)

/-- What the key store would be asked to sign. -/
def job? : Session → Option SigningJob
  | reviewing draft => some ⟨draft.path, draft.network.algorithm, draft.data⟩
  | idle | receiving _ => none

/-- The user agrees: the key store is asked once, and the session ends whatever it answers. -/
def approve (session : Session) (signer : Signer) : Approval :=
  match session.job? with
  | none => ⟨.error .invalidState, none, idle⟩
  | some job =>
    match signer job with
    | some signature => ⟨.ok (.signature signature), some job, idle⟩
    | none => ⟨.error .signingFailed, some job, idle⟩

/-- The user refuses: the session ends with an error, which says whether there was something to
refuse. -/
def reject (session : Session) : Except SessionError Output × Session :=
  match session with
  | reviewing _ => (.error .rejected, idle)
  | idle | receiving _ => (.error .invalidState, idle)

/-- The session that has forgotten everything. -/
def reset (_ : Session) : Session :=
  idle

end Session

end NemSigner
