import NemSigner.Session.History

/-!
# Transcripts of a session

A transcript notes, request by request, what was asked of a session, what it answered, and what the
key store was asked to sign. Besides the operations that change a session it notes the looks that
do not.

## Main definitions

- `KeyStore` — a signer with a memory of its own
- `Look`, `Request`, `Reply` — what can be asked of a session, and what comes back
- `Entry`, `transcript` — one note, and the notes of a whole run
- `Event.unfinished`, `Event.delivery` — the events that send the chunks of a transaction
- `Delivers` — the entries in which a whole transaction is sent and taken

## Design notes

The memory of the key store is threaded through a run, so a statement about every key store covers
those that answer the same job differently at different times.
-/

namespace NemSigner

/-- A key store with a memory: what it was asked before can change what it answers. -/
abbrev KeyStore (Memory : Type) := Memory → SigningJob → Option Signature × Memory

/-- What can be looked at without changing a session. -/
inductive Look
  /-- The review fields. -/
  | fields
  /-- Label and value of the review field at a position, as they fill two buffers. -/
  | render (index : Nat) (labelBuffer valueBuffer : Bytes)
  /-- The bytes received so far. -/
  | data
  deriving DecidableEq, Repr

/-- What can be asked of a session. -/
inductive Request
  | change (operation : Operation)
  | look (look : Look)
  deriving DecidableEq, Repr

/-- What comes back from a session. -/
inductive Reply
  | done
  | output (answer : Except SessionError Output)
  | fields (answer : Except SessionError FieldTable)
  | rendering (answer : Except SessionError (Bytes × Bytes))
  | data (bytes : Bytes)

/-- One note of a transcript. -/
structure Entry where
  request : Request
  reply : Reply
  /-- What the key store was asked to sign, if it was asked. -/
  signed : Option SigningJob

/-- Label and value of the field at a position of a table. -/
def FieldTable.render (table : FieldTable) (network : Network) (index : Nat)
    (labelBuffer valueBuffer : Bytes) : Except SessionError (Bytes × Bytes) := do
  let field ← (table.get index).mapError SessionError.ofDecode
  let value ← (field.value network valueBuffer).mapError SessionError.ofDecode
  return (field.label labelBuffer, value)

/-- What a look shows of a transaction, its review fields and the network it is for. -/
def Look.shows (table : FieldTable) (network : Network) (transaction : Bytes) : Look → Reply
  | .fields => .fields (.ok table)
  | .render index labelBuffer valueBuffer =>
    .rendering (table.render network index labelBuffer valueBuffer)
  | .data => .data transaction

namespace Session

/-- What a look at a session shows. -/
def see (session : Session) : Look → Reply
  | .fields => .fields session.fields
  | .render index labelBuffer valueBuffer =>
    .rendering (session.render index labelBuffer valueBuffer)
  | .data => .data session.data

/-- What a session answers to an operation. -/
def answer (signer : Signer) (session : Session) : Operation → Reply
  | .update event => .output (session.update event).1
  | .approve => .output (session.approve signer).answer
  | .reject => .output session.reject.1
  | .reset => .done

end Session

/-- A session and the key store that it uses, as the store remembers what it was asked. -/
structure Station (Memory : Type) where
  session : Session
  memory : Memory

namespace Station

variable {Memory : Type}

/-- The key store at its present state of memory. -/
def signer (store : KeyStore Memory) (station : Station Memory) : Signer :=
  fun job => (store station.memory job).1

/-- What the key store remembers after it was asked, or was not asked, to sign. -/
def remember (store : KeyStore Memory) (station : Station Memory) : Option SigningJob → Memory
  | some job => (store station.memory job).2
  | none => station.memory

/-- One request: the note of it, and the station afterwards. -/
def serve (store : KeyStore Memory) (station : Station Memory) :
    Request → Entry × Station Memory
  | .look look => (⟨.look look, station.session.see look, none⟩, station)
  | .change operation =>
    let (next, signed) := station.session.perform (station.signer store) operation
    (⟨.change operation, station.session.answer (station.signer store) operation, signed⟩,
      ⟨next, station.remember store signed⟩)

/-- The notes of a run. -/
def transcript (store : KeyStore Memory) (station : Station Memory) : List Request → List Entry
  | [] => []
  | request :: rest =>
    (station.serve store request).1 :: transcript store (station.serve store request).2 rest

end Station

/-- The operation that an entry notes; a look is none. -/
def Entry.operation? (entry : Entry) : Option Operation :=
  match entry.request with
  | .change operation => some operation
  | .look _ => none

/-- The operations that entries note, in order. -/
def operations (entries : List Entry) : List Operation :=
  entries.filterMap Entry.operation?

@[simp] theorem operations_concat_look (entries : List Entry) (look : Look) (reply : Reply)
    (signed : Option SigningJob) :
    operations (entries ++ [⟨.look look, reply, signed⟩]) = operations entries := by
  rw [operations, List.filterMap_append]
  exact List.append_nil _

@[simp] theorem operations_concat_change (entries : List Entry) (operation : Operation)
    (reply : Reply) (signed : Option SigningJob) :
    operations (entries ++ [⟨.change operation, reply, signed⟩]) =
      operations entries ++ [operation] := by
  rw [operations, List.filterMap_append]
  rfl

namespace Event

/-- The events that send chunks of a transaction and announce more of them. -/
def unfinished (path : DerivationPath) (first : Bytes) (others : List Bytes) : List Event :=
  .signInit path true first :: others.map (.signContinue true)

/-- The events that send further chunks; all but the last say that more follow. -/
def continuations : List Bytes → List Event
  | [] => []
  | chunk :: rest => .signContinue (!rest.isEmpty) chunk :: continuations rest

/-- The events that send all chunks of a transaction; all but the last say that more follow. -/
def delivery (path : DerivationPath) (first : Bytes) (others : List Bytes) : List Event :=
  .signInit path (!others.isEmpty) first :: continuations others

theorem unfinished_concat (path : DerivationPath) (first : Bytes) (others : List Bytes)
    (chunk : Bytes) :
    unfinished path first (others ++ [chunk]) =
      unfinished path first others ++ [.signContinue true chunk] := by
  simp [unfinished]

theorem continuations_concat (others : List Bytes) (chunk : Bytes) :
    continuations (others ++ [chunk]) =
      others.map (.signContinue true) ++ [.signContinue false chunk] := by
  induction others with
  | nil => rfl
  | cons head rest ih => simp [continuations, ih]

theorem delivery_concat (path : DerivationPath) (first : Bytes) (others : List Bytes)
    (chunk : Bytes) :
    delivery path first (others ++ [chunk]) =
      unfinished path first others ++ [.signContinue false chunk] := by
  simp [delivery, unfinished, continuations_concat]

end Event

/-- The entries send a whole transaction in one unbroken sequence of chunks: nothing but looks comes
between two chunks, and the last chunk is answered with the transaction pending. -/
structure Delivers (entries : List Entry) (path : DerivationPath) (data : Bytes) : Prop where
  chunked : ∃ first others, data = first ++ others.flatten ∧
    operations entries = (Event.delivery path first others).map .update
  taken : ∃ before last, entries = before ++ [last] ∧ last.operation?.isSome ∧
    last.reply = .output (.ok .pending)

end NemSigner
