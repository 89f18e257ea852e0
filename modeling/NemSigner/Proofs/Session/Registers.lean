import NemSigner.Proofs.Session.Reachable

/-!
# The registers of a session

A device keeps a session in four registers, which an event writes one after the other. An event can
fail when some of them are written already, so what a failure leaves behind is no session at all
until it has been wiped.

## Main definitions

- `Registers` — state, path, network and bytes, each by itself
- `Registers.update`, `Registers.approve`, `Registers.reject` — what is done to them
- `Registers.Reachable` — what they can hold in the course of a history
- `Registers.Consistent` — what they hold goes together
- `Session.stored` — the registers that hold a session

## Main statements

- `Session.stored_perform` — an operation does to the registers what it does to the session they
  hold
- `Registers.consistent_and_fail_closed` — registers that can be reached go together, and every
  failure and every decision leaves them as they were in the beginning

## Design notes

A routine keeps its registers when it fails, as `EStateM` does, so the half-written registers of a
failure are there to be looked at. Nothing but `Registers.update` clears them, and a device in which
it did not would be left with the path of a chunk that it refused.
-/

namespace NemSigner

/-- What a device keeps between two events. -/
structure Registers where
  state : SessionState
  path : Option DerivationPath
  network : Option Network
  data : Bytes
  deriving DecidableEq, Repr

namespace Registers

/-- A computation that writes registers. When it fails, what has been written stays. -/
abbrev Routine (α : Type) := EStateM SessionError Registers α

/-- The registers of a device that was just started. -/
def initial : Registers :=
  ⟨.idle, none, none, []⟩

/-- The registers after each of them has been cleared. -/
def wiped (registers : Registers) : Registers :=
  { registers with data := [], path := none, network := none, state := .idle }

/-- Adds a chunk to the bytes. They have been written when they turn out to be no transaction. -/
def append (chunk : Bytes) (more : Bool) : Routine Output := do
  let longer := (← get).data ++ chunk
  if Limits.maxTransactionLength < longer.length then throw .invalidLength
  modify fun registers => { registers with data := longer }
  if more then
    modify fun registers => { registers with state := .waitingForMore }
    return .accepted
  match Transaction.decode longer with
  | .ok _ =>
    modify fun registers => { registers with state := .pendingReview }
    return .pending
  | .error _ => throw .incorrectData

/-- What an event writes. A question about the device clears the registers only where it interrupts
something, and the path of a first chunk is written before the chunk is looked at. -/
def handle (event : Event) : Routine Output := do
  match (← get).state, event with
  | state, .getConfiguration =>
    if state ≠ .idle then modify wiped
    return .configuration Session.configuration
  | .idle, .signInit path more chunk =>
    modify wiped
    match path.network? with
    | none => throw .incorrectData
    | some network =>
      modify fun registers => { registers with path := some path }
      modify fun registers => { registers with network := some network }
      append chunk more
  | .waitingForMore, .signContinue more chunk => append chunk more
  | _, _ => throw .unexpectedEvent

/-- The answer of a routine. Whatever a failure has left is cleared. -/
def close : EStateM.Result SessionError Registers Output → Except SessionError Output × Registers
  | .ok output registers => (.ok output, registers)
  | .error error left => (.error error, left.wiped)

def update (registers : Registers) (event : Event) : Except SessionError Output × Registers :=
  close (handle event registers)

/-- What the key store would be asked to sign, if every register says that it can be asked. -/
def job? (registers : Registers) : Option SigningJob :=
  match registers.state, registers.path, registers.network with
  | .pendingReview, some path, some network => some ⟨path, network.algorithm, registers.data⟩
  | _, _, _ => none

def approve (signer : Signer) (registers : Registers) : Except SessionError Output × Registers :=
  let answer :=
    match registers.job? with
    | none => .error .invalidState
    | some job =>
      match signer job with
      | some signature => .ok (.signature signature)
      | none => .error .signingFailed
  (answer, registers.wiped)

def reject (registers : Registers) : Except SessionError Output × Registers :=
  let answer :=
    match registers.state with
    | .pendingReview => .error .rejected
    | _ => .error .invalidState
  (answer, registers.wiped)

/-- The registers after an operation. -/
def perform (signer : Signer) (registers : Registers) : Operation → Registers
  | .update event => (registers.update event).2
  | .approve => (registers.approve signer).2
  | .reject => registers.reject.2
  | .reset => registers.wiped

/-- What the registers of a device can hold. The key store can be another one each time. -/
inductive Reachable : Registers → Prop
  | fresh : Reachable initial
  | perform {registers : Registers} (signer : Signer) (operation : Operation) :
      Reachable registers → Reachable (registers.perform signer operation)

/-- What the registers hold goes together. -/
structure Consistent (registers : Registers) : Prop where
  idle_empty : registers.state = .idle →
    registers.data = [] ∧ registers.path = none ∧ registers.network = none
  active_draft : registers.state ≠ .idle → ∃ path network,
    registers.path = some path ∧ registers.network = some network ∧
    path.network? = some network ∧ registers.data.length ≤ Limits.maxTransactionLength
  pending_decodes : registers.state = .pendingReview →
    ∃ table, Transaction.decode registers.data = .ok table

@[simp] theorem wiped_eq (registers : Registers) : registers.wiped = initial := rfl

/-- A failure leaves nothing behind, whatever it had written. -/
theorem close_of_error {result : EStateM.Result SessionError Registers Output}
    {error : SessionError} (h : (close result).1 = .error error) : (close result).2 = initial := by
  cases result with
  | ok output registers => cases h
  | error error left => rfl

section Append

variable {registers : Registers} {chunk : Bytes}

theorem append_of_long (hlong : Limits.maxTransactionLength < (registers.data ++ chunk).length)
    (more : Bool) : append chunk more registers = .error .invalidLength registers := by
  change (if Limits.maxTransactionLength < (registers.data ++ chunk).length then _ else _ :
    Routine Output) registers = _
  rw [if_pos hlong]
  rfl

theorem append_more (hshort : ¬Limits.maxTransactionLength < (registers.data ++ chunk).length) :
    append chunk true registers =
      .ok .accepted
        { registers with data := registers.data ++ chunk, state := .waitingForMore } := by
  change (if Limits.maxTransactionLength < (registers.data ++ chunk).length then _ else _ :
    Routine Output) registers = _
  rw [if_neg hshort]
  rfl

/-- The last chunk is written whether or not the bytes can be decoded. -/
theorem append_last (hshort : ¬Limits.maxTransactionLength < (registers.data ++ chunk).length) :
    append chunk false registers =
      match Transaction.decode (registers.data ++ chunk) with
      | .ok _ =>
        .ok .pending { registers with data := registers.data ++ chunk, state := .pendingReview }
      | .error _ => .error .incorrectData { registers with data := registers.data ++ chunk } := by
  change (if Limits.maxTransactionLength < (registers.data ++ chunk).length then _ else _ :
    Routine Output) registers = _
  rw [if_neg hshort]
  change (match Transaction.decode (registers.data ++ chunk) with | .ok _ => _ | .error _ => _ :
    Routine Output) _ = _
  cases Transaction.decode (registers.data ++ chunk) <;> rfl

end Append

end Registers

namespace Session

/-- The registers that hold a session: everything that can be asked of it. -/
def stored (session : Session) : Registers :=
  ⟨session.state, session.draft?.map Draft.path, session.network?, session.data⟩

/-- The end of an event of which the session knows only what it came to. -/
def finish : Except SessionError (Output × Session) → Except SessionError Output × Session
  | .ok (output, next) => (.ok output, next)
  | .error error => (.error error, idle)

theorem update_eq (session : Session) (event : Event) :
    session.update event = finish (session.handle event) := by
  rw [update]
  rcases session.handle event with _ | ⟨_, _⟩ <;> rfl

/-- A chunk does to the registers what it does to the draft that they hold, whatever the register of
the state says. -/
theorem close_append (state : SessionState) (draft : Draft) (chunk : Bytes) (more : Bool) :
    Registers.close
        (Registers.append chunk more ⟨state, some draft.path, some draft.network, draft.data⟩) =
      ((finish (extend draft chunk more)).1, (finish (extend draft chunk more)).2.stored) := by
  rw [extend]
  by_cases hlong : Limits.maxTransactionLength < (draft.data ++ chunk).length
  · rw [Registers.append_of_long hlong, if_pos hlong]
    rfl
  · rw [if_neg hlong]
    cases more with
    | true =>
      rw [Registers.append_more hlong]
      rfl
    | false =>
      rw [Registers.append_last hlong, if_neg Bool.false_ne_true]
      cases Transaction.decode (draft.data ++ chunk) <;> rfl

/-- An event does to the registers what it does to the session that they hold, and it is answered
in the same way. -/
theorem stored_update (session : Session) (event : Event) :
    session.stored.update event = ((session.update event).1, (session.update event).2.stored) := by
  cases session with
  | idle =>
    cases event with
    | signInit path more chunk =>
      rw [update_eq, handle]
      change Registers.close
        ((match path.network? with | none => _ | some network => _ : Registers.Routine Output)
          .initial) = _
      cases path.network? with
      | none => rfl
      | some network => exact close_append .idle ⟨path, network, []⟩ chunk more
    | _ => rfl
  | receiving draft =>
    cases event with
    | signContinue more chunk =>
      rw [update_eq, handle]
      exact close_append .waitingForMore draft chunk more
    | _ => rfl
  | reviewing draft => cases event <;> rfl

theorem stored_job? (session : Session) : session.stored.job? = session.job? := by
  cases session <;> rfl

theorem stored_approve (session : Session) (signer : Signer) :
    session.stored.approve signer =
      ((session.approve signer).answer, (session.approve signer).session.stored) := by
  rw [Registers.approve, stored_job?, approve]
  cases session.job? with
  | none => rfl
  | some job =>
    dsimp only
    cases signer job <;> rfl

theorem stored_reject (session : Session) :
    session.stored.reject = (session.reject.1, session.reject.2.stored) := by
  cases session <;> rfl

/-- An operation does to the registers what it does to the session that they hold. -/
theorem stored_perform (session : Session) (signer : Signer) (operation : Operation) :
    session.stored.perform signer operation = (session.perform signer operation).1.stored := by
  cases operation with
  | update event => exact congrArg Prod.snd (session.stored_update event)
  | approve => exact congrArg Prod.snd (session.stored_approve signer)
  | reject => exact congrArg Prod.snd session.stored_reject
  | reset => rfl

/-- The registers of a sound session go together. -/
theorem Sound.consistent {session : Session} (h : session.Sound) :
    session.stored.Consistent := by
  cases session with
  | idle =>
    exact {
      idle_empty := fun _ => ⟨rfl, rfl, rfl⟩
      active_draft := fun hstate => absurd rfl hstate
      pending_decodes := nofun }
  | receiving draft =>
    exact {
      idle_empty := nofun
      active_draft := fun _ => ⟨draft.path, draft.network, rfl, rfl, h.selected, h.short⟩
      pending_decodes := nofun }
  | reviewing draft =>
    exact {
      idle_empty := nofun
      active_draft := fun _ => ⟨draft.path, draft.network, rfl, rfl, h.1.selected, h.1.short⟩
      pending_decodes := fun _ => h.2 }

end Session

namespace Registers

/-- Registers that can be reached hold a session that can be reached. -/
theorem Reachable.exists_session {registers : Registers} (h : registers.Reachable) :
    ∃ session : Session, session.Reachable ∧ registers = session.stored := by
  induction h with
  | fresh => exact ⟨.idle, .fresh, rfl⟩
  | perform signer operation _ ih =>
    obtain ⟨session, hreachable, rfl⟩ := ih
    exact ⟨_, hreachable.perform signer operation, session.stored_perform signer operation⟩

theorem reachable_stored {session : Session} (h : session.Reachable) :
    session.stored.Reachable := by
  induction h with
  | fresh => exact .fresh
  | @perform session signer operation _ ih =>
    rw [← session.stored_perform signer operation]
    exact ih.perform signer operation

/-- The question about the device ends every session, since a device without one has empty registers
already. -/
theorem Reachable.update_getConfiguration {registers : Registers} (h : registers.Reachable) :
    (registers.update .getConfiguration).2 = initial := by
  obtain ⟨session, -, rfl⟩ := h.exists_session
  rw [session.stored_update]
  rfl

/-- What a session holds in the course of a history goes together, and so does what registers hold,
since an operation does to them what it does to the session that they hold. The question about the
device clears them. So does every event that fails and every decision of the user, whatever they
hold; a device is then as it was in the beginning. -/
theorem consistent_and_fail_closed :
    (∀ session : Session, session.Reachable →
      session.stored.Reachable ∧ session.stored.Consistent) ∧
    (∀ (session : Session) (event : Event) (signer : Signer),
      session.stored.update event = ((session.update event).1, (session.update event).2.stored) ∧
      session.stored.approve signer =
        ((session.approve signer).answer, (session.approve signer).session.stored) ∧
      session.stored.reject = (session.reject.1, session.reject.2.stored) ∧
      session.stored.wiped = session.reset.stored) ∧
    (∀ registers : Registers, registers.Reachable →
      registers.Consistent ∧ (registers.update .getConfiguration).2 = initial) ∧
    (∀ (registers : Registers) (event : Event) (error : SessionError),
      (registers.update event).1 = .error error → (registers.update event).2 = initial) ∧
    ∀ (registers : Registers) (signer : Signer),
      (registers.approve signer).2 = initial ∧ registers.reject.2 = initial ∧
      registers.wiped = initial := by
  refine ⟨fun session hsession => ⟨reachable_stored hsession, hsession.sound.consistent⟩,
    fun session event signer => ⟨session.stored_update event, session.stored_approve signer,
      session.stored_reject, rfl⟩,
    fun registers hreachable => ⟨?_, hreachable.update_getConfiguration⟩,
    fun registers event error => close_of_error, fun registers signer => ⟨rfl, rfl, rfl⟩⟩
  obtain ⟨session, hsession, hstored⟩ := hreachable.exists_session
  rw [hstored]
  exact hsession.sound.consistent

/-- A device that has taken one chunk and expects more. -/
def interrupted : Registers :=
  initial.perform (fun _ => none) (.update (.signInit Station.testPath true [0x01]))

/-- The chunk that ends the transaction is written before it is found to end too early. -/
theorem consistent_and_fail_closed_interrupted :
    interrupted.Reachable ∧ interrupted.state = .waitingForMore ∧ interrupted.Consistent ∧
    (interrupted.update .getConfiguration).2 = initial ∧
    (interrupted.update (.signContinue false [0x02])).1 = .error .incorrectData ∧
    (interrupted.update (.signContinue false [0x02])).2 = initial := by
  have hreachable : interrupted.Reachable := .perform _ _ .fresh
  have hrefused : (interrupted.update (.signContinue false [0x02])).1 = .error .incorrectData := rfl
  obtain ⟨-, -, hreached, hfailed, -⟩ := consistent_and_fail_closed
  obtain ⟨hconsistent, hquestion⟩ := hreached _ hreachable
  exact ⟨hreachable, rfl, hconsistent, hquestion, hrefused, hfailed _ _ _ hrefused⟩

end Registers

end NemSigner
