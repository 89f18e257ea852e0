import NemSigner.Proofs.Session.Signing

/-!
# Deliveries in any number of chunks

A transaction can be cut into chunks anywhere. Every chunk but the last is taken and acknowledged,
or the delivery stops at it, and what the delivery comes to depends only on the path and on the
bytes of all chunks together.

## Main definitions

- `Network.element` — the path element that names a network
- `Session.settle` — what becomes of a draft whose bytes are all there
- `Session.outcome` — what a delivery comes to

## Main statements

- `DerivationPath.network?_eq` — the network of a path is the one that its third element names
- `Session.run_continuations` — further chunks settle the draft as if they were one
- `Session.runUntilError_delivery` — all chunks of a delivery come to its outcome
-/

namespace NemSigner

namespace Network

/-- The path element that names a network: its byte, hardened. -/
def element (network : Network) : UInt32 :=
  0x80000000 ||| network.byte.toUInt32

theorem toNat_element (network : Network) :
    network.element.toNat = hardened + Coded.code network := by
  cases network <;> rfl

theorem ofPathElement?_eq_some {element : UInt32} {network : Network} :
    ofPathElement? element = some network ↔ element = network.element := by
  constructor
  · intro h
    rw [ofPathElement?] at h
    split at h
    · cases h
    · next hhardened =>
      have hcode : Coded.code network = element.toNat - hardened := by
        simpa using List.find?_some h
      apply UInt32.toNat_inj.mp
      rw [toNat_element]
      omega
  · rintro rfl
    cases network <;> rfl

/-- The network whose element a path has in the third place. -/
def named? (path : DerivationPath) : Option Network :=
  (Coded.all : List Network).find? fun network => path.elements[2]? == some network.element

end Network

/-- A path selects the network that its third element names. -/
theorem DerivationPath.network?_eq (path : DerivationPath) :
    path.network? = Network.named? path := by
  cases hnamed : Network.named? path with
  | some network =>
    have hthird : path.elements[2]? = some network.element := by
      simpa using List.find?_some hnamed
    rw [network?, hthird]
    exact Network.ofPathElement?_eq_some.mpr rfl
  | none =>
    rw [Network.named?, List.find?_eq_none] at hnamed
    cases hthird : path.elements[2]? with
    | none => rw [network?, hthird]; rfl
    | some element =>
      rw [network?, hthird]
      refine Option.eq_none_iff_forall_ne_some.mpr fun network hnetwork => ?_
      have helement := Network.ofPathElement?_eq_some.mp hnetwork
      have hnot := hnamed network (by cases network <;> decide)
      simp [hthird, helement] at hnot

namespace Session

/-- What becomes of a draft whose bytes are all there. Its length is looked at before it is
decoded, and why it cannot be decoded is not told. -/
def settle (draft : Draft) : Step :=
  if Limits.maxTransactionLength < draft.data.length then (.error .invalidLength, idle)
  else
    match Transaction.decode draft.data with
    | .ok _ => (.ok .pending, reviewing draft)
    | .error _ => (.error .incorrectData, idle)

/-- What the delivery of a transaction comes to. The network is looked at first. -/
def outcome (path : DerivationPath) (data : Bytes) : Step :=
  match Network.named? path with
  | none => (.error .incorrectData, idle)
  | some network => settle ⟨path, network, data⟩

/-- The last chunk settles the draft with its bytes added. -/
theorem update_last (draft : Draft) (chunk : Bytes) :
    (receiving draft).update (.signContinue false chunk) =
      settle { draft with data := draft.data ++ chunk } := by
  rw [update, handle, extend, settle]
  by_cases hlong : Limits.maxTransactionLength < (draft.data ++ chunk).length
  · simp only [hlong, if_true]
  · simp only [hlong, if_false, Bool.false_eq_true]
    cases Transaction.decode (draft.data ++ chunk) <;> rfl

/-- A chunk with more to follow is taken as long as the draft does not get too long. -/
theorem update_more {draft : Draft} {chunk : Bytes}
    (hshort : (draft.data ++ chunk).length ≤ Limits.maxTransactionLength) :
    (receiving draft).update (.signContinue true chunk) =
      (.ok .accepted, receiving { draft with data := draft.data ++ chunk }) := by
  simp only [update, handle, extend, if_neg (Nat.not_lt_of_le hshort), if_true]

theorem update_more_of_long {draft : Draft} {chunk : Bytes}
    (hlong : Limits.maxTransactionLength < (draft.data ++ chunk).length) :
    (receiving draft).update (.signContinue true chunk) = (.error .invalidLength, idle) := by
  simp only [update, handle, extend, if_pos hlong]

/-- A draft that is too long stays so, whatever is added. -/
theorem settle_of_long {draft : Draft}
    (hlong : Limits.maxTransactionLength < draft.data.length) :
    settle draft = (.error .invalidLength, idle) := by
  rw [settle, if_pos hlong]

/-- The answers of a run are acknowledgements but for the last, which is that of the step, and the
session is left as the step leaves it. -/
def Concludes (run : List (Except SessionError Output) × Session) (step : Step) : Prop :=
  ∃ acknowledged : Nat, run = (List.replicate acknowledged (.ok .accepted) ++ [step.1], step.2)

/-- A run of one event concludes with it. -/
theorem concludes_single (session : Session) (event : Event) :
    Concludes (session.runUntilError update [event]) (session.update event) := by
  refine ⟨0, ?_⟩
  rw [runUntilError]
  rcases session.update event with ⟨_ | _, _⟩ <;> rfl

/-- A run that begins with an error is over. -/
theorem concludes_of_error {session : Session} {event : Event} {error : SessionError}
    (h : session.update event = (.error error, idle)) (rest : List Event) :
    Concludes (session.runUntilError update (event :: rest)) (.error error, idle) := by
  refine ⟨0, ?_⟩
  rw [runUntilError, h]
  rfl

/-- One more acknowledgement stands in front of a run. -/
theorem Concludes.cons {session next : Session} {event : Event} {rest : List Event} {step : Step}
    (h : session.update event = (.ok .accepted, next))
    (hrest : Concludes (next.runUntilError update rest) step) :
    Concludes (session.runUntilError update (event :: rest)) step := by
  obtain ⟨acknowledged, hrun⟩ := hrest
  refine ⟨acknowledged + 1, ?_⟩
  rw [runUntilError, h]
  simp only [hrun, List.replicate_succ, List.cons_append]

/-- Further chunks settle the draft as their bytes together would. -/
theorem run_continuations (draft : Draft) (chunk : Bytes) (others : List Bytes) :
    Concludes ((receiving draft).runUntilError update (Event.continuations (chunk :: others)))
      (settle { draft with data := draft.data ++ (chunk :: others).flatten }) := by
  -- The draft grows by a chunk at a time; once it is too long the chunks to come do not matter.
  induction others generalizing draft chunk with
  | nil =>
    have hlast := concludes_single (receiving draft) (.signContinue false chunk)
    rw [update_last] at hlast
    simpa [Event.continuations] using hlast
  | cons other others ih =>
    rw [Event.continuations, List.flatten_cons, ← List.append_assoc]
    by_cases hlong : Limits.maxTransactionLength < (draft.data ++ chunk).length
    · rw [settle_of_long]
      · exact concludes_of_error (update_more_of_long hlong) _
      · simp only [List.length_append] at hlong ⊢
        omega
    · exact .cons (update_more (Nat.le_of_not_lt hlong))
        (ih { draft with data := draft.data ++ chunk } other)

/-- A first chunk is taken like one that follows no bytes at all. -/
theorem update_signInit {path : DerivationPath} {network : Network}
    (hnetwork : path.network? = some network) (more : Bool) (chunk : Bytes) :
    idle.update (.signInit path more chunk) =
      (receiving ⟨path, network, []⟩).update (.signContinue more chunk) := by
  simp only [update, handle, hnetwork]

theorem runUntilError_signInit {path : DerivationPath} {network : Network}
    (hnetwork : path.network? = some network) (more : Bool) (chunk : Bytes) (rest : List Event) :
    idle.runUntilError update (.signInit path more chunk :: rest) =
      (receiving ⟨path, network, []⟩).runUntilError update (.signContinue more chunk :: rest) := by
  rw [runUntilError, runUntilError, update_signInit hnetwork]

theorem eq_idle_of_state {session : Session} (h : session.state = .idle) : session = idle := by
  cases session with
  | idle => rfl
  | receiving draft => cases h
  | reviewing draft => cases h

/-- However a transaction is cut into chunks, an idle session acknowledges them up to the last
answer of the delivery. That answer, and the session afterwards, are the outcome for the path and
the bytes of all chunks together. -/
theorem runUntilError_delivery {session : Session} (hidle : session.state = .idle)
    (path : DerivationPath) (first : Bytes) (others : List Bytes) :
    ∃ acknowledged : Nat,
      session.runUntilError update (Event.delivery path first others) =
        (List.replicate acknowledged (.ok .accepted) ++
            [(outcome path (first ++ others.flatten)).1],
          (outcome path (first ++ others.flatten)).2) := by
  change Concludes _ _
  rw [eq_idle_of_state hidle, Event.delivery, outcome, ← path.network?_eq]
  cases hnetwork : path.network? with
  | none =>
    refine concludes_of_error ?_ _
    simp only [update, handle, hnetwork]
  | some network =>
    rw [runUntilError_signInit hnetwork]
    exact run_continuations ⟨path, network, []⟩ first others

/-- A transaction that is cut in an odd place, with an empty chunk between, waits for the user like
one that was sent whole. -/
theorem runUntilError_delivery_testPath :
    idle.state = .idle ∧ ∃ acknowledged : Nat,
      idle.runUntilError update (Event.delivery Station.testPath
        ((Transaction.modifying []).encode.take 7) [[], (Transaction.modifying []).encode.drop 7]) =
        (List.replicate acknowledged (.ok .accepted) ++ [.ok .pending],
          reviewing ⟨Station.testPath, .testnet, (Transaction.modifying []).encode⟩) :=
  ⟨rfl, runUntilError_delivery rfl Station.testPath ((Transaction.modifying []).encode.take 7)
    [[], (Transaction.modifying []).encode.drop 7]⟩

end Session

end NemSigner
