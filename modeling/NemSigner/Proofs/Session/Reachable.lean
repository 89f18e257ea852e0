import NemSigner.Proofs.Session.Signing

/-!
# Sessions that can be reached

Whatever is done to a session, its draft has the network that its path selects and is short enough,
and a draft that is reviewed can be decoded.

## Main definitions

- `Session.Reachable` — the sessions that a history leads to
- `Session.Sound` — what is true of all of them

## Main statements

- `Session.Sound.update` — an event keeps a session sound
- `Session.Reachable.sound` — so every session that can be reached is sound
-/

namespace NemSigner

/-- The network is the one that the path selects, and the bytes fit the longest transaction. -/
structure Draft.Sound (draft : Draft) : Prop where
  selected : draft.path.network? = some draft.network
  short : draft.data.length ≤ Limits.maxTransactionLength

namespace Session

variable {session next : Session} {output : Output}

/-- The sessions that a history leads to. The key store can be another one each time. -/
inductive Reachable : Session → Prop
  | fresh : Reachable idle
  | perform {session : Session} (signer : Signer) (operation : Operation) :
      Reachable session → Reachable (session.perform signer operation).1

/-- The draft is sound, and when it is reviewed it can be decoded. -/
def Sound : Session → Prop
  | idle => True
  | receiving draft => draft.Sound
  | reviewing draft => draft.Sound ∧ ∃ table, Transaction.decode draft.data = .ok table

/-- A chunk that is taken leaves a sound session. -/
theorem sound_of_extend {draft : Draft} {chunk : Bytes} {more : Bool}
    (hnetwork : draft.path.network? = some draft.network)
    (h : extend draft chunk more = .ok (output, next)) : next.Sound := by
  obtain ⟨hshort, ⟨-, rfl⟩ | ⟨-, -, rfl, hdecode⟩⟩ := extend_eq_ok h
  · exact ⟨hnetwork, hshort⟩
  · exact ⟨⟨hnetwork, hshort⟩, hdecode⟩

/-- An event keeps a session sound. -/
theorem Sound.update (h : session.Sound) (event : Event) : (session.update event).2.Sound := by
  rcases update_cases session event with hidle |
    ⟨path, more, chunk, network, output, next, -, hnetwork, hextend, hupdate⟩ |
    ⟨draft, more, chunk, output, next, rfl, -, hextend, hupdate⟩
  · rw [hidle]
    trivial
  · rw [hupdate]
    have hselected : (Draft.mk path network []).path.network? = some network := hnetwork
    exact sound_of_extend hselected hextend
  · rw [hupdate]
    exact sound_of_extend h.selected hextend

/-- So does every operation: a decision of the user leaves nothing that could be unsound. -/
theorem Sound.perform (h : session.Sound) (signer : Signer) (operation : Operation) :
    (session.perform signer operation).1.Sound := by
  cases operation with
  | update event => exact h.update event
  | approve =>
    rw [Session.perform, approve_session]
    trivial
  | reject => cases session <;> trivial
  | reset => trivial

/-- A session that can be reached is sound. -/
theorem Reachable.sound (h : session.Reachable) : session.Sound := by
  induction h with
  | fresh => trivial
  | perform signer operation _ ih => exact ih.perform signer operation

end Session

end NemSigner
