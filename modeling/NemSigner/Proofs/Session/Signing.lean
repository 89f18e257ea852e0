import NemSigner.Proofs.Session.Transcript
import NemSigner.Proofs.Transaction.Grammar

/-!
# What is signed was delivered and reviewed

A session signs only when the user approves, and then exactly the bytes that were sent in one
unbroken sequence of chunks just before, which decode, and whose fields are what the user was shown.

## Main definitions

- `Presented` — the notes made so far end with the delivery of a transaction and with looks at it
- `Session.Backed` — what the notes made so far say about the draft of a session

## Main statements

- `Station.backed_serve` — one request keeps a session backed
- `Station.signed_of_transcript` — every signature has a delivery of its own
-/

namespace NemSigner

/-- The notes made so far end with the delivery of a transaction that is short enough and decodes,
and with looks that show its own fields and the network of its path. Nothing was signed since the
delivery began. -/
structure Presented (past : List Entry) (path : DerivationPath) (network : Network)
    (data : Bytes) : Prop where
  selected : path.network? = some network
  short : data.length ≤ Limits.maxTransactionLength
  shown : ∃ table earlier sent looks, Transaction.decode data = .ok table ∧
    past = earlier ++ (sent ++ looks) ∧ Delivers sent path data ∧
    (∀ entry ∈ sent ++ looks, entry.signed = none) ∧
    ∀ entry ∈ looks, ∃ look, entry.request = .look look ∧
      entry.reply = look.shows table network data

namespace Session

variable {session next : Session} {event : Event} {output : Output}

/-- A chunk that is taken leaves the draft short enough. Either more chunks follow, or the draft is
complete and decodes. -/
theorem extend_eq_ok {draft : Draft} {data : Bytes} {more : Bool}
    (h : extend draft data more = .ok (output, next)) :
    (draft.data ++ data).length ≤ Limits.maxTransactionLength ∧
      ((more = true ∧ next = receiving { draft with data := draft.data ++ data }) ∨
       (more = false ∧ output = .pending ∧
        next = reviewing { draft with data := draft.data ++ data } ∧
        ∃ table, Transaction.decode (draft.data ++ data) = .ok table)) := by
  simp only [extend] at h
  split at h
  · cases h
  · next hshort =>
    refine ⟨Nat.le_of_not_lt hshort, ?_⟩
    cases more with
    | true =>
      simp only [if_true, Except.ok.injEq, Prod.mk.injEq] at h
      exact .inl ⟨rfl, h.2.symm⟩
    | false =>
      simp only [Bool.false_eq_true, if_false] at h
      split at h
      · next table hdecode =>
        simp only [Except.ok.injEq, Prod.mk.injEq] at h
        exact .inr ⟨rfl, h.1.symm, h.2.symm, table, hdecode⟩
      · cases h

/-- An event starts a draft, extends the draft that is being received, or leaves nothing. -/
theorem update_cases (session : Session) (event : Event) :
    (session.update event).2 = idle ∨
    (∃ path more data network output next, event = .signInit path more data ∧
      path.network? = some network ∧ extend ⟨path, network, []⟩ data more = .ok (output, next) ∧
      session.update event = (.ok output, next)) ∨
    (∃ draft more data output next, session = receiving draft ∧ event = .signContinue more data ∧
      extend draft data more = .ok (output, next) ∧ session.update event = (.ok output, next)) := by
  cases hhandle : session.handle event with
  | error error => exact .inl (by simp [update, hhandle])
  | ok result =>
    obtain ⟨output, next⟩ := result
    have hupdate : session.update event = (.ok output, next) := by simp [update, hhandle]
    cases event with
    | nothing => cases session <;> simp [handle] at hhandle
    | getConfiguration =>
      have hidle : next = idle := by
        simp only [handle, Except.ok.injEq, Prod.mk.injEq] at hhandle
        exact hhandle.2.symm
      exact .inl (by rw [hupdate, hidle])
    | signInit path more data =>
      cases session with
      | idle =>
        cases hnetwork : path.network? with
        | none => simp [handle, hnetwork] at hhandle
        | some network =>
          rw [handle, hnetwork] at hhandle
          exact .inr (.inl
            ⟨path, more, data, network, output, next, rfl, hnetwork, hhandle, hupdate⟩)
      | receiving draft => simp [handle] at hhandle
      | reviewing draft => simp [handle] at hhandle
    | signContinue more data =>
      cases session with
      | idle => simp [handle] at hhandle
      | receiving draft =>
        exact .inr (.inr ⟨draft, more, data, output, next, rfl, rfl, hhandle, hupdate⟩)
      | reviewing draft => simp [handle] at hhandle

/-- A look at a complete transaction shows what its bytes and its network say. -/
theorem see_reviewing {draft : Draft} {table : FieldTable}
    (hdecode : Transaction.decode draft.data = .ok table) (look : Look) :
    (reviewing draft).see look = look.shows table draft.network draft.data := by
  have hfields : (reviewing draft).fields = .ok table := by
    rw [fields, hdecode]
    rfl
  cases look with
  | fields => exact congrArg Reply.fields hfields
  | render index labelBuffer valueBuffer =>
    simp only [see, render, network?, draft?, Option.map_some, hfields, Look.shows]
    rfl
  | data => rfl

/-- What the notes made so far say about a session: the draft was sent in one unbroken sequence of
chunks, and its network is the one that its path selects. -/
def Backed (past : List Entry) : Session → Prop
  | idle => True
  | receiving draft =>
    draft.path.network? = some draft.network ∧
    draft.data.length ≤ Limits.maxTransactionLength ∧
    ∃ earlier sent first others, past = earlier ++ sent ∧ draft.data = first ++ others.flatten ∧
      operations sent = (Event.unfinished draft.path first others).map .update ∧
      ∀ entry ∈ sent, entry.signed = none
  | reviewing draft => Presented past draft.path draft.network draft.data

/-- A look keeps a session backed. -/
theorem Backed.look {past : List Entry} (h : session.Backed past) (look : Look) :
    session.Backed (past ++ [⟨.look look, session.see look, none⟩]) := by
  cases session with
  | idle => trivial
  | receiving draft =>
    obtain ⟨hnetwork, hshort, earlier, sent, first, others, rfl, hdata, hsent, hunsigned⟩ := h
    refine ⟨hnetwork, hshort, earlier, sent ++ [_], first, others, List.append_assoc .., hdata,
      ?_, ?_⟩
    · rw [operations_concat_look, hsent]
    · exact List.forall_mem_append.mpr ⟨hunsigned, List.forall_mem_singleton.mpr rfl⟩
  | reviewing draft =>
    obtain ⟨hnetwork, hshort, table, earlier, sent, looks, hdecode, rfl, hsent, hunsigned,
      hlooks⟩ := h
    let entry : Entry := ⟨.look look, (reviewing draft).see look, none⟩
    refine ⟨hnetwork, hshort, table, earlier, sent, looks ++ [entry], hdecode, ?_, hsent, ?_, ?_⟩
    · simp only [List.append_assoc, entry]
    · rw [← List.append_assoc]
      exact List.forall_mem_append.mpr ⟨hunsigned, List.forall_mem_singleton.mpr rfl⟩
    · have hlook : entry.reply = look.shows table draft.network draft.data :=
        see_reviewing hdecode look
      exact List.forall_mem_append.mpr
        ⟨hlooks, List.forall_mem_singleton.mpr ⟨look, rfl, hlook⟩⟩

/-- A first chunk that is taken starts a draft that its own note backs. -/
theorem backed_of_signInit {path : DerivationPath} {network : Network} {data : Bytes} {more : Bool}
    (hnetwork : path.network? = some network) (past : List Entry)
    (h : extend ⟨path, network, []⟩ data more = .ok (output, next)) :
    next.Backed
      (past ++ [⟨.change (.update (.signInit path more data)), .output (.ok output), none⟩]) := by
  obtain ⟨hshort, ⟨rfl, rfl⟩ | ⟨rfl, rfl, rfl, table, hdecode⟩⟩ := extend_eq_ok h
  · exact ⟨hnetwork, hshort, past, [_], data, [], rfl, by simp, rfl, by simp⟩
  · refine ⟨hnetwork, hshort, table, past, [_], [], hdecode, rfl, ⟨?_, ?_⟩, by simp, by simp⟩
    · exact ⟨data, [], by simp, rfl⟩
    · exact ⟨[], _, rfl, rfl, rfl⟩

/-- A further chunk that is taken extends the draft and the notes that back it. -/
theorem Backed.signContinue {draft : Draft} {past : List Entry} {data : Bytes} {more : Bool}
    (hbacked : (receiving draft).Backed past) (h : extend draft data more = .ok (output, next)) :
    next.Backed
      (past ++ [⟨.change (.update (.signContinue more data)), .output (.ok output), none⟩]) := by
  obtain ⟨hnetwork, -, earlier, sent, first, others, rfl, hdata, hsent, hunsigned⟩ := hbacked
  have hdata' : draft.data ++ data = first ++ (others ++ [data]).flatten := by
    rw [hdata]
    simp
  let entry : Entry := ⟨.change (.update (.signContinue more data)), .output (.ok output), none⟩
  have hunsigned' : ∀ other ∈ sent ++ [entry], other.signed = none :=
    List.forall_mem_append.mpr ⟨hunsigned, List.forall_mem_singleton.mpr rfl⟩
  have hsent' : operations (sent ++ [entry]) =
      (Event.unfinished draft.path first others ++ [Event.signContinue more data]).map .update := by
    rw [operations_concat_change, hsent, List.map_append]
    rfl
  -- Either more chunks have to follow, or the data decodes and is presented from now on.
  obtain ⟨hshort, ⟨rfl, rfl⟩ | ⟨rfl, rfl, rfl, table, hdecode⟩⟩ := extend_eq_ok h
  · refine ⟨hnetwork, hshort, earlier, sent ++ [entry], first, others ++ [data],
      List.append_assoc .., hdata', ?_, hunsigned'⟩
    rw [Event.unfinished_concat, hsent']
  · refine ⟨hnetwork, hshort, table, earlier, sent ++ [entry], [], hdecode, ?_, ⟨?_, ?_⟩, ?_, ?_⟩
    · rw [List.append_nil, List.append_assoc]
    · refine ⟨first, others ++ [data], hdata', ?_⟩
      rw [Event.delivery_concat, hsent']
    · exact ⟨sent, entry, rfl, rfl, rfl⟩
    · rwa [List.append_nil]
    · intro other hother
      cases hother

/-- An event keeps a session backed. -/
theorem Backed.update {past : List Entry} (h : session.Backed past) (event : Event) :
    (session.update event).2.Backed
      (past ++ [⟨.change (.update event), .output (session.update event).1, none⟩]) := by
  rcases update_cases session event with hidle |
    ⟨path, more, data, network, output, next, rfl, hnetwork, hextend, hupdate⟩ |
    ⟨draft, more, data, output, next, rfl, rfl, hextend, hupdate⟩
  · rw [hidle]
    trivial
  · rw [hupdate]
    exact backed_of_signInit hnetwork past hextend
  · rw [hupdate]
    exact h.signContinue hextend

/-- After an approval a session is idle, whatever the key store answered. -/
theorem approve_session (session : Session) (signer : Signer) :
    (session.approve signer).session = idle := by
  simp only [approve]
  split
  · rfl
  · split <;> rfl

/-- Only a complete transaction is handed to the key store. -/
theorem approve_signed (session : Session) (signer : Signer) :
    (session.approve signer).signed = session.job? := by
  simp only [approve]
  split
  · next hnone => exact hnone.symm
  · next job hjob => split <;> exact hjob.symm

end Session

namespace Station

variable {Memory : Type} {store : KeyStore Memory} {station : Station Memory}

/-- One request keeps a session backed. -/
theorem backed_serve {past : List Entry} (h : station.session.Backed past) (request : Request) :
    (station.serve store request).2.session.Backed (past ++ [(station.serve store request).1]) := by
  cases request with
  | look look => exact h.look look
  | change operation =>
    cases operation with
    | update event => exact h.update event
    | approve =>
      simp only [serve, Session.perform, Session.approve_session]
      trivial
    | reject =>
      cases hsession : station.session <;>
        simp [serve, Session.perform, hsession, Session.reject, Session.Backed]
    | reset => trivial

/-- What is presented was presented since anything was last signed. -/
theorem presented_since_signed {earlier middle : List Entry} {previous : Entry}
    {path : DerivationPath} {network : Network} {data : Bytes}
    (h : Presented (earlier ++ previous :: middle) path network data)
    (hprevious : previous.signed ≠ none) : Presented middle path network data := by
  obtain ⟨hnetwork, hshort, table, start, sent, looks, hdecode, hpast, hsent, hunsigned,
    hlooks⟩ := h
  -- Nothing is signed in a delivery or a look, so all of them come after the earlier signature.
  have hnotin : previous ∉ sent ++ looks := fun hmem => hprevious (hunsigned previous hmem)
  rcases List.append_eq_append_iff.mp hpast with ⟨rest, hstart, hrest⟩ | ⟨rest, -, hrest⟩
  · cases rest with
    | nil =>
      rw [List.nil_append] at hrest
      exact absurd (hrest ▸ List.mem_cons_self) hnotin
    | cons head rest =>
      obtain ⟨-, hmiddle⟩ := List.cons.inj hrest
      exact ⟨hnetwork, hshort, table, rest, sent, looks, hdecode, hmiddle, hsent, hunsigned, hlooks⟩
  · exact absurd (hrest ▸ List.mem_append_right rest List.mem_cons_self) hnotin

/-- A note names the request that it is about. -/
theorem request_serve (store : KeyStore Memory) (station : Station Memory) (request : Request) :
    (station.serve store request).1.request = request := by
  cases request <;> rfl

/-- The key store is asked in an approval only, for the transaction that was presented. -/
theorem presented_of_signed {past : List Entry} {request : Request} {job : SigningJob}
    (h : station.session.Backed past)
    (hsigned : (station.serve store request).1.signed = some job) :
    request = .change .approve ∧ ∃ network, job.algorithm = network.algorithm ∧
      Presented past job.path network job.message := by
  cases request with
  | look look => cases hsigned
  | change operation =>
    cases operation with
    | update event => cases hsigned
    | reject => cases hsigned
    | reset => cases hsigned
    | approve =>
      have hjob : station.session.job? = some job := by
        rw [← hsigned]
        exact (Session.approve_signed _ _).symm
      cases hsession : station.session with
      | idle => simp [hsession, Session.job?] at hjob
      | receiving draft => simp [hsession, Session.job?] at hjob
      | reviewing draft =>
        rw [hsession] at h hjob
        cases hjob
        exact ⟨rfl, draft.network, rfl, h⟩

/-- Whenever the key store is asked in a run, the notes before it present what it is asked to
sign. -/
theorem presented_of_transcript {past before after : List Entry} {entry : Entry} {job : SigningJob}
    {requests : List Request} (h : station.session.Backed past)
    (hlog : station.transcript store requests = before ++ entry :: after)
    (hsigned : entry.signed = some job) :
    entry.request = .change .approve ∧ ∃ network, job.algorithm = network.algorithm ∧
      Presented (past ++ before) job.path network job.message := by
  -- The notes grow by one entry with each request; the session stays backed by all of them.
  induction requests generalizing past before station with
  | nil => cases before <;> cases hlog
  | cons request rest ih =>
    rw [transcript] at hlog
    cases before with
    | nil =>
      obtain ⟨hentry, -⟩ := List.cons.inj hlog
      rw [List.append_nil]
      subst hentry
      have hpresented := presented_of_signed h hsigned
      rwa [← request_serve store station request] at hpresented
    | cons head before =>
      obtain ⟨hhead, hrest⟩ := List.cons.inj hlog
      have hpresented := ih (backed_serve h request) hrest
      rwa [hhead, List.append_assoc] at hpresented

/-- Every signature is made in an approval, and just before it the bytes that are signed were
delivered in one unbroken sequence of chunks under the path of the key; they are short enough, they
decode, and what was looked at since shows their fields on the network of the path. Between two
signatures there is a delivery for the second, so no delivery leads to more than one. -/
theorem signed_of_transcript (store : KeyStore Memory) (memory : Memory) (requests : List Request)
    {before after : List Entry} {entry : Entry} {job : SigningJob}
    (hlog : transcript store ⟨.idle, memory⟩ requests = before ++ entry :: after)
    (hsigned : entry.signed = some job) :
    entry.request = .change .approve ∧
    (∃ network, job.algorithm = network.algorithm ∧
      Presented before job.path network job.message) ∧
    ∀ earlier previous middle, before = earlier ++ previous :: middle → previous.signed ≠ none →
      ∃ network, job.algorithm = network.algorithm ∧
        Presented middle job.path network job.message := by
  have hidle : (Station.mk Session.idle memory).session.Backed [] := trivial
  obtain ⟨hrequest, network, halgorithm, hpresented⟩ :=
    presented_of_transcript hidle hlog hsigned
  refine ⟨hrequest, ⟨network, halgorithm, hpresented⟩, ?_⟩
  intro earlier previous middle hbefore hprevious
  rw [List.nil_append, hbefore] at hpresented
  exact ⟨network, halgorithm, presented_since_signed hpresented hprevious⟩

/-- The path of a key on the test network. -/
def testPath : DerivationPath :=
  ⟨[0x8000002c, 0x8000002b, 0x80000098], by decide⟩

/-- A delivery in two chunks, with looks between them and before the approval. -/
def approvedRequests : List Request :=
  [.change (.update (.signInit testPath true (Transaction.modifying []).header.encode)),
   .look .data,
   .change (.update (.signContinue false (Transaction.modifying []).content.encode)),
   .look .fields,
   .change .approve]

/-- The key store that signs everything with zeros, and counts. -/
def countingStore : KeyStore Nat :=
  fun count _ => (some ⟨List.replicate Limits.signatureLength 0, by decide⟩, count + 1)

theorem signed_of_transcript_approvedRequests :
    ∃ before entry after,
      transcript countingStore ⟨.idle, 0⟩ approvedRequests = before ++ entry :: after ∧
      entry.signed = some ⟨testPath, .keccak, (Transaction.modifying []).encode⟩ ∧
      entry.request = .change .approve ∧
      ∃ network, Algorithm.keccak = network.algorithm ∧
        Presented before testPath network (Transaction.modifying []).encode := by
  let log := transcript countingStore ⟨.idle, 0⟩ approvedRequests
  refine ⟨log.take 4, _, [], rfl, rfl, ?_⟩
  have h := signed_of_transcript countingStore 0 approvedRequests
    (show transcript countingStore ⟨.idle, 0⟩ approvedRequests = log.take 4 ++ _ :: [] from rfl) rfl
  exact ⟨h.1, h.2.1⟩

end Station

end NemSigner
