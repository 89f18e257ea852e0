import NemSigner.Proofs.Transaction.Carried

/-!
# The grammar of transactions

The well formed transactions and their written forms are a grammar, and decoding accepts it and
nothing else. A cosignature is the one content that cannot be told from its beginning: what it
carries, if it carries anything, is found by asking whether the bytes are at an end.

## Main statements

- `Transaction.decode_sound` — what is decoded is the written form of a transaction
- `Transaction.decode_encode` — the written form of a transaction is decoded to its fields
- `Transaction.encode_inj` — no two transactions have the same written form
- `Transaction.decode_grammar` — decoding accepts exactly the grammar
-/

namespace NemSigner

open Decoder (Ensures Yields)
open Cursor (atEnd_eq_ok gives_append)

namespace Content

variable {header : Header}

/-- The fields of an action that is carried by nothing are those of the action. -/
theorem decodeCarried_ensures (hversion : header.version = 1 ∨ header.version = 2) :
    Ensures (Action.decodeCarried id header) fun _ written collected =>
      ∃ content : Content, header.kind = .ok content.kind ∧ content.WellFormed header.version ∧
        written = content.encode ∧ collected = content.fields header := by
  refine (Action.decodeCarried_decodes hversion).ensures.mono ?_
  rintro _ _ _ ⟨action, ⟨hkind, hvalid⟩, rfl, rfl⟩
  exact ⟨.action action, hkind, hvalid, rfl, rfl⟩

theorem decode_of_multisigSignature (hkind : header.kind = .ok .multisigSignature) :
    decode id header = (do
      Cosignature.decode
      if ← Cursor.atEnd then header.emitFee
      else ActionTransaction.decodeWrapped id header .detailTransactionType) := by
  rw [decode, hkind]
  rfl

theorem decode_ensures (hversion : header.version = 1 ∨ header.version = 2) :
    Ensures (decode id header) fun _ written collected =>
      ∃ content : Content, header.kind = .ok content.kind ∧ content.WellFormed header.version ∧
        written = content.encode ∧ collected = content.fields header := by
  have hcarried := decodeCarried_ensures hversion
  by_cases hsignature : header.kind = .ok .multisigSignature
  · rw [decode_of_multisigSignature hsignature]
    refine .decode Cosignature.decode_decodes fun cosignature hvalid => ?_
    refine .look atEnd_eq_ok fun stopped => ?_
    split
    · exact .emit_last
        ⟨.action (.cosignature cosignature), hsignature, hvalid, List.append_nil _, rfl⟩
    · refine (ActionTransaction.decodeWrapped_decodes header _).ensures.mono ?_
      rintro _ _ _ ⟨carried, hcarried, rfl, rfl⟩
      exact ⟨.cosigned cosignature carried, hsignature, ⟨hvalid, hcarried⟩, rfl, rfl⟩
  · rw [decode]
    cases hkind : header.kind with
    | error error => exact .throw_bind
    | ok kind =>
      rw [hkind] at hcarried hsignature
      cases kind with
      | multisig =>
        refine (ActionTransaction.decodeWrapped_decodes header _).ensures.mono ?_
        rintro _ _ _ ⟨carried, hvalid, rfl, rfl⟩
        exact ⟨.multisig carried, rfl, hvalid, rfl, rfl⟩
      | multisigSignature => exact absurd rfl hsignature
      | _ => exact hcarried

/-- At the end of the bytes the cosignature that carries nothing is known from the others. All other
contents are decoded whatever stands behind them. -/
theorem decode_yields {content : Content} {cursor next : Cursor}
    (hversion : header.version = 1 ∨ header.version = 2) (hkind : header.kind = .ok content.kind)
    (hvalid : content.WellFormed header.version) (hgives : cursor.Gives content.encode next)
    (hend : ∀ cosignature, content = .action (.cosignature cosignature) →
      next.isExhausted = true) :
    Yields (decode id header) cursor next () (content.fields header) := by
  cases content with
  | multisig carried =>
    rw [decode, hkind]
    exact (ActionTransaction.decodeWrapped_decodes header _).yields hvalid hgives
  | cosigned cosignature carried =>
    obtain ⟨middle, hgives, hgives'⟩ := gives_append.mp hgives
    -- What is carried has its length in front, so the bytes are not at an end.
    obtain ⟨hmore, -⟩ := hgives'.moves (Bytes.prefixed_ne_nil _)
    rw [decode_of_multisigSignature hkind]
    refine (Cosignature.decode_decodes.yields hvalid.1 hgives).bind ?_
    refine .read (atEnd_eq_ok.mpr ⟨hmore, rfl⟩) ?_
    exact (ActionTransaction.decodeWrapped_decodes header _).yields hvalid.2 hgives'
  | action action =>
    have hcarried := (Action.decodeCarried_decodes hversion).yields ⟨hkind, hvalid⟩ hgives
    -- Only here it matters that nothing follows: the decoder looks before it takes the fee.
    cases action with
    | cosignature cosignature =>
      rw [decode_of_multisigSignature hkind]
      refine (Cosignature.decode_decodes.yields hvalid hgives).bind ?_
      exact .read (atEnd_eq_ok.mpr ⟨hend cosignature rfl, rfl⟩) (.emit_last rfl)
    | _ =>
      rw [decode, hkind]
      exact hcarried

theorem kind_ne_multisig (action : Action) : action.kind ≠ .multisig := by
  cases action <;> exact TransactionKind.noConfusion

/-- A cosignature that carries something is longer than it would be without. -/
theorem encode_action_ne_cosigned {version : UInt8} {action : Action} {cosignature : Cosignature}
    (carried : List ActionTransaction) (hkind : action.kind = .multisigSignature)
    (hvalid : action.WellFormed version) (hvalid' : cosignature.WellFormed) :
    action.encode ≠ (cosigned cosignature carried).encode := by
  intro h
  cases action with
  | cosignature cosignature' =>
    have happend : cosignature'.encode ++ [] = (cosigned cosignature carried).encode := by
      rw [List.append_nil]
      exact h
    obtain ⟨-, hrest⟩ := Cosignature.encode_delimits hvalid hvalid' happend
    exact Bytes.prefixed_ne_nil _ hrest.symm
  | _ => cases hkind

/-- Within one kind and one version the written form of a content tells the content. -/
theorem encode_inj {version : UInt8} {content content' : Content}
    (hkind : content.kind = content'.kind) (hvalid : content.WellFormed version)
    (hvalid' : content'.WellFormed version) (h : content.encode = content'.encode) :
    content = content' := by
  cases content with
  | action action =>
    cases content' with
    | action action' =>
      have hsame := (Action.encode_delimits action.kind version).whole ⟨rfl, hvalid⟩
        ⟨hkind.symm, hvalid'⟩ h
      exact congrArg Content.action hsame
    | multisig carried' => exact absurd hkind (kind_ne_multisig action)
    | cosigned cosignature' carried' =>
      exact absurd h (encode_action_ne_cosigned carried' hkind hvalid hvalid'.1)
  | multisig carried =>
    cases content' with
    | action action' => exact absurd hkind.symm (kind_ne_multisig action')
    | multisig carried' =>
      have hbytes := Bytes.prefixed_inj hvalid.2.2 hvalid'.2.2 h
      rw [ActionTransaction.encodeAll_inj hvalid.2.1 hvalid'.2.1 hbytes]
    | cosigned cosignature' carried' => cases hkind
  | cosigned cosignature carried =>
    cases content' with
    | action action' =>
      exact absurd h.symm (encode_action_ne_cosigned carried hkind.symm hvalid' hvalid.1)
    | multisig carried' => cases hkind
    | cosigned cosignature' carried' =>
      obtain ⟨rfl, hrest⟩ := Cosignature.encode_delimits hvalid.1 hvalid'.1 h
      have hbytes := Bytes.prefixed_inj hvalid.2.2.2 hvalid'.2.2.2 hrest
      rw [ActionTransaction.encodeAll_inj hvalid.2.2.1 hvalid'.2.2.1 hbytes]

end Content

namespace Transaction

variable {transaction transaction' : Transaction} {data : Bytes} {table : FieldTable}

/-- What is decoded is the written form of a transaction, and the table holds its fields. -/
theorem decode_sound (h : decode data = .ok table) :
    ∃ transaction : Transaction, transaction.WellFormed ∧ transaction.encode = data ∧
      table.toList = transaction.fields := by
  have hensures : Ensures
      (do
        let header ← Header.read
        Decoder.emit .transactionType .uint32 header.typeBytes
        Content.decode id header)
      fun _ written collected => ∃ transaction : Transaction,
        transaction.WellFormed ∧ transaction.encode = written ∧ collected = transaction.fields := by
    refine .read Header.read_inverts fun header hheader => .emit ?_
    refine (Content.decode_ensures hheader.1).mono ?_
    rintro _ _ _ ⟨content, hkind, hvalid, rfl, rfl⟩
    exact ⟨⟨header, content⟩, ⟨hheader.wellFormed hkind, hvalid⟩, rfl, rfl⟩
  exact hensures.run h

/-- The written form of a transaction at the front of the bytes is decoded to its fields. Only a
cosignature that carries nothing has to stand at their end. -/
theorem decode_yields {next : Cursor} (hvalid : transaction.WellFormed)
    (hgives : (Cursor.start data).Gives transaction.encode next)
    (hend : ∀ cosignature, transaction.content = .action (.cosignature cosignature) →
      next.isExhausted = true) :
    Yields
      (do
        let header ← Header.read
        Decoder.emit .transactionType .uint32 header.typeBytes
        Content.decode id header)
      (Cursor.start data) next () transaction.fields := by
  obtain ⟨hheader, hcontent⟩ := hvalid
  obtain ⟨middle, hgives, hgives'⟩ := gives_append.mp hgives
  have hread := (Header.read_inverts _ _ _).mpr ⟨hheader.valid, hgives⟩
  refine .read hread (.emit rfl ?_)
  exact Content.decode_yields hheader.valid.1 hheader.kind_eq hcontent hgives' hend

/-- The written form of a transaction is decoded to its fields, when a table has room for them. -/
theorem decode_encode (hvalid : transaction.WellFormed) :
    decode transaction.encode = FieldTable.ofFields transaction.fields :=
  (decode_yields hvalid (Cursor.start_gives _) fun _ _ => Cursor.end_isExhausted _).run

/-- Behind a transaction nothing can stand, unless it is a cosignature that carries nothing. -/
theorem decode_append {more : Bytes} (hvalid : transaction.WellFormed)
    (hroom : transaction.fields.length ≤ Limits.maxFieldCount)
    (hbare : ∀ cosignature, transaction.content ≠ .action (.cosignature cosignature))
    (hmore : more ≠ []) : decode (transaction.encode ++ more) = .error .invalidData := by
  obtain ⟨next, hgives, hrest⟩ := gives_append.mp (Cursor.start_gives (transaction.encode ++ more))
  have hyields := decode_yields hvalid hgives fun cosignature h => absurd h (hbare cosignature)
  exact hyields.run_of_more hroom (hrest.moves hmore).1

/-- No two transactions have the same written form. -/
theorem encode_inj (hvalid : transaction.WellFormed) (hvalid' : transaction'.WellFormed)
    (h : transaction.encode = transaction'.encode) : transaction = transaction' := by
  obtain ⟨header, content⟩ := transaction
  obtain ⟨header', content'⟩ := transaction'
  obtain ⟨hheader, hcontent⟩ := hvalid
  obtain ⟨hheader', hcontent'⟩ := hvalid'
  obtain ⟨rfl, htail⟩ := Header.encode_append_inj hheader.valid hheader'.valid h
  have hsame := Content.encode_inj (hheader.kind_unique hheader') hcontent hcontent' htail
  rw [show content = content' from hsame]

/-- Decoding accepts exactly the written forms of the transactions that have no more fields than a
table has room for. There is one such transaction for every accepted byte string, and the table
holds its fields; a transaction with more fields is refused for their number. -/
theorem decode_grammar :
    (∀ data table, decode data = .ok table ↔
      ∃ transaction : Transaction, transaction.WellFormed ∧ transaction.encode = data ∧
        transaction.fields.length ≤ Limits.maxFieldCount ∧ table.toList = transaction.fields) ∧
    (∀ transaction transaction' : Transaction, transaction.WellFormed → transaction'.WellFormed →
      transaction.encode = transaction'.encode → transaction = transaction') ∧
    ∀ transaction : Transaction, transaction.WellFormed →
      Limits.maxFieldCount < transaction.fields.length →
      decode transaction.encode = .error .tooManyFields := by
  refine ⟨fun data table => ⟨fun h => ?_, ?_⟩, fun transaction transaction' => encode_inj, ?_⟩
  · obtain ⟨transaction, hvalid, hencode, htable⟩ := decode_sound h
    exact ⟨transaction, hvalid, hencode, htable ▸ table.length_le, htable⟩
  · rintro ⟨transaction, hvalid, rfl, -, htable⟩
    rw [decode_encode hvalid, FieldTable.ofFields_eq_ok, htable]
  · intro transaction hvalid hmany
    rw [decode_encode hvalid, FieldTable.ofFields, dif_neg (Nat.not_le_of_lt hmany)]

/-- A transaction that makes some modifications, in the first version. -/
def modifying (modifications : List Modification) : Transaction where
  header :=
    { typeNumber := 0x1001
      version := 1
      reserved := 0
      network := 0x98
      timestamp := 0
      signer := List.replicate Limits.publicKeyLength 0
      fee := 0
      deadline := 0 }
  content := .action (.aggregateModification ⟨modifications, .absent⟩)

theorem modifying_wellFormed {modifications : List Modification}
    (hlength : modifications.length < UInt32.size)
    (hvalid : ∀ modification ∈ modifications, modification.WellFormed) :
    (modifying modifications).WellFormed :=
  ⟨⟨rfl, .inl rfl, rfl⟩, hlength, hvalid, by simp [modifying]⟩

/-- The modification that adds a cosignatory. -/
def adding : Modification where
  type := 1
  cosignatory := List.replicate Limits.publicKeyLength 0

theorem adding_wellFormed : adding.WellFormed :=
  List.length_replicate

/-- A transaction with one modification is the only one with its written form, and is decoded to its
fields. One with as many modifications as a table has fields is refused. -/
theorem decode_grammar_modifying :
    decode (modifying [adding]).encode = .ok ⟨(modifying [adding]).fields, by decide⟩ ∧
    (∀ transaction : Transaction, transaction.WellFormed →
      transaction.encode = (modifying [adding]).encode → transaction = modifying [adding]) ∧
    decode (modifying (List.replicate Limits.maxFieldCount adding)).encode =
      .error .tooManyFields := by
  have hadding : (modifying [adding]).WellFormed :=
    modifying_wellFormed (by decide) (List.forall_mem_singleton.mpr adding_wellFormed)
  obtain ⟨haccepted, hunique, hcrowded⟩ := decode_grammar
  refine ⟨?_, fun transaction hvalid => hunique _ _ hvalid hadding, ?_⟩
  · exact (haccepted _ _).mpr ⟨modifying [adding], hadding, rfl, by decide, rfl⟩
  · refine hcrowded _ (modifying_wellFormed (by decide) ?_) (by decide)
    intro modification hmem
    rw [List.eq_of_mem_replicate hmem]
    exact adding_wellFormed

end Transaction

end NemSigner
