import NemSigner.Proofs.Transaction.Accounts
import NemSigner.Proofs.Transaction.MosaicDefinition
import NemSigner.Proofs.Transaction.Namespaces
import NemSigner.Proofs.Transaction.Transfer
import NemSigner.Transaction.Decode

/-!
# Carried transactions and their written form

A carried transaction is a header and an action, and nothing says where it ends but its content.
Carried transactions are therefore decoded one behind the other until their container is used up.

## Main statements

- `Action.decodeCarried_decodes`, `ActionTransaction.decode_decodes` — one carried transaction
- `ActionTransaction.decodeAll_ensures`, `ActionTransaction.decodeAll_yields` — all of a container
- `ActionTransaction.decodeWrapped_decodes` — the container with its length in front
- `ActionTransaction.encode_delimits` — the written form tells a carried transaction
-/

namespace NemSigner

open Decoder (Ensures Yields Decodes Exhausts)
open Cursor (readPrefixed_inverts atEnd_eq_ok position_eq_ok gives_append)

theorem TransactionKind.ofCode?_eq_some {number : Nat} {kind : TransactionKind} :
    Coded.ofCode? number = some kind ↔ number = Coded.code kind := by
  constructor
  · intro h
    have hfound := List.find?_some h
    exact (beq_iff_eq.mp hfound).symm
  · rintro rfl
    cases kind <;> rfl

theorem Header.kind_eq_ok {header : Header} {kind : TransactionKind} :
    header.kind = .ok kind ↔ header.typeNumber.toNat = Coded.code kind := by
  rw [← TransactionKind.ofCode?_eq_some, Header.kind]
  cases (Coded.ofCode? header.typeNumber.toNat : Option TransactionKind) <;> simp

theorem Header.WellFormed.valid {header : Header} {kind : TransactionKind}
    (h : header.WellFormed kind) : header.Valid :=
  h.2

theorem Header.WellFormed.kind_eq {header : Header} {kind : TransactionKind}
    (h : header.WellFormed kind) : header.kind = .ok kind :=
  Header.kind_eq_ok.mpr h.1

namespace Action

variable {header : Header}

theorem decodeCarried_decodes (hversion : header.version = 1 ∨ header.version = 2) :
    Decodes (decodeCarried id header)
      (fun action => header.kind = .ok action.kind ∧ action.WellFormed header.version) encode
      (fields header.feeField) := by
  constructor
  · rw [decodeCarried]
    cases hkind : header.kind with
    | error error => exact .throw_bind
    | ok kind =>
      cases kind with
      | transfer =>
        refine (Transfer.decode_decodes hversion).ensures.mono ?_
        rintro _ _ _ ⟨content, hvalid, rfl, rfl⟩
        exact ⟨.transfer content, ⟨rfl, hvalid⟩, rfl, rfl⟩
      | importanceTransfer =>
        refine (ImportanceTransfer.decode_decodes header).ensures.mono ?_
        rintro _ _ _ ⟨content, hvalid, rfl, rfl⟩
        exact ⟨.importanceTransfer content, ⟨rfl, hvalid⟩, rfl, rfl⟩
      | aggregateModification =>
        refine (AggregateModification.decode_decodes hversion).ensures.mono ?_
        rintro _ _ _ ⟨content, hvalid, rfl, rfl⟩
        exact ⟨.aggregateModification content, ⟨rfl, hvalid⟩, rfl, rfl⟩
      | multisigSignature =>
        refine (Cosignature.decode_fee_decodes header).ensures.mono ?_
        rintro _ _ _ ⟨content, hvalid, rfl, rfl⟩
        exact ⟨.cosignature content, ⟨rfl, hvalid⟩, rfl, rfl⟩
      | multisig => exact .of_throw
      | provisionNamespace =>
        refine (NamespaceProvision.decode_decodes header).ensures.mono ?_
        rintro _ _ _ ⟨content, hvalid, rfl, rfl⟩
        exact ⟨.namespaceProvision content, ⟨rfl, hvalid⟩, rfl, rfl⟩
      | mosaicDefinition =>
        refine (MosaicDefinition.decode_decodes header).ensures.mono ?_
        rintro _ _ _ ⟨content, hvalid, rfl, rfl⟩
        exact ⟨.mosaicDefinition content, ⟨rfl, hvalid⟩, rfl, rfl⟩
      | mosaicSupplyChange =>
        refine (SupplyChange.decode_decodes header).ensures.mono ?_
        rintro _ _ _ ⟨content, hvalid, rfl, rfl⟩
        exact ⟨.supplyChange content, ⟨rfl, hvalid⟩, rfl, rfl⟩
  · rintro action ⟨hkind, hvalid⟩ cursor next hgives
    rw [decodeCarried, hkind]
    cases action with
    | transfer content => exact (Transfer.decode_decodes hversion).yields hvalid hgives
    | importanceTransfer content =>
      exact (ImportanceTransfer.decode_decodes header).yields hvalid hgives
    | aggregateModification content =>
      exact (AggregateModification.decode_decodes hversion).yields hvalid hgives
    | cosignature content => exact (Cosignature.decode_fee_decodes header).yields hvalid hgives
    | namespaceProvision content =>
      exact (NamespaceProvision.decode_decodes header).yields hvalid hgives
    | mosaicDefinition content =>
      exact (MosaicDefinition.decode_decodes header).yields hvalid hgives
    | supplyChange content => exact (SupplyChange.decode_decodes header).yields hvalid hgives

/-- Within one kind and one version the written form of an action tells the action. -/
theorem encode_delimits (kind : TransactionKind) (version : UInt8) :
    Delimits (fun action => action.kind = kind ∧ action.WellFormed version) encode
      fun action => action := by
  rintro action action' rest rest' ⟨rfl, hvalid⟩ ⟨hkind, hvalid'⟩ h
  cases action with
  | transfer content =>
    cases action' with
    | transfer content' =>
      obtain ⟨rfl, hrest⟩ := Transfer.encode_delimits version hvalid hvalid' h
      exact ⟨rfl, hrest⟩
    | _ => cases hkind
  | importanceTransfer content =>
    cases action' with
    | importanceTransfer content' =>
      obtain ⟨rfl, hrest⟩ := ImportanceTransfer.encode_delimits hvalid hvalid' h
      exact ⟨rfl, hrest⟩
    | _ => cases hkind
  | aggregateModification content =>
    cases action' with
    | aggregateModification content' =>
      obtain ⟨rfl, hrest⟩ := AggregateModification.encode_delimits version hvalid hvalid' h
      exact ⟨rfl, hrest⟩
    | _ => cases hkind
  | cosignature content =>
    cases action' with
    | cosignature content' =>
      obtain ⟨rfl, hrest⟩ := Cosignature.encode_delimits hvalid hvalid' h
      exact ⟨rfl, hrest⟩
    | _ => cases hkind
  | namespaceProvision content =>
    cases action' with
    | namespaceProvision content' =>
      obtain ⟨rfl, hrest⟩ := NamespaceProvision.encode_delimits hvalid hvalid' h
      exact ⟨rfl, hrest⟩
    | _ => cases hkind
  | mosaicDefinition content =>
    cases action' with
    | mosaicDefinition content' =>
      obtain ⟨rfl, hrest⟩ := MosaicDefinition.encode_delimits hvalid hvalid' h
      exact ⟨rfl, hrest⟩
    | _ => cases hkind
  | supplyChange content =>
    cases action' with
    | supplyChange content' =>
      obtain ⟨rfl, hrest⟩ := SupplyChange.encode_delimits hvalid hvalid' h
      exact ⟨rfl, hrest⟩
    | _ => cases hkind

end Action

namespace Header

/-- The number of a kind is its own. -/
theorem WellFormed.kind_unique {header : Header} {kind kind' : TransactionKind}
    (h : header.WellFormed kind) (h' : header.WellFormed kind') : kind = kind' := by
  have hkind := h.kind_eq
  rw [h'.kind_eq] at hkind
  exact (Except.ok.inj hkind).symm

/-- A header that was read is well formed as soon as its number has a kind. -/
theorem Valid.wellFormed {header : Header} {kind : TransactionKind} (h : header.Valid)
    (hkind : header.kind = .ok kind) : header.WellFormed kind :=
  ⟨Header.kind_eq_ok.mp hkind, h⟩

end Header

namespace ActionTransaction

theorem decode_decodes (typeId : FieldId) :
    Decodes (decode id typeId) WellFormed encode (fields typeId) := by
  constructor
  · rw [decode]
    refine .read Header.read_inverts fun header hheader => .emit ?_
    refine (Action.decodeCarried_decodes hheader.1).ensures.mono ?_
    rintro _ _ _ ⟨action, ⟨hkind, hvalid⟩, rfl, rfl⟩
    exact ⟨⟨header, action⟩, ⟨hheader.wellFormed hkind, hvalid⟩, rfl, rfl⟩
  · rintro ⟨header, action⟩ ⟨hheader, hvalid⟩ cursor next hgives
    obtain ⟨middle, hgives, hgives'⟩ := gives_append.mp hgives
    have hread := (Header.read_inverts _ _ _).mpr ⟨hheader.valid, hgives⟩
    rw [decode]
    exact .read hread (.emit rfl
      ((Action.decodeCarried_decodes hheader.valid.1).yields ⟨hheader.kind_eq, hvalid⟩ hgives'))

theorem encode_delimits : Delimits WellFormed encode fun transaction => transaction := by
  rintro ⟨header, action⟩ ⟨header', action'⟩ rest rest' ⟨hheader, hvalid⟩ ⟨hheader', hvalid'⟩ h
  simp only [encode, List.append_assoc] at h
  obtain ⟨rfl, htail⟩ := Header.encode_append_inj hheader.valid hheader'.valid h
  obtain ⟨rfl, hrest⟩ := Action.encode_delimits action.kind header.version ⟨rfl, hvalid⟩
    ⟨(hheader.kind_unique hheader').symm, hvalid'⟩ htail
  exact ⟨rfl, hrest⟩

theorem encode_ne_nil (transaction : ActionTransaction) : transaction.encode ≠ [] := by
  intro h
  have hlength := congrArg List.length h
  simp only [encode, Header.encode, Header.typeBytes, List.length_append, Bytes.length_ofNatLE,
    List.length_nil] at hlength
  omega

theorem decodeAll_exhausts (typeId : FieldId) (turns : Nat) :
    Exhausts (decodeAll id typeId turns) := by
  induction turns with
  | zero => exact .of_atEnd .of_throw rfl
  | succ turns ih =>
    refine .of_atEnd (.bind fun before => .bind fun _ => .bind fun after => ?_) rfl
    dsimp only
    split
    · exact .bind fun _ => ih
    · exact ih

/-- Whatever number of turns is allowed, a container that is used up held carried transactions. -/
theorem decodeAll_ensures (typeId : FieldId) (turns : Nat) :
    Ensures (decodeAll id typeId turns) fun _ written collected =>
      ∃ carried : List ActionTransaction, (∀ transaction ∈ carried, transaction.WellFormed) ∧
        written = encodeAll carried ∧ collected = carried.flatMap (fields typeId) := by
  have hnone : ∃ carried : List ActionTransaction,
      (∀ transaction ∈ carried, transaction.WellFormed) ∧ ([] : Bytes) = encodeAll carried ∧
        ([] : List Field) = carried.flatMap (fields typeId) :=
    ⟨[], by simp, rfl, rfl⟩
  -- Nothing says how many transactions there are, so the induction is on the turns.
  induction turns with
  | zero =>
    refine .look atEnd_eq_ok fun stopped => ?_
    cases stopped with
    | false => exact .of_throw
    | true => exact .pure hnone
  | succ turns ih =>
    refine .look atEnd_eq_ok fun stopped => ?_
    cases stopped with
    | true => exact .pure hnone
    | false =>
      refine .look position_eq_ok fun before => ?_
      refine .decode (decode_decodes typeId) fun transaction hvalid => ?_
      refine .look position_eq_ok fun after => ?_
      dsimp only
      split
      · exact .throw_bind
      · refine ih.mono ?_
        rintro _ _ _ ⟨carried, hcarried, rfl, rfl⟩
        exact ⟨transaction :: carried, List.forall_mem_cons.mpr ⟨hvalid, hcarried⟩, rfl, rfl⟩

/-- A turn for each carried transaction is enough, since each of them moves the cursor. -/
theorem decodeAll_yields (typeId : FieldId) {carried : List ActionTransaction} {turns : Nat}
    {cursor next : Cursor} (hvalid : ∀ transaction ∈ carried, transaction.WellFormed)
    (hturns : carried.length ≤ turns) (hgives : cursor.Gives (encodeAll carried) next)
    (hend : next.isExhausted = true) :
    Yields (decodeAll id typeId turns) cursor next () (carried.flatMap (fields typeId)) := by
  -- Each transaction takes one turn; the bound on their number drops with it.
  induction carried generalizing turns cursor with
  | nil =>
    obtain rfl := hgives.eq_of_nil
    have hstop := atEnd_eq_ok.mpr ⟨hend, rfl⟩
    cases turns with
    | zero => exact .read hstop .pure
    | succ turns => exact .read hstop .pure
  | cons transaction carried ih =>
    obtain ⟨hfirst, hothers⟩ := List.forall_mem_cons.mp hvalid
    obtain ⟨middle, hgives, hgives'⟩ := gives_append.mp hgives
    obtain ⟨hmore, hmoved⟩ := hgives.moves transaction.encode_ne_nil
    cases turns with
    | zero => cases hturns
    | succ turns =>
      have hrest := ih hothers (Nat.le_of_succ_le_succ hturns) hgives'
      rw [decodeAll]
      refine .read (atEnd_eq_ok.mpr ⟨hmore, rfl⟩) (.read (position_eq_ok.mpr ⟨rfl, rfl⟩) ?_)
      refine ((decode_decodes typeId).yields hfirst hgives).bind ?_
      refine .read (position_eq_ok.mpr ⟨rfl, rfl⟩) ?_
      dsimp only
      rw [if_neg hmoved]
      exact hrest

theorem encodeAll_ne_nil {carried : List ActionTransaction} (h : carried ≠ []) :
    encodeAll carried ≠ [] := by
  cases carried with
  | nil => exact absurd rfl h
  | cons transaction carried =>
    intro hnil
    exact transaction.encode_ne_nil (List.append_eq_nil_iff.mp hnil).1

/-- The container holds one carried transaction at least, and nothing beside them. -/
theorem decodeWrapped_decodes (header : Header) (typeId : FieldId) :
    Decodes (decodeWrapped id header typeId) AllWellFormed
      (fun carried => Bytes.prefixed (encodeAll carried))
      (fun carried =>
        ⟨.multisigFee, .xem, header.feeBytes⟩ :: carried.flatMap (fields typeId)) := by
  constructor
  · refine .read readPrefixed_inverts fun data hdata => .emit ?_
    dsimp only
    split
    · exact .throw_bind
    · next hsome =>
      refine ((decodeAll_ensures typeId _).within (decodeAll_exhausts typeId _)).mono ?_
      rintro _ _ _ ⟨rfl, carried, hvalid, rfl, rfl⟩
      refine ⟨carried, ⟨?_, hvalid, hdata⟩, List.append_nil _, rfl⟩
      rintro rfl
      exact hsome rfl
  · rintro carried ⟨hsome, hvalid, hlength⟩ cursor next hgives
    -- There are as many turns as bytes, and every transaction has a byte at least.
    have hcount := Bytes.length_le_length_flatMap encode_ne_nil carried
    have hread := (readPrefixed_inverts _ _ _).mpr ⟨hlength, hgives⟩
    refine .read hread (.emit rfl ?_)
    dsimp only
    rw [if_neg (encodeAll_ne_nil hsome)]
    exact (decodeAll_yields typeId hvalid hcount (Cursor.start_gives _)
      (Cursor.end_isExhausted _)).within next

/-- Carried transactions fill their container in one way only. -/
theorem encodeAll_inj {carried carried' : List ActionTransaction}
    (hvalid : ∀ transaction ∈ carried, transaction.WellFormed)
    (hvalid' : ∀ transaction ∈ carried', transaction.WellFormed)
    (h : encodeAll carried = encodeAll carried') : carried = carried' := by
  have hsame := encode_delimits.flatMap_whole encode_ne_nil hvalid hvalid' h
  rwa [List.map_id', List.map_id'] at hsame

end ActionTransaction

end NemSigner
