import NemSigner.Proofs.Transaction.Grammar
import NemSigner.Proofs.Transaction.Review

/-!
# Transactions with the same review

The bytes that are signed are fixed by the fields that are shown, up to the hidden parts. The type,
which is shown first, says which content follows. Carried transactions are found one by one,
since the fields of each end where those of the next begin.

## Main statements

- `ActionTransaction.fields_delimits` — the fields of carried transactions are told apart
- `Transaction.visible_eq_of_fields` — transactions with the same fields have the same visible part
- `Transaction.table_eq_iff_visible_eq` — so have byte strings that are decoded to the same table
-/

namespace NemSigner

variable {version version' : UInt8}

/-- Where it makes a difference, the version can be told from what is visible. -/
theorem Action.version_eq {action action' : Action} (hforms : action.kind.hasVersions = true)
    (hversion : version = 1 ∨ version = 2) (hversion' : version' = 1 ∨ version' = 2)
    (hvalid : action.WellFormed version) (hvalid' : action'.WellFormed version')
    (h : action.visible = action'.visible) : version = version' := by
  -- The second version is the one whose content has a part more.
  have hsecond : version = 2 ↔ version' = 2 := by
    cases action with
    | transfer content =>
      cases action' with
      | transfer content' =>
        have hsame : content.visible = content'.visible := Action.transfer.inj h
        rw [← hvalid.2.2.1, ← hvalid'.2.2.1, ← content.visible_mosaics, hsame,
          content'.visible_mosaics]
      | _ => cases h
    | aggregateModification content =>
      cases action' with
      | aggregateModification content' =>
        have hsame : content.visible = content'.visible := Action.aggregateModification.inj h
        rw [← hvalid.2.2, ← hvalid'.2.2, ← content.visible_change_ne_absent, hsame,
          content'.visible_change_ne_absent]
      | _ => cases h
    | _ => cases hforms
  rcases hversion with rfl | rfl
  · exact (hversion'.resolve_right fun htwo => absurd (hsecond.mpr htwo) (by decide)).symm
  · exact (hsecond.mp rfl).symm

namespace Header

variable {header header' : Header} {kind kind' : TransactionKind}

/-- The type tells the kind. -/
theorem WellFormed.kind_eq_of_typeBytes (h : header.WellFormed kind) (h' : header'.WellFormed kind')
    (htype : header.typeBytes = header'.typeBytes) : kind = kind' := by
  have hnumber : header.typeNumber = header'.typeNumber := Bytes.ofNatLE_uint32_inj.mp htype
  have hkind := h.kind_eq
  rw [Header.kind, hnumber, ← Header.kind, h'.kind_eq] at hkind
  exact (Except.ok.inj hkind).symm

/-- The bytes of the type and the fee, and the version of the kinds that have more than one form,
are all that is visible of a header. -/
theorem visible_eq (htype : header.typeBytes = header'.typeBytes)
    (hfee : header.feeBytes = header'.feeBytes)
    (hversion : kind.hasVersions = true → header.version = header'.version) :
    header.visible kind = header'.visible kind := by
  have hnumber : header.typeNumber = header'.typeNumber := Bytes.ofNatLE_uint32_inj.mp htype
  have hamount : header.fee = header'.fee := Bytes.ofNatLE_uint64_inj.mp hfee
  rw [visible, visible, hnumber, hamount]
  cases hforms : kind.hasVersions with
  | true => rw [hversion hforms]
  | false => rfl

end Header

namespace ActionTransaction

/-- The fields of a carried transaction are told from those of the next. -/
theorem fields_delimits (typeId : FieldId) : Delimits WellFormed (fields typeId) visible := by
  rintro ⟨header, action⟩ ⟨header', action'⟩ rest rest' ⟨hheader, hvalid⟩ ⟨hheader', hvalid'⟩ h
  obtain ⟨-, htype, hfields⟩ := Field.cons_inj h
  have hkind := hheader.kind_eq_of_typeBytes hheader' htype
  obtain ⟨haction, hfee, hrest⟩ := Action.fields_inj hkind hvalid hvalid' hfields
  refine ⟨?_, hrest⟩
  have hshown := Header.visible_eq htype hfee fun hforms =>
    Action.version_eq hforms hheader.2.1 hheader'.2.1 hvalid hvalid' haction
  simp only [visible, haction, hshown, ← hkind]

theorem fields_ne_nil (typeId : FieldId) (transaction : ActionTransaction) :
    transaction.fields typeId ≠ [] :=
  List.cons_ne_nil _ _

theorem flatMap_fields_inj {typeId : FieldId} {carried carried' : List ActionTransaction}
    (hvalid : AllWellFormed carried) (hvalid' : AllWellFormed carried')
    (h : carried.flatMap (fields typeId) = carried'.flatMap (fields typeId)) :
    carried.map visible = carried'.map visible :=
  (fields_delimits typeId).flatMap_whole (fields_ne_nil typeId) hvalid.2.1 hvalid'.2.1 h

end ActionTransaction

namespace Content

variable {header header' : Header} {content content' : Content}

theorem version_eq (hforms : content.kind.hasVersions = true)
    (hversion : version = 1 ∨ version = 2) (hversion' : version' = 1 ∨ version' = 2)
    (hvalid : content.WellFormed version) (hvalid' : content'.WellFormed version')
    (h : content.visible = content'.visible) : version = version' := by
  cases content with
  | action action =>
    cases content' with
    | action action' =>
      exact Action.version_eq hforms hversion hversion' hvalid hvalid' (Content.action.inj h)
    | _ => cases h
  | _ => cases hforms

/-- A cosignature that carries nothing shows its fee under another identifier. -/
theorem fields_action_ne_cosigned {action : Action} {cosignature : Cosignature}
    (carried : List ActionTransaction) (hkind : action.kind = .multisigSignature) :
    (Content.action action).fields header ≠ (cosigned cosignature carried).fields header' := by
  intro h
  cases action with
  | cosignature cosignature' =>
    obtain ⟨-, hfee⟩ := Cosignature.fields_inj h
    cases (Field.cons_inj hfee).1
  | _ => cases hkind

/-- Within one kind the fields of a content fix its visible part and the fee. -/
theorem fields_inj (hkind : content.kind = content'.kind)
    (hvalid : content.WellFormed header.version) (hvalid' : content'.WellFormed header'.version)
    (h : content.fields header = content'.fields header') :
    content.visible = content'.visible ∧ header.feeBytes = header'.feeBytes := by
  cases content with
  | action action =>
    cases content' with
    | action action' =>
      have happend : action.fields header.feeField ++ [] = action'.fields header'.feeField ++ [] :=
        congrArg (· ++ []) h
      obtain ⟨haction, hfee, -⟩ := Action.fields_inj hkind hvalid hvalid' happend
      exact ⟨congrArg Content.action haction, hfee⟩
    | multisig carried' => exact absurd hkind (kind_ne_multisig action)
    | cosigned cosignature' carried' => exact absurd h (fields_action_ne_cosigned carried' hkind)
  | multisig carried =>
    cases content' with
    | action action' => exact absurd hkind.symm (kind_ne_multisig action')
    | multisig carried' =>
      obtain ⟨-, hfee, hcarried⟩ := Field.cons_inj h
      have hsame := ActionTransaction.flatMap_fields_inj hvalid hvalid' hcarried
      exact ⟨congrArg Content.multisig hsame, hfee⟩
    | cosigned cosignature' carried' => cases hkind
  | cosigned cosignature carried =>
    cases content' with
    | action action' => exact absurd h.symm (fields_action_ne_cosigned carried hkind.symm)
    | multisig carried' => cases hkind
    | cosigned cosignature' carried' =>
      obtain ⟨rfl, hlast⟩ := Cosignature.fields_inj h
      obtain ⟨-, hfee, hcarried⟩ := Field.cons_inj hlast
      have hsame := ActionTransaction.flatMap_fields_inj hvalid.2 hvalid'.2 hcarried
      exact ⟨congrArg (Content.cosigned cosignature) hsame, hfee⟩

end Content

namespace Transaction

variable {transaction transaction' : Transaction} {data data' : Bytes} {table table' : FieldTable}

/-- Transactions with the same fields have the same visible part. -/
theorem visible_eq_of_fields (hvalid : transaction.WellFormed) (hvalid' : transaction'.WellFormed)
    (h : transaction.fields = transaction'.fields) :
    transaction.visible = transaction'.visible := by
  obtain ⟨header, content⟩ := transaction
  obtain ⟨header', content'⟩ := transaction'
  obtain ⟨hheader, hcontent⟩ := hvalid
  obtain ⟨hheader', hcontent'⟩ := hvalid'
  obtain ⟨-, htype, hfields⟩ := Field.cons_inj h
  have hkind := hheader.kind_eq_of_typeBytes hheader' htype
  obtain ⟨hsame, hfee⟩ := Content.fields_inj hkind hcontent hcontent' hfields
  have hshown := Header.visible_eq htype hfee fun hforms =>
    Content.version_eq hforms hheader.2.1 hheader'.2.1 hcontent hcontent' hsame
  simp only [visible, hsame, hshown, ← hkind]

theorem fields_eq_iff_visible_eq (hvalid : transaction.WellFormed)
    (hvalid' : transaction'.WellFormed) :
    transaction.fields = transaction'.fields ↔ transaction.visible = transaction'.visible := by
  constructor
  · exact visible_eq_of_fields hvalid hvalid'
  · intro h
    rw [← visible_fields transaction, ← visible_fields transaction', h]

/-- Of two byte strings that are decoded, each is the written form of one transaction. The tables
are the same exactly when these agree on all that is visible. -/
theorem table_eq_iff_visible_eq (h : decode data = .ok table) (h' : decode data' = .ok table') :
    ∃ transaction transaction' : Transaction,
      (transaction.WellFormed ∧ transaction.encode = data) ∧
      (transaction'.WellFormed ∧ transaction'.encode = data') ∧
      (table = table' ↔ transaction.visible = transaction'.visible) := by
  obtain ⟨transaction, hvalid, hencode, htable⟩ := decode_sound h
  obtain ⟨transaction', hvalid', hencode', htable'⟩ := decode_sound h'
  refine ⟨transaction, transaction', ⟨hvalid, hencode⟩, ⟨hvalid', hencode'⟩, ?_⟩
  rw [← fields_eq_iff_visible_eq hvalid hvalid', ← htable, ← htable']
  constructor
  · intro hsame
    rw [hsame]
  · exact FieldTable.ext

/-- A multisig transaction that carries a transfer with an encrypted message and a mosaic. -/
def encrypted (network : UInt8) (factor : UInt64) (payload : Bytes) : Transaction where
  header := { (modifying []).header with typeNumber := 0x1004, network }
  content := .multisig
    [{ header := { (modifying []).header with typeNumber := 0x0101, version := 2, network }
       action := .transfer
        { recipient := List.replicate Limits.addressLength 0x41
          amount := factor
          message := some ⟨2, payload⟩
          mosaics := some [⟨MosaicId.xem, 1⟩] } }]

theorem encrypted_wellFormed (network : UInt8) (factor : UInt64) {payload : Bytes}
    (hlength : payload.length ≤ Limits.maxTransactionLength) :
    (encrypted network factor payload).WellFormed := by
  have hlimit : Limits.maxTransactionLength = 1024 := rfl
  have hsize : UInt32.size = 4294967296 := rfl
  refine ⟨⟨rfl, .inl rfl, rfl⟩, List.cons_ne_nil _ _, ?_, ?_⟩
  · rw [List.forall_mem_singleton]
    refine ⟨⟨rfl, .inr rfl, rfl⟩, rfl, ?_, ⟨fun _ => rfl, fun _ => rfl⟩, ?_⟩
    · rintro _ ⟨⟩
      have hmessage : 8 + payload.length < UInt32.size := by omega
      rw [Message.WellFormed, Message.length_encode]
      exact hmessage
    · rintro _ ⟨⟩
      have hmosaic : (AttachedMosaic.mk MosaicId.xem 1).WellFormed :=
        show (AttachedMosaic.mk MosaicId.xem 1).encode.length < UInt32.size by decide
      exact ⟨by decide, List.forall_mem_singleton.mpr hmosaic⟩
  · simp only [ActionTransaction.encodeAll, ActionTransaction.encode, Header.encode,
      Header.typeBytes, Header.feeBytes, modifying, Action.encode, Transfer.encode_eq,
      Message.written, Transfer.writtenMosaics, Option.elim, AttachedMosaic.encode,
      List.flatMap_singleton, List.length_append, Bytes.length_ofNatLE, Bytes.length_prefixed,
      Message.length_encode, List.length_replicate, List.length_singleton]
    have hname : MosaicId.xem.encode.length = 14 := rfl
    have hkey : Limits.publicKeyLength = 32 := rfl
    have haddress : Limits.addressLength = 40 := rfl
    omega

/-- Network, factor and payload are signed without being shown. -/
theorem table_eq_iff_visible_eq_encrypted :
    ∃ (table : FieldTable) (transaction transaction' : Transaction),
      decode (encrypted 0x98 1 [1, 2, 3]).encode = .ok table ∧
      decode (encrypted 0x68 5 []).encode = .ok table ∧
      transaction.encode = (encrypted 0x98 1 [1, 2, 3]).encode ∧
      transaction'.encode = (encrypted 0x68 5 []).encode ∧
      transaction ≠ transaction' ∧ transaction.visible = transaction'.visible := by
  have hvalid : (encrypted 0x98 1 [1, 2, 3]).WellFormed := encrypted_wellFormed _ _ (by decide)
  have hvalid' : (encrypted 0x68 5 []).WellFormed := encrypted_wellFormed _ _ (by decide)
  have hdecode : decode (encrypted 0x98 1 [1, 2, 3]).encode =
      .ok ⟨(encrypted 0x98 1 [1, 2, 3]).fields, by decide⟩ := by
    rw [decode_encode hvalid, FieldTable.ofFields_eq_ok]
  have hdecode' : decode (encrypted 0x68 5 []).encode =
      .ok ⟨(encrypted 0x98 1 [1, 2, 3]).fields, by decide⟩ := by
    rw [decode_encode hvalid', FieldTable.ofFields_eq_ok]
    rfl
  obtain ⟨transaction, transaction', ⟨-, hencode⟩, ⟨-, hencode'⟩, hsame⟩ :=
    table_eq_iff_visible_eq hdecode hdecode'
  refine ⟨_, transaction, transaction', hdecode, hdecode', hencode, hencode', ?_, hsame.mp rfl⟩
  rintro rfl
  have hequal := encode_inj hvalid hvalid' (hencode.symm.trans hencode')
  have hnetwork : (0x98 : UInt8) = 0x68 := congrArg (fun equal => equal.header.network) hequal
  exact absurd hnetwork (by decide)

end Transaction

end NemSigner
