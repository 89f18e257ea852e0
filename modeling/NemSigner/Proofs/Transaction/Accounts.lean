import NemSigner.Proofs.Transaction.Header
import NemSigner.Transaction.AggregateModification
import NemSigner.Transaction.Cosignature
import NemSigner.Transaction.ImportanceTransfer

/-!
# Transactions about accounts and their written form

## Main statements

- `ImportanceTransfer.decode_decodes`, `AggregateModification.decode_decodes`,
  `Cosignature.decode_decodes` — the decoders take the written forms
- `ImportanceTransfer.encode_delimits`, `AggregateModification.encode_delimits`,
  `Cosignature.encode_delimits` — the written forms tell what is written
-/

namespace NemSigner

open Decoder (Decodes)
open Cursor (readBytes_inverts readPrefixed_inverts readSized_inverts gives_append)

namespace ImportanceTransfer

theorem decode_decodes (header : Header) :
    Decodes (decode header) WellFormed encode (fields header.feeField) := by
  constructor
  · rw [decode]
    refine .read (readBytes_inverts 4) fun mode hmode => ?_
    refine .read (readSized_inverts Limits.publicKeyLength_lt) fun remote hremote => ?_
    obtain ⟨mode, rfl⟩ := Bytes.exists_uint32 hmode
    refine .emit (.emit (.emit_last ⟨⟨mode, remote⟩, hremote, ?_, rfl⟩))
    rw [List.append_nil]
    rfl
  · intro transfer hvalid cursor next hgives
    obtain ⟨middle, hgives, hgives'⟩ := gives_append.mp hgives
    have hmode := (readBytes_inverts 4 _ _ _).mpr ⟨Bytes.length_ofNatLE _ _, hgives⟩
    have hremote := (readSized_inverts Limits.publicKeyLength_lt _ _ _).mpr ⟨hvalid, hgives'⟩
    rw [decode]
    exact .read hmode (.read hremote (.emit rfl (.emit (Field.fits_hash hvalid) (.emit_last rfl))))

theorem encode_delimits : Delimits WellFormed encode fun transfer => transfer := by
  rintro ⟨mode, remote⟩ ⟨mode', remote'⟩ rest rest' hvalid hvalid' h
  have hkey : remote.length < UInt32.size := hvalid ▸ Limits.publicKeyLength_lt
  have hkey' : remote'.length < UInt32.size := hvalid' ▸ Limits.publicKeyLength_lt
  simp only [encode, List.append_assoc] at h
  obtain ⟨hmode, htail⟩ := Bytes.ofNatLE_append_inj mode.toNat_lt mode'.toNat_lt h
  obtain ⟨rfl, hrest⟩ := Bytes.prefixed_append_inj hkey hkey' htail
  obtain rfl := UInt32.toNat_inj.mp hmode
  exact ⟨rfl, hrest⟩

end ImportanceTransfer

namespace Modification

theorem WellFormed.length_encode_lt {modification : Modification} (h : modification.WellFormed) :
    modification.encode.length < UInt32.size := by
  have hkey : modification.cosignatory.length = 32 := h
  simp only [encode, List.length_append, Bytes.length_ofNatLE, Bytes.length_prefixed, hkey]
  decide

theorem decode_decodes :
    Decodes decode WellFormed (fun modification => Bytes.prefixed modification.encode) fields := by
  have hparts := (readBytes_inverts 4).pair (readSized_inverts Limits.publicKeyLength_lt)
  constructor
  · rw [decode]
    refine .read readPrefixed_inverts fun data _ => ?_
    refine .exactly hparts ?_
    rintro ⟨type, cosignatory⟩ ⟨htype, hcosignatory⟩ rfl
    obtain ⟨type, rfl⟩ := Bytes.exists_uint32 htype
    exact .emit (.emit_last ⟨⟨type, cosignatory⟩, hcosignatory, List.append_nil _, rfl⟩)
  · intro modification hvalid cursor next hgives
    have hkey : modification.cosignatory.length = 32 := hvalid
    have houter := (readPrefixed_inverts _ _ _).mpr ⟨hvalid.length_encode_lt, hgives⟩
    have hinner := Cursor.exactly_encode hparts
      (Bytes.ofNatLE 4 modification.type.toNat, modification.cosignatory)
      ⟨Bytes.length_ofNatLE _ _, hvalid⟩ next
    rw [decode]
    exact .read houter (.read hinner (.emit rfl (.emit_last (Field.fits_hash hkey))))

theorem encode_delimits :
    Delimits WellFormed (fun modification => Bytes.prefixed modification.encode)
      fun modification => modification := by
  rintro ⟨type, cosignatory⟩ ⟨type', cosignatory'⟩ rest rest' hvalid hvalid' h
  have hkey : cosignatory.length < UInt32.size := hvalid ▸ Limits.publicKeyLength_lt
  have hkey' : cosignatory'.length < UInt32.size := hvalid' ▸ Limits.publicKeyLength_lt
  obtain ⟨hencode, hrest⟩ :=
    Bytes.prefixed_append_inj hvalid.length_encode_lt hvalid'.length_encode_lt h
  obtain ⟨htype, htail⟩ := Bytes.ofNatLE_append_inj type.toNat_lt type'.toNat_lt hencode
  obtain rfl := Bytes.prefixed_inj hkey hkey' htail
  obtain rfl := UInt32.toNat_inj.mp htype
  exact ⟨rfl, hrest⟩

end Modification

namespace RelativeChange

/-- In the second version something is always said about the change. -/
theorem decode_decodes : Decodes decode (fun change => change ≠ .absent) encode fields := by
  constructor
  · rw [decode]
    refine .read (readBytes_inverts 4) fun lengthBytes hlengthBytes => ?_
    obtain ⟨length, rfl⟩ := Bytes.exists_uint32 hlengthBytes
    dsimp only [id]
    rw [Bytes.toNatLE_ofNatLE_uint32]
    split
    · next hzero =>
      rw [hzero]
      exact .emit_last ⟨.unspecified, RelativeChange.noConfusion, List.append_nil _, rfl⟩
    · refine .read (readBytes_inverts _) fun change hchange => ?_
      refine .exactly (readBytes_inverts 4) ?_
      rintro amount hamount rfl
      obtain ⟨amount, rfl⟩ := Bytes.exists_uint32 hamount
      refine .emit_last ⟨.delta amount, RelativeChange.noConfusion, ?_, rfl⟩
      rw [List.append_nil, encode, Bytes.prefixed, ← hchange]
      rfl
  · intro change hvalid cursor next hgives
    rw [decode]
    cases change with
    | absent => exact absurd rfl hvalid
    | unspecified =>
      have hlength := (readBytes_inverts 4 _ _ _).mpr ⟨Bytes.length_ofNatLE 4 0, hgives⟩
      exact .read hlength (.emit_last rfl)
    | delta amount =>
      obtain ⟨middle, hgives, hgives'⟩ := gives_append.mp hgives
      have hlength := (readBytes_inverts 4 _ _ _).mpr ⟨Bytes.length_ofNatLE 4 _, hgives⟩
      have hchange := (readBytes_inverts 4 _ _ _).mpr ⟨Bytes.length_ofNatLE 4 _, hgives'⟩
      have hamount := Cursor.exactly_encode (readBytes_inverts 4) (Bytes.ofNatLE 4 amount.toNat)
        (Bytes.length_ofNatLE 4 _) next
      refine .read hlength ?_
      rw [Bytes.length_ofNatLE, Bytes.toNatLE_ofNatLE_four (by decide), if_neg (by decide)]
      exact .read hchange (.read hamount (.emit_last rfl))

/-- A change that is left out declares no bytes, and one that is given declares four. -/
theorem encode_delimits : Delimits (fun change => change ≠ .absent) encode
    fun change => change := by
  intro change change' rest rest' hvalid hvalid' h
  have hsize (number : Nat) : (Bytes.ofNatLE 4 number).length < UInt32.size := by
    rw [Bytes.length_ofNatLE]
    decide
  have hzero : Bytes.ofNatLE 4 0 = Bytes.prefixed [] := rfl
  cases change with
  | absent => exact absurd rfl hvalid
  | unspecified =>
    cases change' with
    | absent => exact absurd rfl hvalid'
    | unspecified => exact ⟨rfl, List.append_cancel_left h⟩
    | delta amount =>
      rw [encode, encode, hzero] at h
      cases (Bytes.prefixed_append_inj (by decide) (hsize _) h).1
  | delta amount =>
    cases change' with
    | absent => exact absurd rfl hvalid'
    | unspecified =>
      rw [encode, encode, hzero] at h
      cases (Bytes.prefixed_append_inj (hsize _) (by decide) h).1
    | delta amount' =>
      obtain ⟨hamount, hrest⟩ := Bytes.prefixed_append_inj (hsize _) (hsize _) h
      rw [Bytes.ofNatLE_uint32_inj.mp hamount]
      exact ⟨rfl, hrest⟩

end RelativeChange

namespace AggregateModification

/-- The modifications can be counted when the written form of them all is not too long. -/
theorem wellFormed_of_length {version : UInt8} {aggregate : AggregateModification}
    (hvalid : ∀ modification ∈ aggregate.modifications, modification.WellFormed)
    (hchange : aggregate.change ≠ .absent ↔ version = 2)
    (hlength : aggregate.encode.length < UInt32.size) : aggregate.WellFormed version := by
  have hmark (modification : Modification) : Bytes.prefixed modification.encode ≠ [] :=
    Bytes.prefixed_ne_nil modification.encode
  have hcount := Bytes.length_le_length_flatMap hmark aggregate.modifications
  simp only [encode, List.length_append] at hlength
  exact ⟨by omega, hvalid, hchange⟩

theorem decode_decodes {header : Header} (hversion : header.version = 1 ∨ header.version = 2) :
    Decodes (decode id header) (WellFormed header.version) encode (fields header.feeField) := by
  have htimes (count : Nat) := Modification.decode_decodes.times count
  constructor
  · rw [decode]
    refine .read (readBytes_inverts 4) fun countBytes hcountBytes => ?_
    obtain ⟨count, rfl⟩ := Bytes.exists_uint32 hcountBytes
    dsimp only [id]
    rw [Bytes.toNatLE_ofNatLE_uint32]
    refine .emit (.decode (htimes count.toNat) ?_)
    rintro modifications ⟨hcount, hvalid⟩
    have hlength : modifications.length < UInt32.size := hcount ▸ count.toNat_lt
    rcases hversion with hversion | hversion
    · have hother : header.version ≠ 2 := by simp [hversion]
      simp only [if_neg hother]
      refine .emit_last ⟨⟨modifications, .absent⟩, ⟨hlength, hvalid, ?_⟩, ?_, ?_⟩
      · simp [hother]
      · simp [encode, RelativeChange.encode, hcount]
      · simp [fields, RelativeChange.fields, Header.feeField, hcount]
    · simp only [if_pos hversion]
      refine .decode RelativeChange.decode_decodes fun change hchange => ?_
      refine .emit_last ⟨⟨modifications, change⟩, ⟨hlength, hvalid, ?_⟩, ?_, ?_⟩
      · simp [hversion, hchange]
      · simp [encode, hcount]
      · simp [fields, Header.feeField, hcount]
  · rintro ⟨modifications, change⟩ ⟨hlength, hvalid, hchange⟩ cursor next hgives
    obtain ⟨between, hgives, g3⟩ := gives_append.mp hgives
    obtain ⟨middle, g1, g2⟩ := gives_append.mp hgives
    have hcount := (readBytes_inverts 4 _ _ _).mpr ⟨Bytes.length_ofNatLE 4 _, g1⟩
    have hlist := (htimes modifications.length).yields ⟨rfl, hvalid⟩ g2
    rw [decode]
    refine .read hcount ?_
    rw [Bytes.toNatLE_ofNatLE_four hlength]
    simp only [fields, List.append_assoc]
    refine .emit rfl (hlist.bind ?_)
    rcases hversion with hversion | hversion
    · have hother : header.version ≠ 2 := by simp [hversion]
      obtain rfl : change = .absent := by simpa [hother] using hchange
      simp only [if_neg hother]
      rw [← g3.eq_of_nil]
      exact .emit_last rfl
    · simp only [if_pos hversion]
      exact (RelativeChange.decode_decodes.yields (hchange.mpr hversion) g3).bind (.emit_last rfl)

/-- Within one version the written form of an aggregate modification tells the modification. -/
theorem encode_delimits (version : UInt8) : Delimits (WellFormed version) encode
    fun aggregate => aggregate := by
  rintro ⟨modifications, change⟩ ⟨modifications', change'⟩ rest rest'
    ⟨hlength, hvalid, hchange⟩ ⟨hlength', hvalid', hchange'⟩ h
  dsimp only at hlength hlength' hvalid hvalid' hchange hchange'
  simp only [encode, List.append_assoc] at h
  obtain ⟨hcount, htail⟩ := Bytes.ofNatLE_append_inj hlength hlength' h
  obtain ⟨hsame, htail'⟩ := Modification.encode_delimits.flatMap_eq hcount hvalid hvalid' htail
  subst hsame
  by_cases habsent : change = .absent
  · have habsent' : change' = .absent :=
      Decidable.not_not.mp fun hne => hchange.mpr (hchange'.mp hne) habsent
    subst habsent habsent'
    exact ⟨rfl, htail'⟩
  · obtain ⟨rfl, hrest⟩ :=
      RelativeChange.encode_delimits habsent (hchange'.mpr (hchange.mp habsent)) htail'
    exact ⟨rfl, hrest⟩

end AggregateModification

namespace Cosignature

/-- The hash stands in a container of its own. -/
theorem WellFormed.length_container_lt {cosignature : Cosignature} (h : cosignature.WellFormed) :
    (Bytes.prefixed cosignature.hash).length < UInt32.size := by
  rw [Bytes.length_prefixed, h.1]
  decide

theorem decode_decodes : Decodes decode WellFormed encode fields := by
  have hhash : Limits.hashLength < UInt32.size := by decide
  constructor
  · rw [decode]
    refine .read readPrefixed_inverts fun container _ => ?_
    refine .exactly (readSized_inverts hhash) ?_
    rintro hash hlength rfl
    refine .read (readSized_inverts Limits.addressLength_lt) fun account haccount => ?_
    refine .emit (.emit_last ⟨⟨hash, account⟩, ⟨hlength, haccount⟩, ?_, rfl⟩)
    rw [List.append_nil]
    rfl
  · rintro ⟨hash, account⟩ hvalid cursor next hgives
    obtain ⟨middle, hgives, hgives'⟩ := gives_append.mp hgives
    have houter := (readPrefixed_inverts _ _ _).mpr ⟨hvalid.length_container_lt, hgives⟩
    have hinner := Cursor.exactly_encode (readSized_inverts hhash) hash hvalid.1 middle
    have haccount := (readSized_inverts Limits.addressLength_lt _ _ _).mpr ⟨hvalid.2, hgives'⟩
    rw [decode]
    exact .read houter (.read hinner (.read haccount
      (.emit (Field.fits_hash hvalid.1) (.emit_last rfl))))

/-- A cosignature that carries nothing shows its fee at the end. -/
theorem decode_fee_decodes (header : Header) :
    Decodes (do decode; header.emitFee) WellFormed encode
      (fun cosignature => cosignature.fields ++ [header.feeField]) := by
  constructor
  · refine .decode decode_decodes fun cosignature hvalid => ?_
    exact .emit_last ⟨cosignature, hvalid, List.append_nil _, rfl⟩
  · intro cosignature hvalid cursor next hgives
    exact (decode_decodes.yields hvalid hgives).bind (.emit_last rfl)

theorem encode_delimits : Delimits WellFormed encode fun cosignature => cosignature := by
  rintro ⟨hash, account⟩ ⟨hash', account'⟩ rest rest' hvalid hvalid' h
  have hkey : hash.length < UInt32.size := by
    rw [hvalid.1]
    decide
  have hkey' : hash'.length < UInt32.size := by
    rw [hvalid'.1]
    decide
  simp only [encode, List.append_assoc] at h
  obtain ⟨hcontainer, htail⟩ :=
    Bytes.prefixed_append_inj hvalid.length_container_lt hvalid'.length_container_lt h
  obtain rfl := Bytes.prefixed_inj hkey hkey' hcontainer
  obtain ⟨rfl, hrest⟩ := Bytes.prefixed_append_inj (hvalid.2 ▸ Limits.addressLength_lt)
    (hvalid'.2 ▸ Limits.addressLength_lt) htail
  exact ⟨rfl, hrest⟩

end Cosignature

end NemSigner
