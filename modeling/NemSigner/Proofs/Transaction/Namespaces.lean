import NemSigner.Proofs.Transaction.Header
import NemSigner.Proofs.Transaction.Mosaic
import NemSigner.Transaction.NamespaceProvision
import NemSigner.Transaction.SupplyChange

/-!
# Namespace provisions, supply changes, and their written form

## Main statements

- `NamespaceProvision.decode_decodes`, `SupplyChange.decode_decodes` — the decoders take the written
  forms
- `NamespaceProvision.encode_delimits`, `SupplyChange.encode_delimits` — the written forms tell what
  is written
-/

namespace NemSigner

open Decoder (Decodes)
open Cursor (readUInt_inverts readBytes_inverts readPrefixed_inverts readSized_inverts
  gives_append)

namespace NamespaceProvision

/-- A parent with its length in front; the largest length stands for none. -/
def writtenParent : Option Bytes → Bytes
  | none => Bytes.ofNatLE 4 rootMark
  | some parent => Bytes.prefixed parent

/-- The field of a parent; a root namespace shows the mark that stands for none. -/
def shownParent : Option Bytes → Field
  | none => ⟨.rootNamespace, .text, Bytes.ofNatLE 4 rootMark⟩
  | some parent => ⟨.parentNamespace, .text, parent⟩

theorem rootMark_lt : rootMark < UInt32.size := by decide

theorem encode_eq (provision : NamespaceProvision) :
    provision.encode =
      Bytes.prefixed provision.sink ++ (Bytes.ofNatLE 8 provision.rentalFee.toNat ++
        (Bytes.prefixed provision.name ++ writtenParent provision.parent)) := by
  obtain ⟨sink, rentalFee, name, parent⟩ := provision
  cases parent <;> simp [encode, writtenParent]

theorem fields_eq (fee : Field) (provision : NamespaceProvision) :
    provision.fields fee =
      [⟨.namespaceName, .text, provision.name⟩, shownParent provision.parent,
       ⟨.sinkAddress, .address, provision.sink⟩,
       ⟨.rentalFee, .xem, Bytes.ofNatLE 8 provision.rentalFee.toNat⟩, fee] := by
  obtain ⟨sink, rentalFee, name, parent⟩ := provision
  cases parent <;> rfl

/-- The parts of a provision can be declared when the provision itself is not too long. -/
theorem wellFormed_of_length {provision : NamespaceProvision}
    (hsink : provision.sink.length = Limits.addressLength)
    (hlength : provision.encode.length < UInt32.size) : provision.WellFormed := by
  simp only [encode_eq, List.length_append, Bytes.length_prefixed, Bytes.length_ofNatLE] at hlength
  refine ⟨hsink, by omega, fun parent hparent => ?_⟩
  simp only [Option.mem_def.mp hparent, writtenParent, Bytes.length_prefixed] at hlength
  have hmark : rootMark + 1 = UInt32.size := rfl
  omega

theorem decode_decodes (header : Header) :
    Decodes (decode header) WellFormed encode (fields header.feeField) := by
  constructor
  · rw [decode]
    refine .read (readSized_inverts Limits.addressLength_lt) fun sink hsink => ?_
    refine .read (readBytes_inverts 8) fun rentalFee hrentalFee => ?_
    refine .read readPrefixed_inverts fun name hname => ?_
    refine .emit (.read (readBytes_inverts 4) fun lengthBytes hlengthBytes => ?_)
    obtain ⟨rentalFee, rfl⟩ := Bytes.exists_uint64 hrentalFee
    obtain ⟨length, rfl⟩ := Bytes.exists_uint32 hlengthBytes
    dsimp only [id]
    rw [Bytes.toNatLE_ofNatLE_uint32]
    split
    · next hroot =>
      refine .emit (.emit (.emit (.emit_last
        ⟨⟨sink, rentalFee, name, none⟩, ⟨hsink, hname, by simp⟩, ?_, ?_⟩)))
      · rw [encode_eq, writtenParent, ← hroot, List.append_nil]
      · rw [fields_eq, shownParent, ← hroot]
        rfl
    · next hroot =>
      refine .read (readBytes_inverts _) fun parent hparent => ?_
      -- Four bytes hold no number above the mark, and the mark itself is taken.
      have hlt : parent.length < rootMark := by
        have hlength := length.toNat_lt
        rw [hparent, rootMark] at *
        omega
      refine .emit (.emit (.emit (.emit_last
        ⟨⟨sink, rentalFee, name, some parent⟩, ⟨hsink, hname, by simpa using hlt⟩, ?_, ?_⟩)))
      · rw [encode_eq, writtenParent, Bytes.prefixed.eq_1 parent, hparent, List.append_nil]
        rfl
      · rw [fields_eq, shownParent]
        rfl
  · rintro ⟨sink, rentalFee, name, parent⟩ ⟨hsink, hname, hparent⟩ cursor next hgives
    rw [encode_eq] at hgives
    obtain ⟨c1, hgives, g2⟩ := gives_append.mp hgives
    have h1 := (readSized_inverts Limits.addressLength_lt _ _ _).mpr ⟨hsink, hgives⟩
    obtain ⟨c2, hgives, g3⟩ := gives_append.mp g2
    have h2 := (readBytes_inverts 8 _ _ _).mpr ⟨Bytes.length_ofNatLE 8 _, hgives⟩
    obtain ⟨c3, hgives, g4⟩ := gives_append.mp g3
    have h3 := (readPrefixed_inverts _ _ _).mpr ⟨hname, hgives⟩
    rw [decode, fields_eq]
    refine .read h1 (.read h2 (.read h3 (.emit rfl ?_)))
    cases parent with
    | none =>
      have h4 := (readBytes_inverts 4 _ _ _).mpr ⟨Bytes.length_ofNatLE 4 _, g4⟩
      refine .read h4 ?_
      rw [Bytes.toNatLE_ofNatLE_four rootMark_lt, if_pos rfl]
      exact .emit rfl (.emit rfl (.emit rfl (.emit_last rfl)))
    | some parent =>
      have hlt : parent.length < rootMark := hparent parent rfl
      obtain ⟨c4, hgives, g5⟩ := gives_append.mp g4
      have h4 := (readBytes_inverts 4 _ _ _).mpr ⟨Bytes.length_ofNatLE 4 _, hgives⟩
      have h5 := (readBytes_inverts parent.length _ _ _).mpr ⟨rfl, g5⟩
      refine .read h4 ?_
      rw [Bytes.toNatLE_ofNatLE_four (Nat.lt_trans hlt rootMark_lt), if_neg (Nat.ne_of_lt hlt)]
      exact .read h5 (.emit rfl (.emit rfl (.emit rfl (.emit_last rfl))))

/-- No parent is as long as the mark that stands for none. -/
theorem encode_delimits : Delimits WellFormed encode fun provision => provision := by
  rintro ⟨sink, rentalFee, name, parent⟩ ⟨sink', rentalFee', name', parent'⟩ rest rest'
    ⟨hsink, hname, hparent⟩ ⟨hsink', hname', hparent'⟩ h
  dsimp only at hsink hsink' hname hname' hparent hparent'
  simp only [encode_eq, List.append_assoc] at h
  obtain ⟨rfl, htail⟩ := Bytes.prefixed_append_inj (hsink ▸ Limits.addressLength_lt)
    (hsink' ▸ Limits.addressLength_lt) h
  obtain ⟨hfee, htail'⟩ := Bytes.ofNatLE_append_inj rentalFee.toNat_lt rentalFee'.toNat_lt htail
  obtain rfl := UInt64.toNat_inj.mp hfee
  obtain ⟨rfl, hlast⟩ := Bytes.prefixed_append_inj hname hname' htail'
  cases parent with
  | none =>
    cases parent' with
    | none => exact ⟨rfl, List.append_cancel_left hlast⟩
    | some parent' =>
      have hlt : parent'.length < rootMark := hparent' parent' rfl
      have hfits : parent'.length < UInt32.size := Nat.lt_trans hlt rootMark_lt
      simp only [writtenParent, Bytes.prefixed, List.append_assoc] at hlast
      obtain ⟨hmark, -⟩ := Bytes.ofNatLE_append_inj rootMark_lt hfits hlast
      omega
  | some parent =>
    have hlt : parent.length < rootMark := hparent parent rfl
    have hfits : parent.length < UInt32.size := Nat.lt_trans hlt rootMark_lt
    cases parent' with
    | none =>
      simp only [writtenParent, Bytes.prefixed, List.append_assoc] at hlast
      obtain ⟨hmark, -⟩ := Bytes.ofNatLE_append_inj hfits rootMark_lt hlast
      omega
    | some parent' =>
      have hfits' : parent'.length < UInt32.size := Nat.lt_trans (hparent' parent' rfl) rootMark_lt
      obtain ⟨rfl, hrest⟩ := Bytes.prefixed_append_inj hfits hfits' hlast
      exact ⟨rfl, hrest⟩

end NamespaceProvision

namespace SupplyChange

theorem wellFormed_of_length {change : SupplyChange}
    (htype : change.type = create ∨ change.type = delete)
    (hlength : change.encode.length < UInt32.size) : change.WellFormed := by
  simp only [encode, List.length_append, Bytes.length_prefixed] at hlength
  refine ⟨htype, ?_⟩
  show change.id.encode.length < UInt32.size
  omega

theorem decode_decodes (header : Header) :
    Decodes (decode header) WellFormed encode (fields header.feeField) := by
  constructor
  · rw [decode]
    refine .read readPrefixed_inverts fun data hdata => ?_
    refine MosaicId.ensures_names fun id hid => ?_
    subst hid
    refine .read (readUInt_inverts 4) fun type htype => ?_
    refine .read (readBytes_inverts 8) fun delta hdelta => ?_
    obtain ⟨delta, rfl⟩ := Bytes.exists_uint64 hdelta
    obtain ⟨type, rfl⟩ := Bytes.exists_word htype
    refine .emit (.emit ?_)
    split
    · next hcreate =>
      obtain rfl := UInt32.toNat_inj.mp hcreate
      exact .emit (.emit_last ⟨⟨id, create, delta⟩, ⟨.inl rfl, hdata⟩, by simp [encode], rfl⟩)
    · split
      · next hdelete =>
        obtain rfl := UInt32.toNat_inj.mp hdelete
        exact .emit (.emit_last ⟨⟨id, delete, delta⟩, ⟨.inr rfl, hdata⟩, by simp [encode], rfl⟩)
      · exact .throw_bind
  · rintro ⟨id, type, delta⟩ ⟨htype, hid⟩ cursor next hgives
    obtain ⟨c2, hgives, g3⟩ := gives_append.mp hgives
    obtain ⟨c1, g1, g2⟩ := gives_append.mp hgives
    have h1 := (readPrefixed_inverts _ _ _).mpr ⟨hid, g1⟩
    have h2 := (readUInt_inverts 4 _ _ _).mpr ⟨type.toNat_lt, g2⟩
    have h3 := (readBytes_inverts 8 _ _ _).mpr ⟨Bytes.length_ofNatLE 8 _, g3⟩
    have hnames := MosaicId.readNestedNames_encode hid c1
    rw [decode]
    refine .read h1 (.read hnames (.read h2 (.read h3 (.emit rfl (.emit rfl ?_)))))
    rcases htype with rfl | rfl
    · exact .emit rfl (.emit_last rfl)
    · exact .emit rfl (.emit_last rfl)

theorem encode_delimits : Delimits WellFormed encode fun change => change := by
  rintro ⟨id, type, delta⟩ ⟨id', type', delta'⟩ rest rest' ⟨-, hid⟩ ⟨-, hid'⟩ h
  simp only [encode, List.append_assoc] at h
  obtain ⟨hencode, htail⟩ := Bytes.prefixed_append_inj hid hid' h
  obtain rfl : id = id' := MosaicId.encode_inj hid hid' hencode
  obtain ⟨htype, htail'⟩ := Bytes.ofNatLE_append_inj type.toNat_lt type'.toNat_lt htail
  obtain rfl := UInt32.toNat_inj.mp htype
  obtain ⟨hdelta, hrest⟩ := Bytes.ofNatLE_append_inj delta.toNat_lt delta'.toNat_lt htail'
  obtain rfl := UInt64.toNat_inj.mp hdelta
  exact ⟨rfl, hrest⟩

end SupplyChange

end NemSigner
