import NemSigner.Proofs.Decoder.Decodes
import NemSigner.Transaction.Mosaic

/-!
# Identifiers of mosaics and their written form

## Main statements

- `MosaicId.encode_inj` — the written form tells the identifier
- `MosaicId.readNestedNames_encode` — the limits on the parts of an identifier refuse none that fits
-/

namespace NemSigner

namespace MosaicId

/-- The parts of an identifier that fits its length fit theirs. -/
theorem WellFormed.parts {id : MosaicId} (h : id.WellFormed) :
    id.space.length < UInt32.size ∧ id.name.length < UInt32.size := by
  have hlength : id.encode.length < UInt32.size := h
  simp only [encode, List.length_append, Bytes.length_prefixed] at hlength
  omega

/-- The written form of an identifier tells the identifier. -/
theorem encode_inj {id id' : MosaicId} (hvalid : id.WellFormed) (hvalid' : id'.WellFormed)
    (h : id.encode = id'.encode) : id = id' := by
  obtain ⟨hspace, hname⟩ := hvalid.parts
  obtain ⟨hspace', hname'⟩ := hvalid'.parts
  obtain ⟨hfirst, hrest⟩ := Bytes.prefixed_append_inj hspace hspace' h
  have hsecond := Bytes.prefixed_inj hname hname' hrest
  cases id
  cases id'
  simp only at hfirst hsecond
  rw [hfirst, hsecond]

/-- The texts of an identifier are shorter than its written form, so no limit refuses them. -/
theorem readNestedNames_encode {id : MosaicId} (h : id.WellFormed) (cursor : Cursor) :
    Cursor.readNestedNames id.encode cursor = .ok (id.space, id.name) cursor := by
  obtain ⟨hspace, hname⟩ := h.parts
  have hlength : id.encode.length = 4 + id.space.length + (4 + id.name.length) := by
    rw [encode, List.length_append, Bytes.length_prefixed, Bytes.length_prefixed]
  have hspace' : id.space.length < id.encode.length := by omega
  have hname' : id.name.length < id.encode.length := by omega
  exact Cursor.readNestedNames_eq_ok.mpr ⟨⟨⟨hspace', hspace⟩, hname', hname⟩, rfl, rfl⟩

/-- Where two nested texts are read there stands an identifier. -/
theorem ensures_names {β : Type} {data : Bytes} {continuation : Bytes × Bytes → Decoder β}
    {post : β → Bytes → List Field → Prop}
    (h : ∀ id : MosaicId, id.encode = data →
      Decoder.Ensures (continuation (id.space, id.name)) post) :
    Decoder.Ensures (liftM (Cursor.readNestedNames data) >>= continuation) post := by
  refine .exactly ((Cursor.readNested_inverts _).pair (Cursor.readNested_inverts _)) ?_
  rintro ⟨space, name⟩ - hdata
  exact h ⟨space, name⟩ hdata

end MosaicId

end NemSigner
