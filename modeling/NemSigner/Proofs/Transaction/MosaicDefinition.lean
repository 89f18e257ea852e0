import NemSigner.Proofs.Transaction.Header
import NemSigner.Proofs.Transaction.Mosaic
import NemSigner.Transaction.MosaicDefinition

/-!
# Mosaic definitions and their written form

The definition proper stands in a container of its own, and every part of it has to be declared
shorter than the container. A part that is written in full is always shorter, so this refuses
nothing that the grammar allows.

## Main statements

- `MosaicDefinition.decodeProper_ensures`, `MosaicDefinition.decodeProper_yields` — what the
  definition proper is read as
- `MosaicDefinition.decode_decodes` — the decoder takes the written forms
- `MosaicDefinition.encode_delimits` — the written form tells the definition
-/

namespace NemSigner

open Decoder (Ensures Yields Decodes Exhausts)
open Cursor (readUInt_inverts readLength_inverts readBytes_inverts readNested_inverts
  readSized_inverts gives_append)

namespace MosaicProperty

/-- The written form of a property is shorter than a limit, and its length can be declared. -/
def Below (limit : Nat) (property : MosaicProperty) : Prop :=
  property.encode.length < limit ∧ property.encode.length < UInt32.size

/-- The parts of a property that fits its length fit theirs. -/
theorem parts (property : MosaicProperty) (h : property.encode.length < UInt32.size) :
    property.name.length < UInt32.size ∧ property.value.length < UInt32.size := by
  have hnames : MosaicId.WellFormed ⟨property.name, property.value⟩ := h
  exact hnames.parts

theorem decode_decodes (limit : Nat) :
    Decodes (decode limit) (Below limit)
      (fun property => Bytes.prefixed property.encode) (fun property => [property.field]) := by
  constructor
  · rw [decode]
    refine .read (readNested_inverts limit) fun data hdata => ?_
    refine MosaicId.ensures_names fun names hnames => ?_
    subst hnames
    exact .emit_last ⟨⟨names.space, names.name⟩, hdata, List.append_nil _, rfl⟩
  · intro property hvalid cursor next hgives
    have houter := (readNested_inverts limit _ _ _).mpr ⟨hvalid, hgives⟩
    have hnames : MosaicId.WellFormed ⟨property.name, property.value⟩ := hvalid.2
    have hinner := MosaicId.readNestedNames_encode hnames next
    rw [decode]
    exact .read houter (.read hinner (.emit_last rfl))

theorem encode_delimits :
    Delimits (fun property => property.encode.length < UInt32.size)
      (fun property => Bytes.prefixed property.encode)
      fun property : MosaicProperty => property := by
  rintro ⟨name, value⟩ ⟨name', value'⟩ rest rest' hvalid hvalid' h
  obtain ⟨hencode, hrest⟩ := Bytes.prefixed_append_inj hvalid hvalid' h
  have hnames : MosaicId.WellFormed ⟨name, value⟩ := hvalid
  have hnames' : MosaicId.WellFormed ⟨name', value'⟩ := hvalid'
  cases MosaicId.encode_inj hnames hnames' hencode
  exact ⟨rfl, hrest⟩

end MosaicProperty

namespace Levy

/-- The parts of a levy in the order in which they are written. -/
theorem parts_inverts (limit : Nat) :
    Cursor.Inverts
      (do
        let type ← Cursor.readBytes 4
        let recipient ← Cursor.readSized Limits.addressLength
        let id ← Cursor.readNested limit
        let fee ← Cursor.readBytes 8
        return (type, recipient, id, fee) : Cursor.Reading (Bytes × Bytes × Bytes × Bytes))
      (fun (type, recipient, id, fee) =>
        type.length = 4 ∧ recipient.length = Limits.addressLength ∧
          (id.length < limit ∧ id.length < UInt32.size) ∧ fee.length = 8)
      (fun (type, recipient, id, fee) =>
        type ++ (Bytes.prefixed recipient ++ (Bytes.prefixed id ++ fee))) := by
  have hpairs := (readBytes_inverts 4).pair ((readSized_inverts Limits.addressLength_lt).pair
    ((readNested_inverts limit).pair (readBytes_inverts 8)))
  simp only [bind_assoc, pure_bind] at hpairs
  exact hpairs

theorem encode_eq (levy : Levy) :
    levy.encode = Bytes.ofNatLE 4 levy.type.toNat ++ (Bytes.prefixed levy.recipient ++
      (Bytes.prefixed levy.id.encode ++ Bytes.ofNatLE 8 levy.fee.toNat)) := by
  simp only [encode, List.append_assoc]

theorem length_id_lt (levy : Levy) : levy.id.encode.length < levy.encode.length := by
  simp only [encode, List.length_append, Bytes.length_prefixed]
  omega

theorem encode_ne_nil (levy : Levy) : levy.encode ≠ [] := by
  have hlength := levy.length_id_lt
  exact List.length_pos_iff.mp (Nat.zero_lt_of_lt hlength)

theorem decode_ensures (data : Bytes) :
    Ensures (decode data) fun _ written collected =>
      ∃ levy : Levy, levy.WellFormed ∧ levy.encode = data ∧ written = [] ∧
        collected = levy.fields := by
  rw [decode]
  refine .exactly (parts_inverts data.length) ?_
  rintro ⟨type, recipient, id, fee⟩ ⟨htype, hrecipient, -, hfee⟩ hdata
  obtain ⟨type, rfl⟩ := Bytes.exists_uint32 htype
  obtain ⟨fee, rfl⟩ := Bytes.exists_uint64 hfee
  dsimp only at hdata ⊢
  rw [Bytes.toNatLE_ofNatLE_uint32]
  split
  · exact .throw_bind
  · next hknown =>
    have hknown : type = absolute ∨ type = percentile := by
      rw [← UInt32.toNat_inj, ← UInt32.toNat_inj]
      omega
    refine MosaicId.ensures_names fun id hid => ?_
    subst hid
    refine .emit (.emit (.emit (.emit_last
      ⟨⟨type, recipient, id, fee⟩, ⟨hknown, hrecipient⟩, ?_, rfl, rfl⟩)))
    rw [encode_eq]
    exact hdata

theorem decode_yields {levy : Levy} (hvalid : levy.WellFormed)
    (hlength : levy.encode.length < UInt32.size) (cursor : Cursor) :
    Yields (decode levy.encode) cursor cursor () levy.fields := by
  have hid : levy.id.WellFormed := Nat.lt_trans levy.length_id_lt hlength
  have hparts := Cursor.exactly_encode (parts_inverts levy.encode.length)
    (Bytes.ofNatLE 4 levy.type.toNat, levy.recipient, levy.id.encode,
      Bytes.ofNatLE 8 levy.fee.toNat)
    ⟨Bytes.length_ofNatLE _ _, hvalid.2, ⟨levy.length_id_lt, hid⟩, Bytes.length_ofNatLE _ _⟩ cursor
  dsimp only at hparts
  rw [← levy.encode_eq] at hparts
  have hknown : ¬(levy.type.toNat ≠ absolute.toNat ∧ levy.type.toNat ≠ percentile.toNat) := by
    rcases hvalid.1 with h | h <;> simp [h]
  have hnames := MosaicId.readNestedNames_encode hid cursor
  rw [decode]
  refine .read hparts ?_
  dsimp only
  rw [Bytes.toNatLE_ofNatLE_uint32, if_neg hknown]
  exact .read hnames (.emit rfl (.emit rfl (.emit rfl (.emit_last rfl))))

theorem encode_inj {levy levy' : Levy} (hvalid : levy.WellFormed) (hvalid' : levy'.WellFormed)
    (hlength : levy.encode.length < UInt32.size) (hlength' : levy'.encode.length < UInt32.size)
    (h : levy.encode = levy'.encode) : levy = levy' := by
  have hid : levy.id.WellFormed := Nat.lt_trans levy.length_id_lt hlength
  have hid' : levy'.id.WellFormed := Nat.lt_trans levy'.length_id_lt hlength'
  obtain ⟨type, recipient, id, fee⟩ := levy
  obtain ⟨type', recipient', id', fee'⟩ := levy'
  rw [encode_eq, encode_eq] at h
  obtain ⟨htype, htail⟩ := Bytes.ofNatLE_append_inj type.toNat_lt type'.toNat_lt h
  obtain ⟨rfl, htail'⟩ := Bytes.prefixed_append_inj (hvalid.2 ▸ Limits.addressLength_lt)
    (hvalid'.2 ▸ Limits.addressLength_lt) htail
  obtain ⟨hencode, hfee⟩ := Bytes.prefixed_append_inj hid hid' htail'
  obtain rfl : id = id' := MosaicId.encode_inj hid hid' hencode
  obtain rfl := UInt32.toNat_inj.mp htype
  obtain rfl := Bytes.ofNatLE_uint64_inj.mp hfee
  rfl

end Levy

namespace MosaicDefinition

/-- A levy with its length in front; a length of zero stands for none. -/
def writtenLevy (levy : Option Levy) : Bytes :=
  Bytes.prefixed (levy.elim [] Levy.encode)

/-- The fields of the definition proper. -/
def properFields (definition : MosaicDefinition) : List Field :=
  ⟨.parentNamespace, .text, definition.id.space⟩ ::
    ⟨.mosaicName, .text, definition.id.name⟩ ::
    ⟨.description, .text, definition.description⟩ ::
    (definition.properties.flatMap (fun property => [property.field]) ++
      definition.levy.elim [] Levy.fields)

theorem encodeProper_eq (definition : MosaicDefinition) :
    definition.encodeProper =
      Bytes.prefixed definition.creator ++ (Bytes.prefixed definition.id.encode ++
        (Bytes.prefixed definition.description ++
          (Bytes.ofNatLE 4 definition.properties.length ++
            ((definition.properties.flatMap fun property => Bytes.prefixed property.encode) ++
              writtenLevy definition.levy)))) := by
  obtain ⟨creator, id, description, properties, levy, sink, rentalFee⟩ := definition
  cases levy with
  | none =>
    simp only [encodeProper, List.append_assoc]
    rfl
  | some levy =>
    simp only [encodeProper, List.append_assoc]
    rfl

theorem fields_eq (fee : Field) (definition : MosaicDefinition) :
    definition.fields fee =
      definition.properFields ++
        [⟨.sinkAddress, .address, definition.sink⟩,
         ⟨.rentalFee, .xem, Bytes.ofNatLE 8 definition.rentalFee.toNat⟩, fee] := by
  have hproperties (properties : List MosaicProperty) :
      properties.map MosaicProperty.field =
        properties.flatMap fun property => [property.field] := by
    induction properties with
    | nil => rfl
    | cons property properties ih =>
      rw [List.map_cons, ih, List.flatMap_cons, List.singleton_append]
  obtain ⟨creator, id, description, properties, levy, sink, rentalFee⟩ := definition
  cases levy <;> simp [fields, properFields, hproperties]

/-- Every part of the definition proper is shorter than the whole. -/
theorem parts_lt (definition : MosaicDefinition) :
    definition.id.encode.length < definition.encodeProper.length ∧
      definition.description.length < definition.encodeProper.length ∧
      definition.properties.length < definition.encodeProper.length ∧
      (∀ property ∈ definition.properties,
        property.encode.length < definition.encodeProper.length) ∧
      (definition.levy.elim [] Levy.encode).length < definition.encodeProper.length := by
  have hmark (property : MosaicProperty) : Bytes.prefixed property.encode ≠ [] :=
    Bytes.prefixed_ne_nil property.encode
  have hcount := Bytes.length_le_length_flatMap hmark definition.properties
  have hlength := congrArg List.length definition.encodeProper_eq
  simp only [List.length_append, Bytes.length_prefixed, Bytes.length_ofNatLE, writtenLevy]
    at hlength
  refine ⟨by omega, by omega, by omega, fun property hproperty => ?_, by omega⟩
  have hitem := Bytes.length_le_of_mem_flatMap (fun property => Bytes.prefixed property.encode)
    hproperty
  simp only [Bytes.length_prefixed] at hitem
  omega

/-- What fits the container can be declared when the length of the container can. -/
theorem parts_fit {definition : MosaicDefinition}
    (hlength : definition.encodeProper.length < UInt32.size) :
    definition.id.encode.length < UInt32.size ∧ definition.description.length < UInt32.size ∧
      definition.properties.length < UInt32.size ∧
      (∀ property ∈ definition.properties, property.encode.length < UInt32.size) ∧
      (definition.levy.elim [] Levy.encode).length < UInt32.size := by
  obtain ⟨hid, hdescription, hcount, hproperties, hlast⟩ := definition.parts_lt
  exact ⟨Nat.lt_trans hid hlength, Nat.lt_trans hdescription hlength, Nat.lt_trans hcount hlength,
    fun property hmem => Nat.lt_trans (hproperties property hmem) hlength,
    Nat.lt_trans hlast hlength⟩

theorem wellFormed_of_length {definition : MosaicDefinition}
    (hcreator : definition.creator.length = Limits.publicKeyLength)
    (hlevy : ∀ levy ∈ definition.levy, levy.WellFormed)
    (hsink : definition.sink.length = Limits.addressLength)
    (hlength : definition.encode.length < UInt32.size) : definition.WellFormed := by
  simp only [encode, List.length_append, Bytes.length_prefixed] at hlength
  exact ⟨hcreator, hlevy, by omega, hsink⟩

theorem decodeProper_exhausts (limit : Nat) :
    Exhausts (decodeProper (fun count => count) limit) := by
  rw [decodeProper]
  refine .bind fun _ => .bind fun _ => .bind fun _ => .bind fun _ => .bind fun _ => .bind fun _ =>
    .bind fun _ => .bind fun _ => .bind fun _ => .bind fun levy => ?_
  dsimp only
  split
  · exact .bind fun _ => .finish
  · exact .finish

theorem decodeProper_ensures (limit : Nat) :
    Ensures (decodeProper (fun count => count) limit) fun _ written collected =>
      ∃ definition : MosaicDefinition, definition.creator.length = Limits.publicKeyLength ∧
        (∀ levy ∈ definition.levy, levy.WellFormed) ∧ written = definition.encodeProper ∧
        collected = definition.properFields := by
  rw [decodeProper]
  refine .read (readSized_inverts Limits.publicKeyLength_lt) fun creator hcreator => ?_
  refine .read (readNested_inverts limit) fun data _ => ?_
  refine MosaicId.ensures_names fun id hid => ?_
  subst hid
  refine .emit (.emit (.read (readNested_inverts limit) fun description _ => .emit ?_))
  refine .read (readUInt_inverts 4) fun count _ => ?_
  refine .decode ((MosaicProperty.decode_decodes limit).times count) ?_
  rintro properties ⟨rfl, -⟩
  refine .read (readNested_inverts limit) fun data _ => ?_
  -- The sink and the rental fee are not part of the container, so any will do here.
  dsimp only
  split
  · refine .bind (Levy.decode_ensures data) ?_
    rintro _ _ _ ⟨levy, hlevy, rfl, rfl, rfl⟩
    refine .finish ⟨⟨creator, id, description, properties, some levy, [], 0⟩, hcreator, ?_, ?_, ?_⟩
    · simpa using hlevy
    · rw [encodeProper_eq]
      simp [writtenLevy]
    · simp [properFields]
  · next hnone =>
    obtain rfl : data = [] := Decidable.not_not.mp hnone
    refine .finish ⟨⟨creator, id, description, properties, none, [], 0⟩, hcreator, ?_, ?_, ?_⟩
    · simp
    · rw [encodeProper_eq]
      simp [writtenLevy]
    · simp [properFields]

/-- The definition proper is read to the end of its container. -/
theorem decodeProper_yields {definition : MosaicDefinition} {cursor next : Cursor}
    (hcreator : definition.creator.length = Limits.publicKeyLength)
    (hlevy : ∀ levy ∈ definition.levy, levy.WellFormed)
    (hlength : definition.encodeProper.length < UInt32.size)
    (hgives : cursor.Gives definition.encodeProper next) (hend : next.isExhausted = true) :
    Yields (decodeProper (fun count => count) definition.encodeProper.length) cursor next ()
      definition.properFields := by
  obtain ⟨hid, hdescription, -, hproperties, hlast⟩ := definition.parts_lt
  obtain ⟨hidFits, hdescriptionFits, hcountFits, hpropertiesFit, hlastFits⟩ := parts_fit hlength
  rw [encodeProper_eq] at hgives
  -- From here on only the bounds on the parts matter, not what the limit is.
  generalize definition.encodeProper.length = limit at *
  obtain ⟨c1, hgives, g2⟩ := gives_append.mp hgives
  have h1 := (readSized_inverts Limits.publicKeyLength_lt _ _ _).mpr ⟨hcreator, hgives⟩
  obtain ⟨c2, hgives, g3⟩ := gives_append.mp g2
  have h2 := (readNested_inverts limit _ _ _).mpr ⟨⟨hid, hidFits⟩, hgives⟩
  have hnames := MosaicId.readNestedNames_encode hidFits c2
  obtain ⟨c3, hgives, g4⟩ := gives_append.mp g3
  have h3 := (readNested_inverts limit _ _ _).mpr ⟨⟨hdescription, hdescriptionFits⟩, hgives⟩
  obtain ⟨c4, hgives, g5⟩ := gives_append.mp g4
  have h4 := (readUInt_inverts 4 _ _ _).mpr ⟨hcountFits, hgives⟩
  obtain ⟨c5, hgives, g6⟩ := gives_append.mp g5
  have hlist := ((MosaicProperty.decode_decodes limit).times definition.properties.length).yields
    ⟨rfl, fun property hmem => ⟨hproperties property hmem, hpropertiesFit property hmem⟩⟩ hgives
  have h6 := (readNested_inverts limit _ _ _).mpr ⟨⟨hlast, hlastFits⟩, g6⟩
  have hfinish := Yields.finish hend
  rw [decodeProper, properFields]
  refine .read h1 (.read h2 (.read hnames (.emit rfl (.emit rfl (.read h3 (.emit rfl ?_))))))
  refine .read h4 (hlist.bind (.read h6 ?_))
  dsimp only
  cases hsome : definition.levy with
  | none =>
    rw [Option.elim, if_neg (by simp)]
    exact hfinish
  | some levy =>
    rw [hsome] at hlastFits
    rw [Option.elim, if_pos levy.encode_ne_nil, Option.elim, ← List.append_nil levy.fields]
    exact (Levy.decode_yields (hlevy levy hsome) hlastFits next).bind hfinish

theorem decode_decodes (header : Header) :
    Decodes (decode (fun count => count) header) WellFormed encode (fields header.feeField) := by
  constructor
  · rw [decode]
    refine .read readLength_inverts fun length hlength => ?_
    refine .look Cursor.canRead_eq_ok fun fits => ?_
    dsimp only
    split
    · exact .throw_bind
    · refine .read (readBytes_inverts length) fun proper hproper => ?_
      refine .bind ((decodeProper_ensures length).within (decodeProper_exhausts length)) ?_
      rintro _ _ _ ⟨rfl, definition, hcreator, hlevy, rfl, rfl⟩
      subst hproper
      refine .read (readSized_inverts Limits.addressLength_lt) fun sink hsink => ?_
      refine .read (readBytes_inverts 8) fun rentalFee hrentalFee => ?_
      obtain ⟨rentalFee, rfl⟩ := Bytes.exists_uint64 hrentalFee
      obtain ⟨creator, id, description, properties, levy, _, _⟩ := definition
      refine .emit (.emit (.emit_last
        ⟨⟨creator, id, description, properties, levy, sink, rentalFee⟩,
          ⟨hcreator, hlevy, hlength, hsink⟩, ?_, ?_⟩))
      · simp only [encode, Bytes.prefixed, List.append_nil, List.nil_append, List.append_assoc]
        rfl
      · rw [fields_eq]
        rfl
  · rintro definition ⟨hcreator, hlevy, hlength, hsink⟩ cursor next hgives
    obtain ⟨c4, hgives, g5⟩ := gives_append.mp hgives
    obtain ⟨c3, g3, g4⟩ := gives_append.mp hgives
    obtain ⟨c1, h1, h3⟩ := Cursor.length_then_bytes.mpr ⟨rfl, hlength, g3⟩
    have hfits := ((readBytes_inverts _ _ _ _).mp h3).2.hasData
    have h2 := Cursor.canRead_eq_ok.mpr ⟨hfits, rfl⟩
    have h4 := (readSized_inverts Limits.addressLength_lt _ _ _).mpr ⟨hsink, g4⟩
    have h5 := (readBytes_inverts 8 _ _ _).mpr ⟨Bytes.length_ofNatLE 8 _, g5⟩
    have hproper := (decodeProper_yields hcreator hlevy hlength (Cursor.start_gives _)
      (Cursor.end_isExhausted _)).within c3
    rw [decode, fields_eq]
    refine .read h1 (.read h2 ?_)
    refine .read h3 (hproper.bind (.read h4 (.read h5 ?_)))
    exact .emit rfl (.emit rfl (.emit_last rfl))

theorem writtenLevy_inj {levy levy' : Option Levy} (hvalid : ∀ levy₁ ∈ levy, levy₁.WellFormed)
    (hvalid' : ∀ levy₁ ∈ levy', levy₁.WellFormed)
    (hlength : (levy.elim [] Levy.encode).length < UInt32.size)
    (hlength' : (levy'.elim [] Levy.encode).length < UInt32.size)
    (h : writtenLevy levy = writtenLevy levy') : levy = levy' := by
  -- A levy that is missing is written like one of no bytes, which no levy is.
  have hencode := Bytes.prefixed_inj hlength hlength' h
  cases levy with
  | none =>
    cases levy' with
    | none => rfl
    | some levy' => exact absurd hencode.symm levy'.encode_ne_nil
  | some levy =>
    cases levy' with
    | none => exact absurd hencode levy.encode_ne_nil
    | some levy' =>
      exact congrArg some
        (Levy.encode_inj (hvalid _ rfl) (hvalid' _ rfl) hlength hlength' hencode)

/-- The written form of a mosaic definition tells the definition, its creator included. -/
theorem encode_delimits : Delimits WellFormed encode fun definition => definition := by
  rintro definition definition' rest rest' ⟨hcreator, hlevy, hlength, hsink⟩
    ⟨hcreator', hlevy', hlength', hsink'⟩ h
  obtain ⟨hid, hdescription, hcount, hproperties, hlast⟩ := parts_fit hlength
  obtain ⟨hid', hdescription', hcount', hproperties', hlast'⟩ := parts_fit hlength'
  simp only [encode, List.append_assoc] at h
  obtain ⟨hproper, htail⟩ := Bytes.prefixed_append_inj hlength hlength' h
  obtain ⟨h6, htail'⟩ := Bytes.prefixed_append_inj (hsink ▸ Limits.addressLength_lt)
    (hsink' ▸ Limits.addressLength_lt) htail
  obtain ⟨h7, hrest⟩ := Bytes.ofNatLE_append_inj definition.rentalFee.toNat_lt
    definition'.rentalFee.toNat_lt htail'
  rw [encodeProper_eq, encodeProper_eq] at hproper
  obtain ⟨h1, g2⟩ := Bytes.prefixed_append_inj (hcreator ▸ Limits.publicKeyLength_lt)
    (hcreator' ▸ Limits.publicKeyLength_lt) hproper
  obtain ⟨hencode, g3⟩ := Bytes.prefixed_append_inj hid hid' g2
  have h2 := MosaicId.encode_inj hid hid' hencode
  obtain ⟨h3, g4⟩ := Bytes.prefixed_append_inj hdescription hdescription' g3
  obtain ⟨hsame, g5⟩ := Bytes.ofNatLE_append_inj hcount hcount' g4
  obtain ⟨h4, g6⟩ := MosaicProperty.encode_delimits.flatMap_eq hsame hproperties hproperties' g5
  have h5 := writtenLevy_inj hlevy hlevy' hlast hlast' g6
  cases definition
  cases definition'
  simp only at h1 h2 h3 h4 h5 h6 h7
  rw [h1, h2, h3, h4, h5, h6, UInt64.toNat_inj.mp h7]
  exact ⟨rfl, hrest⟩

end MosaicDefinition

end NemSigner
