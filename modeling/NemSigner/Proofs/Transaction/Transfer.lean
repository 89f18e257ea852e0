import NemSigner.Proofs.Transaction.Header
import NemSigner.Proofs.Transaction.Mosaic
import NemSigner.Transaction.Transfer

/-!
# Transfers and their written form

## Main definitions

- `Message.written`, `Transfer.writtenMosaics` — the parts of the written form that can be missing
- `Message.shown`, `Transfer.shownMosaics` — what is shown of them

## Main statements

- `Transfer.decode_decodes` — the decoder takes the written forms
- `Transfer.encode_delimits` — the written form tells the transfer
-/

namespace NemSigner

open Decoder (Ensures Yields Decodes)
open Cursor (readUInt_inverts readLength_inverts readBytes_inverts readPrefixed_inverts
  readSized_inverts readNames_inverts gives_append)

namespace AttachedMosaic

theorem fields_xem {mosaic : AttachedMosaic} (h : mosaic.id = MosaicId.xem) :
    mosaic.fields = [⟨.mosaicAmount, .xem, Bytes.ofNatLE 8 mosaic.quantity.toNat⟩] :=
  if_pos h

theorem fields_of_ne_xem {mosaic : AttachedMosaic} (h : mosaic.id ≠ MosaicId.xem) :
    mosaic.fields =
      [⟨.unknownMosaic, .text, []⟩, ⟨.transferMosaic, .text, mosaic.id.encode⟩,
       ⟨.mosaicUnits, .mosaicQuantity, Bytes.ofNatLE 8 mosaic.quantity.toNat⟩] :=
  if_neg h

/-- The parts of a mosaic that fits its length fit theirs. -/
theorem WellFormed.parts {mosaic : AttachedMosaic} (h : mosaic.WellFormed) :
    mosaic.id.encode.length < UInt32.size ∧ mosaic.id.space.length < UInt32.size ∧
      mosaic.id.name.length < UInt32.size := by
  have hlength : mosaic.encode.length < UInt32.size := h
  simp only [encode, MosaicId.encode, List.length_append, Bytes.length_prefixed] at hlength ⊢
  omega

theorem decode_decodes :
    Decodes decode WellFormed (fun mosaic => Bytes.prefixed mosaic.encode) fields := by
  constructor
  · rw [decode]
    refine .read readPrefixed_inverts fun data hdata => ?_
    refine .exactly (readPrefixed_inverts.pair (readBytes_inverts 8)) ?_
    rintro ⟨id, quantity⟩ ⟨-, hquantity⟩ rfl
    refine .exactly readNames_inverts ?_
    rintro ⟨space, name⟩ - rfl
    obtain ⟨quantity, rfl⟩ := Bytes.exists_uint64 hquantity
    dsimp only
    split
    · next hxem =>
      refine .emit_last ⟨⟨⟨space, name⟩, quantity⟩, hdata, List.append_nil _, ?_⟩
      rw [fields_xem hxem]
    · next hxem =>
      refine .emit (.emit (.emit_last ⟨⟨⟨space, name⟩, quantity⟩, hdata, List.append_nil _, ?_⟩))
      rw [fields_of_ne_xem hxem]
      rfl
  · intro mosaic hvalid cursor next hgives
    obtain ⟨hid, hspace, hname⟩ := hvalid.parts
    have houter := (readPrefixed_inverts _ _ _).mpr ⟨hvalid, hgives⟩
    have hparts := Cursor.exactly_encode (readPrefixed_inverts.pair (readBytes_inverts 8))
      (mosaic.id.encode, Bytes.ofNatLE 8 mosaic.quantity.toNat) ⟨hid, Bytes.length_ofNatLE _ _⟩ next
    have hnames := Cursor.exactly_encode readNames_inverts (mosaic.id.space, mosaic.id.name)
      ⟨hspace, hname⟩ next
    rw [decode]
    refine .read houter (.read hparts (.read hnames ?_))
    dsimp only
    split
    · next hxem =>
      rw [fields_xem hxem]
      exact .emit_last rfl
    · next hxem =>
      rw [fields_of_ne_xem hxem]
      exact .emit rfl (.emit rfl (.emit_last rfl))

theorem encode_delimits :
    Delimits WellFormed (fun mosaic => Bytes.prefixed mosaic.encode) fun mosaic => mosaic := by
  intro mosaic mosaic' rest rest' hvalid hvalid' h
  obtain ⟨hid, -, -⟩ := hvalid.parts
  obtain ⟨hid', -, -⟩ := hvalid'.parts
  obtain ⟨hencode, hrest⟩ := Bytes.prefixed_append_inj hvalid hvalid' h
  obtain ⟨hfirst, hsecond⟩ := Bytes.prefixed_append_inj hid hid' hencode
  have hsame : mosaic.id = mosaic'.id := MosaicId.encode_inj hid hid' hfirst
  have hquantity : mosaic.quantity = mosaic'.quantity := Bytes.ofNatLE_uint64_inj.mp hsecond
  cases mosaic
  cases mosaic'
  simp only at hsame hquantity
  rw [hsame, hquantity]
  exact ⟨rfl, hrest⟩

end AttachedMosaic

namespace Message

/-- A message with its length in front; a length of zero stands for none. -/
def written : Option Message → Bytes
  | none => Bytes.ofNatLE 4 0
  | some message => Bytes.prefixed message.encode

/-- The field of a message; none is shown like an empty text. -/
def shown : Option Message → Field
  | none => ⟨.plainMessage, .message, []⟩
  | some message => message.field

theorem field_plain {message : Message} (h : message.payloadType = plain) :
    message.field = ⟨.plainMessage, .message, message.payload⟩ :=
  if_pos h

theorem field_of_ne_plain {message : Message} (h : message.payloadType ≠ plain) :
    message.field = ⟨.encryptedMessage, .message, []⟩ :=
  if_neg h

theorem length_encode (message : Message) : message.encode.length = 8 + message.payload.length := by
  simp only [encode, List.length_append, Bytes.length_ofNatLE, Bytes.length_prefixed]
  omega

theorem encode_ne_nil (message : Message) : message.encode ≠ [] := by
  intro h
  have hlength := message.length_encode
  rw [h, List.length_nil] at hlength
  omega

theorem WellFormed.payload {message : Message} (h : message.WellFormed) :
    message.payload.length < UInt32.size := by
  have hlength : message.encode.length < UInt32.size := h
  rw [length_encode] at hlength
  omega

/-- The declared length decides whether there is a message. -/
theorem decode_ensures {length : Nat} (hlength : length < UInt32.size) :
    Ensures (decode length) fun _ bytes collected =>
      ∃ message : Option Message, (∀ message' ∈ message, message'.WellFormed) ∧
        Bytes.ofNatLE 4 length ++ bytes = written message ∧ collected = [shown message] := by
  rw [decode]
  split
  · next hzero =>
    subst hzero
    exact .emit_last ⟨none, by simp, rfl, rfl⟩
  · refine .read (readBytes_inverts length) fun data hdata => ?_
    subst hdata
    refine .exactly ((readUInt_inverts 4).pair readPrefixed_inverts) ?_
    rintro ⟨payloadType, payload⟩ ⟨htype, -⟩ rfl
    obtain ⟨payloadType, rfl⟩ := Bytes.exists_word htype
    dsimp only [id] at hlength ⊢
    have hvalid : ∀ message' ∈ some (⟨payloadType, payload⟩ : Message), message'.WellFormed := by
      intro message' hmem
      cases hmem
      exact hlength
    split
    · next hplain =>
      refine .emit_last ⟨some ⟨payloadType, payload⟩, hvalid, ?_, ?_⟩
      · rw [List.append_nil]
        rfl
      · rw [shown, field_plain (UInt32.toNat_inj.mp hplain)]
    · next hplain =>
      refine .emit_last ⟨some ⟨payloadType, payload⟩, hvalid, ?_, ?_⟩
      · rw [List.append_nil]
        rfl
      · rw [shown, field_of_ne_plain fun h => hplain (congrArg UInt32.toNat h)]

/-- The declared length is read, and from behind it the message is decoded. -/
theorem decode_yields {message : Option Message} {cursor next : Cursor}
    (hvalid : ∀ message' ∈ message, message'.WellFormed)
    (hgives : cursor.Gives (written message) next) :
    ∃ length middle, Cursor.readLength cursor = .ok length middle ∧
      Yields (decode length) middle next () [shown message] := by
  cases message with
  | none => exact ⟨0, next, (readLength_inverts _ _ _).mpr ⟨by decide, hgives⟩, .emit_last rfl⟩
  | some message =>
    have hlength : message.encode.length < UInt32.size := hvalid message rfl
    have hpayload := WellFormed.payload hlength
    obtain ⟨middle, hread, hgives⟩ := Cursor.length_then_bytes.mpr ⟨rfl, hlength, hgives⟩
    have hparts := Cursor.exactly_encode ((readUInt_inverts 4).pair readPrefixed_inverts)
      (message.payloadType.toNat, message.payload) ⟨message.payloadType.toNat_lt, hpayload⟩ next
    refine ⟨message.encode.length, middle, hread, ?_⟩
    rw [decode, if_neg (by rw [message.length_encode]; omega)]
    refine .read hgives (.read hparts ?_)
    dsimp only
    rw [shown]
    split
    · next hplain =>
      rw [field_plain (UInt32.toNat_inj.mp hplain)]
      exact .emit_last rfl
    · next hplain =>
      rw [field_of_ne_plain fun h => hplain (congrArg UInt32.toNat h)]
      exact .emit_last rfl

theorem encode_inj {message message' : Message} (hvalid : message.WellFormed)
    (hvalid' : message'.WellFormed) (h : message.encode = message'.encode) :
    message = message' := by
  obtain ⟨htype, hrest⟩ :=
    Bytes.ofNatLE_append_inj message.payloadType.toNat_lt message'.payloadType.toNat_lt h
  have hpayload := Bytes.prefixed_inj hvalid.payload hvalid'.payload hrest
  cases message
  cases message'
  simp only at htype hpayload
  rw [UInt32.toNat_inj.mp htype, hpayload]

theorem written_delimits :
    Delimits (fun message : Option Message => ∀ message' ∈ message, message'.WellFormed) written
      fun message => message := by
  intro message message' rest rest' hvalid hvalid' h
  -- A missing message is written as one of no bytes, and a message has eight at least.
  have hwritten (message : Option Message) :
      written message = Bytes.prefixed (message.elim [] encode) := by
    cases message <;> rfl
  have hbound {message : Option Message} (hvalid : ∀ message' ∈ message, message'.WellFormed) :
      (message.elim [] encode).length < UInt32.size := by
    cases message with
    | none => decide
    | some message => exact hvalid message rfl
  rw [hwritten, hwritten] at h
  obtain ⟨hencode, hrest⟩ := Bytes.prefixed_append_inj (hbound hvalid) (hbound hvalid') h
  refine ⟨?_, hrest⟩
  cases message with
  | none =>
    cases message' with
    | none => rfl
    | some message' => exact absurd hencode.symm message'.encode_ne_nil
  | some message =>
    cases message' with
    | none => exact absurd hencode message.encode_ne_nil
    | some message' => exact congrArg some (encode_inj (hvalid _ rfl) (hvalid' _ rfl) hencode)

end Message

namespace Transfer

/-- The written form of a list of mosaics. -/
def writtenMosaics (mosaics : List AttachedMosaic) : Bytes :=
  Bytes.ofNatLE 4 mosaics.length ++
    mosaics.flatMap fun mosaic => Bytes.prefixed mosaic.encode

/-- The fields of a list of mosaics. Without mosaics it is the amount that is shown. -/
def shownMosaics (amount : Bytes) : List AttachedMosaic → List Field
  | [] => [⟨.mosaicAmount, .xem, amount⟩]
  | mosaics =>
    ⟨.mosaicCount, .uint32, Bytes.ofNatLE 4 mosaics.length⟩ :: mosaics.flatMap AttachedMosaic.fields

theorem shownMosaics_of_ne_nil (amount : Bytes) {mosaics : List AttachedMosaic} (h : mosaics ≠ []) :
    shownMosaics amount mosaics =
      ⟨.mosaicCount, .uint32, Bytes.ofNatLE 4 mosaics.length⟩ ::
        mosaics.flatMap AttachedMosaic.fields := by
  cases mosaics with
  | nil => exact absurd rfl h
  | cons mosaic mosaics => rfl

theorem decodeMosaics_decodes {amount : Bytes} (hamount : amount.length = 8) :
    Decodes (decodeMosaics id amount)
      (fun mosaics => mosaics.length < UInt32.size ∧ ∀ mosaic ∈ mosaics, mosaic.WellFormed)
      writtenMosaics (shownMosaics amount) := by
  have htimes (count : Nat) := AttachedMosaic.decode_decodes.times count
  constructor
  · rw [decodeMosaics]
    refine .read (readBytes_inverts 4) fun countBytes hcountBytes => ?_
    obtain ⟨count, rfl⟩ := Bytes.exists_uint32 hcountBytes
    dsimp only [id]
    rw [Bytes.toNatLE_ofNatLE_uint32]
    split
    · next hzero =>
      refine .emit_last ⟨[], ⟨by decide, by simp⟩, ?_, rfl⟩
      rw [hzero]
      rfl
    · next hzero =>
      refine .emit ((htimes count.toNat).ensures.mono ?_)
      rintro _ _ _ ⟨mosaics, ⟨hcount, hvalid⟩, rfl, rfl⟩
      refine ⟨mosaics, ⟨hcount ▸ count.toNat_lt, hvalid⟩, by rw [writtenMosaics, hcount], ?_⟩
      rw [shownMosaics_of_ne_nil, hcount]
      rintro rfl
      exact hzero hcount.symm
  · rintro mosaics ⟨hlength, hvalid⟩ cursor next hgives
    obtain ⟨middle, hgives, hgives'⟩ := gives_append.mp hgives
    have hcount := (readBytes_inverts 4 _ _ _).mpr ⟨Bytes.length_ofNatLE 4 mosaics.length, hgives⟩
    rw [decodeMosaics]
    refine .read hcount ?_
    rw [Bytes.toNatLE_ofNatLE_four hlength]
    cases mosaics with
    | nil =>
      rw [← hgives'.eq_of_nil]
      exact .emit_last (by simp [Field.fits, DataType.fixedLength, hamount])
    | cons mosaic mosaics =>
      rw [if_neg (by simp)]
      exact .emit rfl ((htimes _).yields ⟨rfl, hvalid⟩ hgives')

/-- The first version shows the amount before the message and has no list of mosaics. -/
theorem fields_first {fee : Field} {transfer : Transfer} (h : transfer.mosaics = none) :
    transfer.fields fee =
      [⟨.recipient, .address, transfer.recipient⟩,
       ⟨.mosaicAmount, .xem, Bytes.ofNatLE 8 transfer.amount.toNat⟩,
       Message.shown transfer.message, fee] := by
  obtain ⟨recipient, amount, message, mosaics⟩ := transfer
  cases h
  cases message <;> rfl

theorem fields_second {fee : Field} {transfer : Transfer} {mosaics : List AttachedMosaic}
    (h : transfer.mosaics = some mosaics) :
    transfer.fields fee =
      ⟨.recipient, .address, transfer.recipient⟩ :: Message.shown transfer.message :: fee ::
        shownMosaics (Bytes.ofNatLE 8 transfer.amount.toNat) mosaics := by
  obtain ⟨recipient, amount, message, _⟩ := transfer
  cases h
  cases message <;> cases mosaics <;> rfl

theorem encode_eq (transfer : Transfer) :
    transfer.encode =
      Bytes.prefixed transfer.recipient ++ (Bytes.ofNatLE 8 transfer.amount.toNat ++
        (Message.written transfer.message ++ transfer.mosaics.elim [] writtenMosaics)) := by
  obtain ⟨recipient, amount, message, mosaics⟩ := transfer
  cases message <;> cases mosaics <;> simp [encode, Message.written, writtenMosaics]

/-- The parts of a transfer can be declared when the transfer itself is not too long. -/
theorem wellFormed_of_length {version : UInt8} {transfer : Transfer}
    (hrecipient : transfer.recipient.length = Limits.addressLength)
    (hsome : transfer.mosaics.isSome ↔ version = 2)
    (hlength : transfer.encode.length < UInt32.size) : transfer.WellFormed version := by
  simp only [encode_eq, List.length_append] at hlength
  refine ⟨hrecipient, ?_, hsome, ?_⟩
  · intro message hmessage
    simp only [Option.mem_def.mp hmessage, Message.written, Bytes.length_prefixed] at hlength
    show message.encode.length < UInt32.size
    omega
  · intro mosaics hmosaics
    have hmark (mosaic : AttachedMosaic) : Bytes.prefixed mosaic.encode ≠ [] :=
      Bytes.prefixed_ne_nil mosaic.encode
    have hcount := Bytes.length_le_length_flatMap hmark mosaics
    rw [Option.mem_def.mp hmosaics, Option.elim, writtenMosaics, List.length_append] at hlength
    refine ⟨by omega, fun mosaic hmem => ?_⟩
    have hitem := Bytes.length_le_of_mem_flatMap (fun mosaic : AttachedMosaic =>
      Bytes.prefixed mosaic.encode) hmem
    simp only [Bytes.length_prefixed] at hitem
    show mosaic.encode.length < UInt32.size
    omega

theorem decode_decodes {header : Header} (hversion : header.version = 1 ∨ header.version = 2) :
    Decodes (decode id header) (WellFormed header.version) encode (fields header.feeField) := by
  constructor
  · rw [decode]
    refine .read (readSized_inverts Limits.addressLength_lt) fun recipient hrecipient => ?_
    refine .read (readBytes_inverts 8) fun amount hamount => ?_
    refine .read readLength_inverts fun length hlength => ?_
    refine .emit ?_
    obtain ⟨amount, rfl⟩ := Bytes.exists_uint64 hamount
    rcases hversion with hversion | hversion
    · have hother : header.version ≠ 2 := by simp [hversion]
      simp only [if_pos hversion, if_neg hother]
      refine .emit (.bind (Message.decode_ensures hlength) ?_)
      rintro _ bytes _ ⟨message, hmessage, hbytes, rfl⟩
      refine .emit (.pure
        ⟨⟨recipient, amount, message, none⟩, ⟨hrecipient, hmessage, ?_, ?_⟩, ?_, ?_⟩)
      · simp [hother]
      · simp
      · rw [encode_eq, ← hbytes]
        simp
      · rw [fields_first rfl]
        rfl
    · have hother : header.version ≠ 1 := by simp [hversion]
      simp only [if_pos hversion, if_neg hother]
      refine .bind (Message.decode_ensures hlength) ?_
      rintro _ bytes _ ⟨message, hmessage, hbytes, rfl⟩
      refine .emit ((decodeMosaics_decodes (Bytes.length_ofNatLE 8 _)).ensures.mono ?_)
      rintro _ _ _ ⟨mosaics, hmosaics, rfl, rfl⟩
      refine ⟨⟨recipient, amount, message, some mosaics⟩, ⟨hrecipient, hmessage, ?_, ?_⟩, ?_, ?_⟩
      · simp [hversion]
      · simpa using hmosaics
      · rw [encode_eq, ← hbytes]
        simp
      · rw [fields_second rfl]
        rfl
  · rintro transfer ⟨hrecipient, hmessage, hsome, hmosaics⟩ cursor next hgives
    rw [encode_eq] at hgives
    obtain ⟨c1, hgives, g2⟩ := gives_append.mp hgives
    have h1 := (readSized_inverts Limits.addressLength_lt _ _ _).mpr ⟨hrecipient, hgives⟩
    obtain ⟨c2, hgives, g3⟩ := gives_append.mp g2
    have h2 := (readBytes_inverts 8 _ _ _).mpr ⟨Bytes.length_ofNatLE _ _, hgives⟩
    obtain ⟨c4, hgives, g4⟩ := gives_append.mp g3
    obtain ⟨length, c3, h3, hmessage⟩ := Message.decode_yields hmessage hgives
    rw [decode]
    -- The version decides whether the amount stands before the message or among the mosaics.
    refine .read h1 (.read h2 (.read h3 ?_))
    rcases hversion with hversion | hversion
    · have hnone : transfer.mosaics = none := by
        simpa [hversion] using hsome
      rw [fields_first hnone]
      rw [hnone] at g4
      have hother : header.version ≠ 2 := by simp [hversion]
      simp only [if_pos hversion, if_neg hother]
      rw [← g4.eq_of_nil]
      exact .emit rfl (.emit rfl (hmessage.bind (.emit rfl .pure)))
    · obtain ⟨mosaics, hsome⟩ := Option.isSome_iff_exists.mp (hsome.mpr hversion)
      rw [fields_second hsome]
      rw [hsome] at g4
      have hother : header.version ≠ 1 := by simp [hversion]
      simp only [if_pos hversion, if_neg hother]
      have hlist := (decodeMosaics_decodes (Bytes.length_ofNatLE 8 transfer.amount.toNat)).yields
        (hmosaics _ hsome) g4
      exact .emit rfl (hmessage.bind (.emit rfl hlist))

theorem writtenMosaics_delimits :
    Delimits (fun mosaics : List AttachedMosaic =>
      mosaics.length < UInt32.size ∧ ∀ mosaic ∈ mosaics, mosaic.WellFormed) writtenMosaics
      fun mosaics => mosaics := by
  rintro mosaics mosaics' rest rest' ⟨hlength, hvalid⟩ ⟨hlength', hvalid'⟩ h
  simp only [writtenMosaics, List.append_assoc] at h
  obtain ⟨hcount, htail⟩ := Bytes.ofNatLE_append_inj hlength hlength' h
  exact AttachedMosaic.encode_delimits.flatMap_eq hcount hvalid hvalid' htail

/-- Within one version the written form of a transfer tells the transfer. -/
theorem encode_delimits (version : UInt8) : Delimits (WellFormed version) encode
    fun transfer => transfer := by
  rintro ⟨recipient, amount, message, mosaics⟩ ⟨recipient', amount', message', mosaics'⟩ rest rest'
    ⟨hrecipient, hmessage, hsome, hmosaics⟩ ⟨hrecipient', hmessage', hsome', hmosaics'⟩ h
  have haddress := Limits.addressLength_lt
  dsimp only at hrecipient hrecipient' hmessage hmessage' hsome hsome' hmosaics hmosaics'
  simp only [encode_eq, List.append_assoc] at h
  obtain ⟨rfl, htail⟩ :=
    Bytes.prefixed_append_inj (hrecipient ▸ haddress) (hrecipient' ▸ haddress) h
  obtain ⟨hamount, htail'⟩ := Bytes.ofNatLE_append_inj amount.toNat_lt amount'.toNat_lt htail
  obtain ⟨rfl, hlist⟩ := Message.written_delimits hmessage hmessage' htail'
  obtain rfl := UInt64.toNat_inj.mp hamount
  -- Nothing in the text marks a list of mosaics; it is there when the version says so.
  have hpresent : mosaics.isSome = mosaics'.isSome := Bool.eq_iff_iff.mpr (hsome.trans hsome'.symm)
  cases mosaics with
  | none =>
    cases mosaics' with
    | none => exact ⟨rfl, hlist⟩
    | some mosaics' => cases hpresent
  | some mosaics =>
    cases mosaics' with
    | none => cases hpresent
    | some mosaics' =>
      obtain ⟨rfl, hrest⟩ := writtenMosaics_delimits (hmosaics _ rfl) (hmosaics' _ rfl) hlist
      exact ⟨rfl, hrest⟩

end Transfer

end NemSigner
