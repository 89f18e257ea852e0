import NemSigner.Proofs.Transaction.Grammar
import NemSigner.Proofs.Transaction.Streams

/-!
# Transactions that are cut short or go on

A transaction tells its own length. Cut anywhere it is refused for want of bytes, with two
exceptions: a mosaic definition contradicts data that end in it, and a cosignature that is cut
behind its account is one that carries nothing. For that reason the latter is also the one
transaction that can go on.

## Main definitions

- `Transaction.EndsAccount`, `Transaction.EndsInDefinition` — the cuts of the two exceptions
- `Transaction.shortage` — what a transaction is refused for when it is cut

## Main statements

- `Content.decode_stops` — where the decoder of a content stops on cut bytes
- `Transaction.decode_take` — a transaction that is cut
- `Transaction.decode_self_delimiting` — which beginnings and which continuations of a transaction
  are refused, and for what
-/

namespace NemSigner

open Decoder (Streams Stops)
open Cursor (readLength_streams)

namespace MosaicDefinition

variable {cursor next final : Cursor} {table larger : FieldTable} {header : Header}

/-- A definition that is not all there is refused at once. -/
theorem decode_of_length {bound : Nat → Nat} {length : Nat} {middle : Cursor}
    (hlength : Cursor.readLength cursor = .ok length middle) :
    decode bound header table cursor =
      if middle.hasData length then decodeBehind bound header length table middle
      else .error .invalidData middle := by
  rw [decode, Decoder.bind_of_ok (Decoder.lift_eq_ok.mpr ⟨hlength, rfl⟩),
    Decoder.bind_of_ok (Decoder.lift_eq_ok.mpr ⟨Cursor.canRead_eq_ok.mpr ⟨rfl, rfl⟩, rfl⟩)]
  cases middle.hasData length <;> rfl

/-- Behind its length a definition is asked for as a whole, so it contradicts data that end in
it. -/
theorem decode_stops {definition : MosaicDefinition} {bound : Nat → Nat} {count : Nat}
    (hvalid : definition.WellFormed) (hgives : cursor.Gives definition.encode next)
    (hrun : decode bound header table cursor = .ok ((), larger) final)
    (hlt : cursor.offset + count < final.offset) :
    Stops (decode bound header) table (cursor.cut (cursor.offset + count))
      (if 4 ≤ count ∧ count < 4 + definition.encodeProper.length then .invalidData
        else .notEnoughData) := by
  rw [encode] at hgives
  obtain ⟨_, hgives, -⟩ := Cursor.gives_append.mp hgives
  obtain ⟨_, hgives, -⟩ := Cursor.gives_append.mp hgives
  obtain ⟨middle, hgives, hproper⟩ := Cursor.gives_append.mp hgives
  have hlength := (Cursor.readLength_inverts _ _ _).mpr ⟨hvalid.2.2.1, hgives⟩
  have hoffset : middle.offset = cursor.offset + 4 := by
    rw [hgives.offset_eq, Bytes.length_ofNatLE]
  by_cases hbehind : middle.offset ≤ cursor.offset + count
  · have hdata :
        (middle.cut (cursor.offset + count)).hasData definition.encodeProper.length = true ↔
          middle.offset + definition.encodeProper.length ≤ cursor.offset + count := by
      have hroom := Cursor.hasData_iff.mp hproper.hasData
      simp only [Cursor.hasData_iff, Cursor.cut, List.length_take]
      omega
    rw [Stops, decode_of_length (readLength_streams.of_cut hlength hbehind)]
    by_cases hwhole : middle.offset + definition.encodeProper.length ≤ cursor.offset + count
    · rw [decode_of_length hlength, if_pos hproper.hasData] at hrun
      rw [if_pos (hdata.mpr hwhole), if_neg (by omega)]
      exact (decodeBehind_streams bound header _).stops hrun hbehind hlt
    · rw [if_neg (mt hdata.mp hwhole), if_pos (by omega)]
      exact ⟨_, rfl⟩
  · rw [if_neg (by omega)]
    have hread : (liftM Cursor.readLength : Decoder Nat) table cursor =
        .ok (definition.encodeProper.length, table) middle :=
      Decoder.lift_eq_ok.mpr ⟨hlength, rfl⟩
    exact ((Streams.lift readLength_streams).stops hread (Nat.le_add_right _ _)
      (Nat.lt_of_not_le hbehind)).bind

end MosaicDefinition

namespace Content

variable {cursor next : Cursor} {table larger : FieldTable} {header : Header}

theorem decode_of_mosaicDefinition (hkind : header.kind = .ok .mosaicDefinition) :
    decode id header = MosaicDefinition.decode id header := by
  rw [decode, hkind]
  change Action.decodeCarried id header = _
  rw [Action.decodeCarried, hkind]
  rfl

/-- Of a cosignature only one cut is like a whole: the one at which it asks whether it carries
anything. -/
theorem decode_signature_stops {cosignature : Cosignature} {middle : Cursor} {count : Nat}
    (hkind : header.kind = .ok .multisigSignature) (hvalid : cosignature.WellFormed)
    (hgives : cursor.Gives cosignature.encode middle)
    (hrun : decode id header table cursor = .ok ((), larger) next)
    (hle : cursor.offset ≤ count) (hlt : count < next.offset) (hne : count ≠ middle.offset) :
    Stops (decode id header) table (cursor.cut count) .notEnoughData := by
  rw [decode_of_multisigSignature hkind] at hrun ⊢
  obtain ⟨_, between, _, hsignature, hrest⟩ := Decoder.bind_eq_ok.mp hrun
  obtain ⟨rfl, -⟩ := (Cosignature.decode_decodes.yields hvalid hgives).of_ok hsignature
  rcases Nat.lt_or_gt_of_ne hne with hbefore | hbehind
  · exact (Cosignature.decode_streams.stops hsignature hle hbefore).bind
  · obtain ⟨stopped, _, _, hlook, hrest⟩ := Decoder.bind_eq_ok.mp hrest
    obtain ⟨hread, rfl⟩ := Decoder.lift_eq_ok.mp hlook
    obtain ⟨hend, rfl⟩ := Cursor.atEnd_eq_ok.mp hread
    cases stopped with
    | true =>
      -- What carries nothing ends here, so it cannot have been cut behind.
      obtain ⟨-, rfl⟩ := Decoder.emit_eq_ok.mp hrest
      exact absurd hlt (Nat.not_lt_of_gt hbehind)
    | false =>
      have hmore := Cursor.isExhausted_cut hend hbehind
      rw [Stops, Cosignature.decode_streams.bind_cut hsignature (Nat.le_of_lt hbehind),
        Decoder.bind_of_ok (Decoder.lift_eq_ok.mpr ⟨Cursor.atEnd_eq_ok.mpr ⟨hmore, rfl⟩, rfl⟩)]
      exact (ActionTransaction.decodeWrapped_streams id header _).stops hrest
        (Nat.le_of_lt hbehind) hlt

/-- What is missed in a content of which only the first bytes are there. A mosaic definition that is
declared longer than the data contradicts it; all other contents miss bytes. -/
def shortage (count : Nat) : Content → DecodeError
  | .action (.mosaicDefinition definition) =>
    if 4 ≤ count ∧ count < 4 + definition.encodeProper.length then .invalidData
    else .notEnoughData
  | _ => .notEnoughData

theorem shortage_cases (content : Content) (count : Nat) :
    content.shortage count = .invalidData ∨ content.shortage count = .notEnoughData := by
  unfold shortage
  split
  · split
    · exact .inl rfl
    · exact .inr rfl
  · exact .inr rfl

/-- Where the decoder of a content stops when the bytes are cut. Only the cut behind the account of
a cosignature leaves something whole. -/
theorem decode_stops {content : Content} {count : Nat} (hkind : header.kind = .ok content.kind)
    (hvalid : content.WellFormed header.version) (hgives : cursor.Gives content.encode next)
    (hrun : decode id header table cursor = .ok ((), larger) next)
    (hlt : count < content.encode.length)
    (hsignature : ∀ cosignature carried, content = .cosigned cosignature carried →
      count ≠ cosignature.encode.length) :
    Stops (decode id header) table (cursor.cut (cursor.offset + count))
      (content.shortage count) := by
  have hle : cursor.offset ≤ cursor.offset + count := Nat.le_add_right _ _
  have hinside : cursor.offset + count < next.offset := by
    rw [hgives.offset_eq]
    exact Nat.add_lt_add_left hlt _
  cases content with
  | action action =>
    cases action with
    | cosignature cosignature =>
      exact decode_signature_stops hkind hvalid hgives hrun hle hinside (Nat.ne_of_lt hinside)
    | mosaicDefinition definition =>
      rw [decode_of_mosaicDefinition hkind] at hrun ⊢
      exact MosaicDefinition.decode_stops hvalid hgives hrun hinside
    | _ =>
      have hstreams : Streams (decode id header) := decode_streams hkind nofun nofun
      exact hstreams.stops hrun hle hinside
  | multisig carried =>
    have hstreams : Streams (decode id header) := decode_streams hkind nofun nofun
    exact hstreams.stops hrun hle hinside
  | cosigned cosignature carried =>
    obtain ⟨middle, hgives, -⟩ := Cursor.gives_append.mp hgives
    refine decode_signature_stops hkind hvalid.1 hgives hrun hle hinside ?_
    rw [hgives.offset_eq]
    have hne := hsignature cosignature carried rfl
    omega

end Content

namespace Transaction

variable {transaction : Transaction} {data : Bytes} {table : FieldTable} {count : Nat}

/-- Behind the header and the field of its type the content is decoded. -/
theorem content_of_decode (hvalid : transaction.WellFormed)
    (h : decode transaction.encode = .ok table) :
    ∃ middle between, (Cursor.start transaction.encode).Gives transaction.header.encode middle ∧
      middle.Gives transaction.content.encode ⟨transaction.encode, transaction.encode.length⟩ ∧
      (∅ : FieldTable).add .transactionType .uint32 transaction.header.typeBytes = .ok between ∧
      Content.decode id transaction.header between middle =
        .ok ((), table) ⟨transaction.encode, transaction.encode.length⟩ := by
  rw [decode_encode hvalid, FieldTable.ofFields_eq_ok] at h
  obtain ⟨hheader, hcontent⟩ := hvalid
  obtain ⟨middle, hgives, hgives'⟩ := Cursor.gives_append.mp (Cursor.start_gives transaction.encode)
  have hyields := Content.decode_yields hheader.valid.1 hheader.kind_eq hcontent hgives'
    fun _ _ => Cursor.end_isExhausted _
  exact ⟨middle, _, hgives, hgives', rfl, hyields.room _ table h⟩

/-- The bytes end with the account of a cosignature that goes on. -/
def EndsAccount (transaction : Transaction) (count : Nat) : Prop :=
  ∃ cosignature carried, transaction.content = .cosigned cosignature carried ∧
    count = Limits.headerLength + cosignature.encode.length

/-- The bytes end behind the length of a mosaic definition, before the definition does. -/
def EndsInDefinition (transaction : Transaction) (count : Nat) : Prop :=
  ∃ definition, transaction.content = .action (.mosaicDefinition definition) ∧
    Limits.headerLength + 4 ≤ count ∧
    count < Limits.headerLength + 4 + definition.encodeProper.length

/-- What decoding stops with when only the first bytes of a transaction are there. -/
def shortage (transaction : Transaction) (count : Nat) : DecodeError :=
  if count < Limits.headerLength then .notEnoughData
  else transaction.content.shortage (count - Limits.headerLength)

theorem shortage_eq_invalidData :
    transaction.shortage count = .invalidData ↔ transaction.EndsInDefinition count := by
  obtain ⟨header, content⟩ := transaction
  simp only [shortage, EndsInDefinition]
  constructor
  · intro h
    split at h
    · cases h
    · next hheader =>
      cases content with
      | action action =>
        cases action with
        | mosaicDefinition definition =>
          rw [Content.shortage] at h
          split at h
          · next hinside => exact ⟨definition, rfl, by omega, by omega⟩
          · cases h
        | _ => cases h
      | _ => cases h
  · rintro ⟨definition, rfl, hlength, hproper⟩
    rw [if_neg (by omega), Content.shortage, if_pos (by omega)]

theorem shortage_cases (transaction : Transaction) (count : Nat) :
    transaction.shortage count = .invalidData ∨ transaction.shortage count = .notEnoughData := by
  rw [shortage]
  split
  · exact .inr rfl
  · exact transaction.content.shortage_cases _

theorem shortage_eq_notEnoughData :
    transaction.shortage count = .notEnoughData ↔ ¬transaction.EndsInDefinition count := by
  rw [← shortage_eq_invalidData]
  rcases transaction.shortage_cases count with h | h <;> simp [h]

/-- What is cut is refused, unless it is cut to a cosignature that carries nothing. -/
theorem decode_take (hvalid : transaction.WellFormed)
    (h : decode transaction.encode = .ok table) (hlt : count < transaction.encode.length)
    (haccount : ¬transaction.EndsAccount count) :
    decode (transaction.encode.take count) = .error (transaction.shortage count) := by
  obtain ⟨middle, between, hgives, hgives', hadd, hrun⟩ := content_of_decode hvalid h
  have hread := (Header.read_inverts _ _ _).mpr ⟨hvalid.1.valid, hgives⟩
  have hheader := Header.length_encode hvalid.1.valid
  have hoffset : middle.offset = Limits.headerLength := by
    rw [hgives.offset_eq, hheader]
    exact Nat.zero_add _
  have hfirst : (liftM Header.read : Decoder Header) ∅ (Cursor.start transaction.encode) =
      .ok (transaction.header, ∅) middle :=
    Decoder.lift_eq_ok.mpr ⟨hread, rfl⟩
  have hstreams := Streams.lift Header.read_streams
  refine Stops.run ?_
  change Stops _ ∅ ((Cursor.start transaction.encode).cut count) _
  rw [shortage]
  split
  · next hshort => exact (hstreams.stops hfirst (Nat.zero_le _) (hoffset ▸ hshort)).bind
  · next hlong =>
    obtain ⟨behind, rfl⟩ := Nat.exists_eq_add_of_le (Nat.le_of_not_lt hlong)
    have hemit : Decoder.emit .transactionType .uint32 transaction.header.typeBytes ∅
        (middle.cut (middle.offset + behind)) =
          .ok ((), between) (middle.cut (middle.offset + behind)) :=
      Decoder.emit_eq_ok.mpr ⟨hadd, rfl⟩
    rw [Nat.add_sub_cancel_left, ← hoffset, Stops,
      hstreams.bind_cut hfirst (Nat.le_add_right _ _), Decoder.bind_of_ok hemit]
    refine Content.decode_stops hvalid.1.kind_eq hvalid.2 hgives' hrun ?_ ?_
    · rw [encode, List.length_append, hheader] at hlt
      exact Nat.lt_of_add_lt_add_left hlt
    · intro cosignature carried hcontent hbehind
      exact haccount ⟨cosignature, carried, hcontent, by rw [hbehind]⟩

/-- A cosignature that is cut behind the account is one that carries nothing. -/
theorem decode_take_of_endsAccount (hvalid : transaction.WellFormed)
    (haccount : transaction.EndsAccount count) :
    ∃ table, decode (transaction.encode.take count) = .ok table := by
  obtain ⟨header, content⟩ := transaction
  obtain ⟨cosignature, carried, rfl, rfl⟩ := haccount
  let bare : Transaction := ⟨header, .action (.cosignature cosignature)⟩
  have hbare : bare.WellFormed := ⟨hvalid.1, hvalid.2.1⟩
  have hwhole : encode ⟨header, .cosigned cosignature carried⟩ =
      bare.encode ++ Bytes.prefixed (ActionTransaction.encodeAll carried) := by
    simp [encode, bare, Content.encode, Action.encode]
  have hlength : bare.encode.length = Limits.headerLength + cosignature.encode.length := by
    rw [encode, List.length_append, Header.length_encode hbare.1.valid]
    rfl
  have hroom : bare.fields.length ≤ Limits.maxFieldCount :=
    (by decide : 4 ≤ Limits.maxFieldCount)
  refine ⟨⟨bare.fields, hroom⟩, ?_⟩
  rw [hwhole, ← hlength, List.take_left, decode_encode hbare, FieldTable.ofFields_eq_ok]

/-- A transaction tells its own length. Its proper beginnings are refused for want of bytes, with
two exceptions: a cosignature that carries something can be cut behind its account, and a mosaic
definition that is cut behind its length contradicts the data. Nothing can stand behind a
transaction that is not a cosignature without anything carried. -/
theorem decode_self_delimiting (h : decode data = .ok table) :
    ∃ transaction : Transaction, transaction.WellFormed ∧ transaction.encode = data ∧
      (∀ count < data.length,
        ((∃ table', decode (data.take count) = .ok table') ↔ transaction.EndsAccount count) ∧
        (decode (data.take count) = .error .invalidData ↔ transaction.EndsInDefinition count) ∧
        (decode (data.take count) = .error .notEnoughData ↔
          ¬transaction.EndsAccount count ∧ ¬transaction.EndsInDefinition count) ∧
        decode (data.take count) ≠ .error .tooManyFields) ∧
      ((∀ cosignature, transaction.content ≠ .action (.cosignature cosignature)) →
        ∀ more, more ≠ [] → decode (data ++ more) = .error .invalidData) := by
  obtain ⟨transaction, hvalid, rfl, htable⟩ := decode_sound h
  refine ⟨transaction, hvalid, rfl, fun count hlt => ?_, fun hbare more hmore => ?_⟩
  · by_cases haccount : transaction.EndsAccount count
    · obtain ⟨table', htake⟩ := decode_take_of_endsAccount hvalid haccount
      have hdefinition : ¬transaction.EndsInDefinition count := by
        obtain ⟨cosignature, carried, hcontent, -⟩ := haccount
        rintro ⟨definition, hcontent', -⟩
        rw [hcontent] at hcontent'
        cases hcontent'
      simp [htake, haccount, hdefinition]
    · rw [decode_take hvalid h hlt haccount]
      refine ⟨by simp [haccount], ?_, ?_, ?_⟩
      · rw [← shortage_eq_invalidData, Except.error.injEq]
      · rw [← shortage_eq_notEnoughData, Except.error.injEq]
        simp [haccount]
      · intro hmany
        have hcases := shortage_cases transaction count
        rw [Except.error.inj hmany] at hcases
        rcases hcases with hcases | hcases <;> cases hcases
  · exact decode_append hvalid (htable ▸ table.length_le) hbare hmore

/-- A definition of a mosaic with one property, in seventy-six bytes. -/
def defining : Transaction where
  header := { (modifying []).header with typeNumber := 0x4001 }
  content := .action (.mosaicDefinition
    { creator := List.replicate Limits.publicKeyLength 0
      id := ⟨[0x61], [0x62]⟩
      description := []
      properties := [⟨[0x63], [0x64]⟩]
      levy := none
      sink := List.replicate Limits.addressLength 0x41
      rentalFee := 0 })

/-- A cosignature that carries a transaction without modifications. -/
def agreeing : Transaction where
  header := { (modifying []).header with typeNumber := 0x1002 }
  content := .cosigned
    { hash := List.replicate Limits.hashLength 0
      account := List.replicate Limits.addressLength 0x41 }
    [⟨(modifying []).header, .aggregateModification ⟨[], .absent⟩⟩]

theorem defining_wellFormed : defining.WellFormed :=
  ⟨⟨rfl, .inl rfl, rfl⟩, rfl, nofun, by decide, rfl⟩

theorem agreeing_wellFormed : agreeing.WellFormed := by
  refine ⟨⟨rfl, .inl rfl, rfl⟩, ⟨rfl, rfl⟩, List.cons_ne_nil _ _, ?_, by decide⟩
  exact List.forall_mem_singleton.mpr ⟨⟨rfl, .inl rfl, rfl⟩, by decide, nofun, by decide⟩

theorem length_encode_defining : defining.encode.length = 192 := by decide +kernel

theorem length_encode_agreeing : agreeing.encode.length = 212 := by decide +kernel

/-- The definition contradicts data that end before it does, and the cosignature can be cut behind
its account, where it has one hundred and forty-four bytes. -/
theorem decode_self_delimiting_defining_agreeing :
    (∃ table, decode defining.encode = .ok table) ∧ (∃ table, decode agreeing.encode = .ok table) ∧
      decode (defining.encode.take 63) = .error .notEnoughData ∧
      decode (defining.encode.take 139) = .error .invalidData ∧
      decode (defining.encode.take 140) = .error .notEnoughData ∧
      decode (defining.encode ++ [0x00]) = .error .invalidData ∧
      (∃ table, decode (agreeing.encode.take 144) = .ok table) ∧
      decode (agreeing.encode.take 145) = .error .notEnoughData := by
  have hdefining : decode defining.encode = .ok ⟨defining.fields, by decide⟩ := by
    rw [decode_encode defining_wellFormed, FieldTable.ofFields_eq_ok]
  have hagreeing : decode agreeing.encode = .ok ⟨agreeing.fields, by decide⟩ := by
    rw [decode_encode agreeing_wellFormed, FieldTable.ofFields_eq_ok]
  obtain ⟨transaction, hvalid, hencode, hcut, hmore⟩ := decode_self_delimiting hdefining
  obtain rfl := encode_inj hvalid defining_wellFormed hencode
  obtain ⟨transaction', hvalid', hencode', hcut', -⟩ := decode_self_delimiting hagreeing
  obtain rfl := encode_inj hvalid' agreeing_wellFormed hencode'
  rw [length_encode_defining] at hcut
  rw [length_encode_agreeing] at hcut'
  refine ⟨⟨_, hdefining⟩, ⟨_, hagreeing⟩, ?_, ?_, ?_, ?_, ?_, ?_⟩
  · refine (hcut 63 (by decide)).2.2.1.mpr ⟨nofun, ?_⟩
    rintro ⟨_, ⟨⟩, hbehind, -⟩
    exact absurd hbehind (by decide)
  · exact (hcut 139 (by decide)).2.1.mpr ⟨_, rfl, by decide, by decide +kernel⟩
  · refine (hcut 140 (by decide)).2.2.1.mpr ⟨nofun, ?_⟩
    rintro ⟨_, ⟨⟩, -, hinside⟩
    exact absurd hinside (by decide +kernel)
  · exact hmore nofun _ (List.cons_ne_nil _ _)
  · exact (hcut' 144 (by decide)).1.mpr ⟨_, _, rfl, by decide +kernel⟩
  · refine (hcut' 145 (by decide)).2.2.1.mpr ⟨?_, nofun⟩
    rintro ⟨_, _, ⟨⟩, hend⟩
    exact absurd hend (by decide +kernel)

end Transaction

end NemSigner
