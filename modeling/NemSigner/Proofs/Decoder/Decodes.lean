import NemSigner.Proofs.Cursor.Inversion
import NemSigner.Transaction.Decoder

/-!
# Decoders as inverses of written forms

A decoder reads a written form and collects review fields. Two judgements describe it. The first
says what stood in front of the cursor whenever the decoder succeeds; the second says what the
decoder does in front of a given written form, also when the table has no room for all fields.

## Main definitions

- `Decoder.Ensures` — what was read and collected by a decoder that succeeds
- `Decoder.Yields` — what a decoder reads and collects between two positions
- `Decoder.Decodes` — a decoder takes exactly the written forms of valid values and collects their
  fields

## Main statements

- `Decoder.Ensures.bind`, `Decoder.Yields.bind` — the judgements follow the steps of a decoder
- `Decoder.Decodes.times` — a counted loop takes the written forms of lists
- `Decoder.Ensures.run`, `Decoder.Yields.run` — what is decoded from a whole byte string

## Design notes

The second judgement carries the one failure that a well formed input can meet. A table that is too
small stops the decoder at the field it has no room for, so both outcomes are settled together.
-/

namespace NemSigner

namespace FieldTable

/-- The table of some fields, when a table has room for them. -/
def ofFields (fields : List Field) : Except DecodeError FieldTable :=
  if room : fields.length ≤ Limits.maxFieldCount then .ok ⟨fields, room⟩ else .error .tooManyFields

theorem ofFields_eq_ok {fields : List Field} {table : FieldTable} :
    ofFields fields = .ok table ↔ table.toList = fields := by
  rw [ofFields]
  split
  · constructor
    · intro h
      cases h
      rfl
    · rintro rfl
      rfl
  · next hfull =>
    constructor
    · intro h
      cases h
    · rintro rfl
      exact absurd table.length_le hfull

theorem add_eq_ok {table larger : FieldTable} {id : FieldId} {type : DataType} {data : Bytes}
    (h : table.add id type data = .ok larger) :
    larger.toList = table.toList ++ [⟨id, type, data⟩] := by
  simp only [add, Field.make?] at h
  split at h
  · change table.push _ = _ at h
    rw [push] at h
    split at h
    · cases h
      rfl
    · cases h
  · cases h

/-- A field that fits its type is refused only for want of room. -/
theorem add_of_fits (table : FieldTable) {id : FieldId} {type : DataType} {data : Bytes}
    (hfits : (Field.mk id type data).fits = true) :
    table.add id type data = ofFields (table.toList ++ [⟨id, type, data⟩]) := by
  simp only [add, Field.make?, hfits, if_true]
  change table.push _ = _
  simp only [push, ofFields, List.length_append, List.length_singleton]
  rfl

end FieldTable

namespace Decoder

variable {α β : Type} {cursor middle next : Cursor} {table larger : FieldTable}

theorem bind_eq_ok {decoder : Decoder α} {continuation : α → Decoder β} {value : β} :
    (decoder >>= continuation) table cursor = .ok (value, larger) next ↔
      ∃ read between middle, decoder table cursor = .ok (read, between) middle ∧
        continuation read between middle = .ok (value, larger) next := by
  change (decoder table >>= fun pair => continuation pair.1 pair.2 : Cursor.Reading _) cursor = _
    ↔ _
  rw [Cursor.bind_eq_ok]
  constructor
  · rintro ⟨⟨read, between⟩, middle, h, h'⟩
    exact ⟨read, between, middle, h, h'⟩
  · rintro ⟨read, between, middle, h, h'⟩
    exact ⟨(read, between), middle, h, h'⟩

theorem lift_eq_ok {reading : Cursor.Reading α} {value : α} :
    (liftM reading : Decoder α) table cursor = .ok (value, larger) next ↔
      reading cursor = .ok value next ∧ table = larger := by
  change (reading >>= fun value => pure (value, table) : Cursor.Reading _) cursor = _ ↔ _
  simp only [Cursor.bind_eq_ok, Cursor.pure_eq_ok, Prod.mk.injEq]
  constructor
  · rintro ⟨_, _, h, ⟨rfl, rfl⟩, rfl⟩
    exact ⟨h, rfl⟩
  · rintro ⟨h, rfl⟩
    exact ⟨value, next, h, ⟨rfl, rfl⟩, rfl⟩

theorem lift_of_error {reading : Cursor.Reading α} {error : DecodeError}
    (h : reading cursor = .error error next) :
    (liftM reading : Decoder α) table cursor = .error error next := by
  change EStateM.bind reading (fun value => pure (value, table)) cursor = _
  rw [EStateM.bind, h]

theorem emit_eq_ok {id : FieldId} {type : DataType} {data : Bytes} {value : Unit} :
    emit id type data table cursor = .ok (value, larger) next ↔
      table.add id type data = .ok larger ∧ cursor = next := by
  rw [emit]
  cases table.add id type data with
  | ok table' => simp
  | error error => simp

theorem bind_of_ok {decoder : Decoder α} {continuation : α → Decoder β} {value : α}
    (h : decoder table cursor = .ok (value, larger) middle) :
    (decoder >>= continuation) table cursor = continuation value larger middle := by
  change EStateM.bind (decoder table) (fun pair => continuation pair.1 pair.2) cursor = _
  rw [EStateM.bind, h]

theorem bind_of_error {decoder : Decoder α} {continuation : α → Decoder β} {error : DecodeError}
    (h : decoder table cursor = .error error middle) :
    (decoder >>= continuation) table cursor = .error error middle := by
  change EStateM.bind (decoder table) (fun pair => continuation pair.1 pair.2) cursor = _
  rw [EStateM.bind, h]

/-! ### What a successful decoder has read -/

/-- Whenever the decoder succeeds it has read some bytes and collected some fields, and its value,
those bytes and those fields are as stated. -/
def Ensures (decoder : Decoder α) (post : α → Bytes → List Field → Prop) : Prop :=
  ∀ table cursor value larger next, cursor.offset ≤ cursor.length →
    decoder table cursor = .ok (value, larger) next →
    ∃ written fields, cursor.Gives written next ∧ larger.toList = table.toList ++ fields ∧
      post value written fields

section Ensures

variable {post : β → Bytes → List Field → Prop} {continuation : α → Decoder β}

theorem Ensures.mono {decoder : Decoder α} {mid mid' : α → Bytes → List Field → Prop}
    (h : Ensures decoder mid)
    (himp : ∀ value written fields, mid value written fields → mid' value written fields) :
    Ensures decoder mid' := by
  intro table cursor value larger next hinside hrun
  obtain ⟨written, fields, hgives, htable, hmid⟩ := h _ _ _ _ _ hinside hrun
  exact ⟨written, fields, hgives, htable, himp _ _ _ hmid⟩

/-- The bytes and the fields of two steps stand one behind the other. -/
theorem Ensures.bind {decoder : Decoder α} {mid : α → Bytes → List Field → Prop}
    (h : Ensures decoder mid)
    (hnext : ∀ value written fields, mid value written fields →
      Ensures (continuation value) fun result written' fields' =>
        post result (written ++ written') (fields ++ fields')) :
    Ensures (decoder >>= continuation) post := by
  intro table cursor result larger next hinside hrun
  obtain ⟨value, between, middle, hfirst, hsecond⟩ := bind_eq_ok.mp hrun
  obtain ⟨written, fields, hgives, htable, hmid⟩ := h _ _ _ _ _ hinside hfirst
  obtain ⟨written', fields', hgives', htable', hpost⟩ :=
    hnext value written fields hmid _ _ _ _ _ hgives.offset_le hsecond
  refine ⟨written ++ written', fields ++ fields', hgives.trans hgives', ?_, hpost⟩
  rw [htable', htable, List.append_assoc]

theorem Ensures.pure {value : β} (h : post value [] []) : Ensures (pure value) post := by
  intro table cursor value' larger next hinside hrun
  cases hrun
  exact ⟨[], [], .refl hinside, (List.append_nil _).symm, h⟩

theorem Ensures.of_throw {error : DecodeError} : Ensures (throw error) post := by
  intro table cursor value larger next hinside hrun
  cases hrun

theorem Ensures.throw_bind {error : DecodeError} : Ensures (throw error >>= continuation) post := by
  intro table cursor value larger next hinside hrun
  cases hrun

theorem Ensures.read {reading : Cursor.Reading α} {valid : α → Prop} {encode : α → Bytes}
    (hinverts : Cursor.Inverts reading valid encode)
    (h : ∀ value, valid value → Ensures (continuation value) fun result written fields =>
      post result (encode value ++ written) fields) :
    Ensures (liftM reading >>= continuation) post := by
  have hfirst : Ensures (liftM reading) fun value written fields =>
      valid value ∧ written = encode value ∧ fields = [] := by
    intro table cursor value larger next hinside hrun
    obtain ⟨hread, rfl⟩ := lift_eq_ok.mp hrun
    obtain ⟨hvalid, hgives⟩ := (hinverts _ _ _).mp hread
    exact ⟨encode value, [], hgives, (List.append_nil _).symm, hvalid, rfl, rfl⟩
  refine hfirst.bind ?_
  rintro value _ _ ⟨hvalid, rfl, rfl⟩
  exact h value hvalid

/-- A look at the cursor moves nothing. -/
theorem Ensures.look {reading : Cursor.Reading α} {seen : Cursor → α}
    (hlook : ∀ {cursor next : Cursor} {value : α},
      reading cursor = .ok value next ↔ seen cursor = value ∧ cursor = next)
    (h : ∀ value, Ensures (continuation value) post) :
    Ensures (liftM reading >>= continuation) post := by
  intro table cursor result larger next hinside hrun
  obtain ⟨value, between, middle, hfirst, hsecond⟩ := bind_eq_ok.mp hrun
  obtain ⟨hread, rfl⟩ := lift_eq_ok.mp hfirst
  obtain ⟨-, rfl⟩ := hlook.mp hread
  exact h value _ _ _ _ _ hinside hsecond

/-- Reading a nested structure once more moves nothing. -/
theorem Ensures.exactly {data : Bytes} {reading : Cursor.Reading α} {valid : α → Prop}
    {encode : α → Bytes} (hinverts : Cursor.Inverts reading valid encode)
    (h : ∀ value, valid value → encode value = data → Ensures (continuation value) post) :
    Ensures (liftM (Cursor.exactly data reading) >>= continuation) post := by
  intro table cursor result larger next hinside hrun
  obtain ⟨value, between, middle, hfirst, hsecond⟩ := bind_eq_ok.mp hrun
  obtain ⟨hread, rfl⟩ := lift_eq_ok.mp hfirst
  obtain ⟨hvalid, hdata, rfl⟩ := (Cursor.exactly_eq_ok hinverts).mp hread
  exact h value hvalid hdata _ _ _ _ _ hinside hsecond

theorem Ensures.emit_last {id : FieldId} {type : DataType} {data : Bytes}
    {post : Unit → Bytes → List Field → Prop} (h : post () [] [⟨id, type, data⟩]) :
    Ensures (emit id type data) post := by
  intro table cursor value larger next hinside hrun
  obtain ⟨hadd, rfl⟩ := emit_eq_ok.mp hrun
  exact ⟨[], _, .refl hinside, FieldTable.add_eq_ok hadd, h⟩

theorem Ensures.emit {id : FieldId} {type : DataType} {data : Bytes}
    {continuation : Unit → Decoder β}
    (h : Ensures (continuation ()) fun result written fields =>
      post result written (⟨id, type, data⟩ :: fields)) :
    Ensures (emit id type data >>= continuation) post := by
  have hfirst : Ensures (Decoder.emit id type data) fun _ written fields =>
      written = [] ∧ fields = [⟨id, type, data⟩] :=
    .emit_last ⟨rfl, rfl⟩
  refine hfirst.bind ?_
  rintro _ _ _ ⟨rfl, rfl⟩
  exact h

end Ensures

/-! ### What a decoder does in front of a written form -/

/-- Between two positions the decoder gives a value and collects fields; when the table has no room
for all of them it stops with that error. -/
structure Yields (decoder : Decoder α) (cursor next : Cursor) (value : α)
    (fields : List Field) : Prop where
  room : ∀ table larger : FieldTable, larger.toList = table.toList ++ fields →
    decoder table cursor = .ok (value, larger) next
  full : ∀ table : FieldTable, Limits.maxFieldCount < (table.toList ++ fields).length →
    ∃ stopped, decoder table cursor = .error .tooManyFields stopped

section Yields

variable {value : α} {result : β} {fields fields' : List Field} {continuation : α → Decoder β}

theorem Yields.bind {decoder : Decoder α} (h : Yields decoder cursor middle value fields)
    (hnext : Yields (continuation value) middle next result fields') :
    Yields (decoder >>= continuation) cursor next result (fields ++ fields') := by
  constructor
  · intro table larger htable
    have hroom : (table.toList ++ fields).length ≤ Limits.maxFieldCount := by
      have hlarger := larger.length_le
      rw [htable, ← List.append_assoc, List.length_append] at hlarger
      omega
    rw [bind_of_ok (h.room table ⟨_, hroom⟩ rfl)]
    exact hnext.room _ _ (by rw [htable, List.append_assoc])
  · intro table hfull
    -- A table that the first part fills never sees the second.
    by_cases hroom : (table.toList ++ fields).length ≤ Limits.maxFieldCount
    · rw [bind_of_ok (h.room table ⟨_, hroom⟩ rfl)]
      exact hnext.full _ (by rwa [List.append_assoc])
    · obtain ⟨stopped, hstopped⟩ := h.full table (Nat.lt_of_not_le hroom)
      exact ⟨stopped, bind_of_error hstopped⟩

/-- A decoder that succeeds has come to the second position and collected the fields. -/
theorem Yields.of_ok {decoder : Decoder α} {read : α} (h : Yields decoder cursor next value fields)
    (hrun : decoder table cursor = .ok (read, larger) middle) :
    middle = next ∧ larger.toList = table.toList ++ fields := by
  by_cases hroom : (table.toList ++ fields).length ≤ Limits.maxFieldCount
  · rw [h.room table ⟨_, hroom⟩ rfl] at hrun
    cases hrun
    exact ⟨rfl, rfl⟩
  · obtain ⟨stopped, hstopped⟩ := h.full table (Nat.lt_of_not_le hroom)
    rw [hstopped] at hrun
    cases hrun

theorem Yields.pure : Yields (pure value) cursor cursor value [] := by
  constructor
  · intro table larger htable
    rw [List.append_nil] at htable
    rw [FieldTable.ext htable]
    rfl
  · intro table hfull
    rw [List.append_nil] at hfull
    exact absurd table.length_le (Nat.not_le_of_lt hfull)

theorem Yields.lift {reading : Cursor.Reading α} (h : reading cursor = .ok value next) :
    Yields (liftM reading) cursor next value [] := by
  constructor
  · intro table larger htable
    rw [List.append_nil] at htable
    exact lift_eq_ok.mpr ⟨h, FieldTable.ext htable.symm⟩
  · intro table hfull
    rw [List.append_nil] at hfull
    exact absurd table.length_le (Nat.not_le_of_lt hfull)

theorem Yields.read {reading : Cursor.Reading α} (h : reading cursor = .ok value middle)
    (hnext : Yields (continuation value) middle next result fields) :
    Yields (liftM reading >>= continuation) cursor next result fields :=
  (Yields.lift h).bind hnext

theorem Yields.finish (hend : cursor.isExhausted = true) :
    Yields (liftM Cursor.finish) cursor cursor () [] :=
  .lift (Cursor.finish_eq_ok.mpr ⟨hend, rfl⟩)

theorem Yields.emit_last {id : FieldId} {type : DataType} {data : Bytes}
    (hfits : (Field.mk id type data).fits = true) :
    Yields (emit id type data) cursor cursor () [⟨id, type, data⟩] := by
  constructor
  · intro table larger htable
    refine emit_eq_ok.mpr ⟨?_, rfl⟩
    rw [FieldTable.add_of_fits table hfits, FieldTable.ofFields_eq_ok, htable]
  · intro table hfull
    refine ⟨cursor, ?_⟩
    rw [emit, FieldTable.add_of_fits table hfits, FieldTable.ofFields,
      dif_neg (Nat.not_le_of_lt hfull)]

theorem Yields.emit {id : FieldId} {type : DataType} {data : Bytes}
    {continuation : Unit → Decoder β} (hfits : (Field.mk id type data).fits = true)
    (hnext : Yields (continuation ()) cursor next result fields) :
    Yields (emit id type data >>= continuation) cursor next result (⟨id, type, data⟩ :: fields) :=
  (Yields.emit_last hfits).bind hnext

end Yields

/-! ### Nested structures -/

/-- Whenever the decoder succeeds nothing is left to be read. -/
def Exhausts (decoder : Decoder α) : Prop :=
  ∀ table cursor value larger next, decoder table cursor = .ok (value, larger) next →
    next.isExhausted = true

theorem Exhausts.bind {decoder : Decoder α} {continuation : α → Decoder β}
    (h : ∀ value, Exhausts (continuation value)) : Exhausts (decoder >>= continuation) := by
  intro table cursor result larger next hrun
  obtain ⟨value, between, middle, -, hsecond⟩ := bind_eq_ok.mp hrun
  exact h value _ _ _ _ _ hsecond

theorem Exhausts.of_throw {error : DecodeError} : Exhausts (throw error : Decoder α) := by
  intro table cursor value larger next hrun
  cases hrun

/-- A decoder that stops as soon as all has been read leaves nothing. -/
theorem Exhausts.of_atEnd {continuation : Bool → Decoder α} {value : α}
    (hmore : Exhausts (continuation false)) (hstop : continuation true = Pure.pure value) :
    Exhausts (liftM Cursor.atEnd >>= continuation) := by
  intro table cursor result larger next hrun
  obtain ⟨stopped, between, middle, hfirst, hsecond⟩ := bind_eq_ok.mp hrun
  obtain ⟨hlook, rfl⟩ := lift_eq_ok.mp hfirst
  obtain ⟨hend, rfl⟩ := Cursor.atEnd_eq_ok.mp hlook
  cases stopped with
  | false => exact hmore _ _ _ _ _ hsecond
  | true =>
    rw [hstop] at hsecond
    cases hsecond
    exact hend

theorem Exhausts.finish : Exhausts (liftM Cursor.finish : Decoder Unit) := by
  intro table cursor value larger next hrun
  obtain ⟨hfinish, -⟩ := lift_eq_ok.mp hrun
  obtain ⟨hend, rfl⟩ := Cursor.finish_eq_ok.mp hfinish
  exact hend

theorem Ensures.finish {post : Unit → Bytes → List Field → Prop} (h : post () [] []) :
    Ensures (liftM Cursor.finish) post := by
  intro table cursor value larger next hinside hrun
  obtain ⟨hfinish, rfl⟩ := lift_eq_ok.mp hrun
  obtain ⟨-, rfl⟩ := Cursor.finish_eq_ok.mp hfinish
  exact ⟨[], [], .refl hinside, (List.append_nil _).symm, h⟩

/-- A decoder that leaves nothing has read the whole of its bytes. -/
theorem Ensures.of_start {decoder : Decoder α} {post : α → Bytes → List Field → Prop}
    (h : Ensures decoder post) (hend : Exhausts decoder) {data : Bytes} {value : α}
    (hrun : decoder table (Cursor.start data) = .ok (value, larger) next) :
    ∃ fields, larger.toList = table.toList ++ fields ∧ post value data fields := by
  obtain ⟨written, fields, hgives, htable, hpost⟩ := h _ _ _ _ _ (Nat.zero_le _) hrun
  have hdata := Cursor.eq_of_start_gives hgives (hend _ _ _ _ _ hrun)
  exact ⟨fields, htable, hdata ▸ hpost⟩

/-- A nested structure is read as a whole, and the outer cursor stays. -/
theorem Ensures.within {data : Bytes} {inner : Decoder α} {mid : α → Bytes → List Field → Prop}
    (h : Ensures inner mid) (hend : Exhausts inner) :
    Ensures (Decoder.within data inner) fun value written fields =>
      written = [] ∧ mid value data fields := by
  intro table cursor value larger next hinside hrun
  rw [Decoder.within] at hrun
  split at hrun
  · next result final hinner =>
    cases hrun
    obtain ⟨fields, htable, hmid⟩ := h.of_start hend hinner
    exact ⟨[], fields, .refl hinside, htable, rfl, hmid⟩
  · cases hrun

theorem Yields.within {data : Bytes} {inner : Decoder α} {value : α} {fields : List Field}
    {final : Cursor} (h : Yields inner (Cursor.start data) final value fields) (cursor : Cursor) :
    Yields (Decoder.within data inner) cursor cursor value fields := by
  constructor
  · intro table larger htable
    rw [Decoder.within, h.room table larger htable]
  · intro table hfull
    obtain ⟨stopped, hstopped⟩ := h.full table hfull
    exact ⟨cursor, by rw [Decoder.within, hstopped]⟩

/-! ### Decoders of a grammar -/

/-- The decoder takes exactly the written forms of valid values, and collects their fields. -/
structure Decodes (decoder : Decoder Unit) (valid : α → Prop) (encode : α → Bytes)
    (fields : α → List Field) : Prop where
  ensures : Ensures decoder fun _ written collected =>
    ∃ value, valid value ∧ written = encode value ∧ collected = fields value
  yields : ∀ {value}, valid value → ∀ {cursor next : Cursor}, cursor.Gives (encode value) next →
    Yields decoder cursor next () (fields value)

variable {step decoder : Decoder Unit} {valid : α → Prop} {encode : α → Bytes}
  {fields : α → List Field}

/-- After a decoder of a grammar a decoder goes on behind one written form. -/
theorem Ensures.decode {continuation : Unit → Decoder β} {post : β → Bytes → List Field → Prop}
    (hdecodes : Decodes decoder valid encode fields)
    (h : ∀ value, valid value → Ensures (continuation ()) fun result written collected =>
      post result (encode value ++ written) (fields value ++ collected)) :
    Ensures (decoder >>= continuation) post := by
  refine hdecodes.ensures.bind ?_
  rintro _ _ _ ⟨value, hvalid, rfl, rfl⟩
  exact h value hvalid

/-- A step that is taken a number of times takes that many written forms. -/
theorem Decodes.times (h : Decodes step valid encode fields) (count : Nat) :
    Decodes (times count step) (fun values => values.length = count ∧ ∀ value ∈ values, valid value)
      (List.flatMap encode) (List.flatMap fields) := by
  constructor
  · induction count with
    | zero => exact .pure ⟨[], ⟨rfl, by simp⟩, rfl, rfl⟩
    | succ count ih =>
      refine .decode h fun value hvalid => ?_
      refine ih.mono ?_
      rintro _ _ _ ⟨values, ⟨rfl, hvalues⟩, rfl, rfl⟩
      exact ⟨value :: values, ⟨rfl, List.forall_mem_cons.mpr ⟨hvalid, hvalues⟩⟩, rfl, rfl⟩
  · rintro values ⟨rfl, hvalid⟩
    induction values with
    | nil =>
      intro cursor next hgives
      rw [hgives.eq_of_nil]
      exact .pure
    | cons value values ih =>
      intro cursor next hgives
      obtain ⟨hvalue, hvalues⟩ := List.forall_mem_cons.mp hvalid
      obtain ⟨middle, hgives, hgives'⟩ := Cursor.gives_append.mp hgives
      exact (h.yields hvalue hgives).bind (ih hvalues hgives')

/-- A whole byte string is accepted as what its decoder has read of it. -/
theorem Ensures.run {post : Unit → Bytes → List Field → Prop} (h : Ensures decoder post)
    {data : Bytes} (hrun : run decoder data = .ok table) : post () data table.toList := by
  rw [Decoder.run] at hrun
  split at hrun
  · next larger final hok =>
    cases hrun
    have hfinish : Ensures (decoder >>= fun _ => liftM Cursor.finish) post :=
      h.bind fun _ written collected hpost =>
        .finish (by rwa [List.append_nil, List.append_nil])
    obtain ⟨collected, htable, hpost⟩ := hfinish.of_start (.bind fun _ => .finish) hok
    rw [htable]
    exact hpost
  · cases hrun

/-- What a decoder yields between start and end of a byte string is the answer to all of it. -/
theorem Yields.run {data : Bytes} {collected : List Field}
    (h : Yields decoder (Cursor.start data) ⟨data, data.length⟩ () collected) :
    run decoder data = FieldTable.ofFields collected := by
  have hfinish : Yields (decoder >>= fun _ => liftM Cursor.finish) (Cursor.start data)
      ⟨data, data.length⟩ () collected := by
    rw [← List.append_nil collected]
    exact h.bind (.finish (Cursor.end_isExhausted data))
  rw [Decoder.run]
  by_cases hroom : collected.length ≤ Limits.maxFieldCount
  · rw [hfinish.room ∅ ⟨collected, hroom⟩ rfl, FieldTable.ofFields, dif_pos hroom]
  · obtain ⟨stopped, hstopped⟩ := hfinish.full ∅ (Nat.lt_of_not_le hroom)
    rw [hstopped, FieldTable.ofFields, dif_neg hroom]

/-- Bytes that are left behind what a decoder yields make it all invalid. -/
theorem Yields.run_of_more {data : Bytes} {collected : List Field}
    (h : Yields decoder (Cursor.start data) next () collected)
    (hroom : collected.length ≤ Limits.maxFieldCount) (hmore : next.isExhausted = false) :
    Decoder.run decoder data = .error .invalidData := by
  rw [Decoder.run, bind_of_ok (h.room ∅ ⟨collected, hroom⟩ rfl),
    lift_of_error (Cursor.finish_of_more hmore)]

end Decoder

end NemSigner
