import NemSigner.Proofs.Decoder.Decodes

/-!
# Decoders that do not ask where the bytes end

Most steps of a decoder take the bytes in front of them and never ask what comes later. Where such a
step succeeds, it does the same on bytes that are cut anywhere behind what it takes, and on bytes
that are cut before that it stops for want of bytes.

## Main definitions

- `Cursor.cut` — a cursor over the first bytes of its data only
- `Cursor.Streams`, `Decoder.Streams` — a reading or a decoder that does not ask where the bytes end

## Main statements

- `Cursor.Streams.bind`, `Decoder.Streams.bind` — the judgement follows the steps
- `Decoder.Streams.times` — and the turns of a counted loop
- `Decoder.Streams.bind_cut`, `Decoder.Streams.stops` — what the decoder does on cut bytes
-/

namespace NemSigner

namespace Cursor

variable {α β : Type} {cursor middle next : Cursor}

/-- The cursor over the first bytes of its data only. -/
def cut (cursor : Cursor) (count : Nat) : Cursor :=
  { cursor with data := cursor.data.take count }

/-- Where the reading succeeds it moves on, it succeeds as well when the bytes are cut behind what
it has read, and it misses bytes when they are cut before that. -/
structure Streams (reading : Reading α) : Prop where
  advances : ∀ {cursor value next}, reading cursor = .ok value next → cursor.offset ≤ next.offset
  of_cut : ∀ {cursor value next}, reading cursor = .ok value next → ∀ {count},
    next.offset ≤ count → reading (cursor.cut count) = .ok value (next.cut count)
  starves : ∀ {cursor value next}, reading cursor = .ok value next → ∀ {count},
    cursor.offset ≤ count → count < next.offset →
      ∃ stopped, reading (cursor.cut count) = .error .notEnoughData stopped

theorem bind_of_ok {reading : Reading α} {continuation : α → Reading β} {value : α}
    (h : reading cursor = .ok value middle) :
    (reading >>= continuation) cursor = continuation value middle := by
  change EStateM.bind reading continuation cursor = _
  rw [EStateM.bind, h]

theorem bind_of_error {reading : Reading α} {continuation : α → Reading β} {error : DecodeError}
    (h : reading cursor = .error error middle) :
    (reading >>= continuation) cursor = .error error middle := by
  change EStateM.bind reading continuation cursor = _
  rw [EStateM.bind, h]

/-- A step that leaves the cursor where it is and never looks at it. -/
theorem Streams.of_still {reading : Reading α}
    (h : ∀ {cursor value next}, reading cursor = .ok value next →
      cursor = next ∧ ∀ other, reading other = .ok value other) :
    Streams reading where
  advances hrun := by
    obtain ⟨rfl, -⟩ := h hrun
    exact Nat.le_refl _
  of_cut hrun _ _ := by
    obtain ⟨rfl, hother⟩ := h hrun
    exact hother _
  starves hrun _ hle hlt := by
    obtain ⟨rfl, -⟩ := h hrun
    exact absurd hlt (Nat.not_lt_of_le hle)

theorem Streams.pure (value : α) : Streams (Pure.pure value) :=
  .of_still fun hrun => by
    obtain ⟨rfl, rfl⟩ := pure_eq_ok.mp hrun
    exact ⟨rfl, fun _ => rfl⟩

theorem Streams.throw_bind {error : DecodeError} {continuation : α → Reading β} :
    Streams (throw error >>= continuation) :=
  .of_still fun hrun => absurd hrun throw_bind_ne_ok

/-- The second of two steps is cut where the first has gone on, or the first is cut already. -/
theorem Streams.bind {reading : Reading α} {continuation : α → Reading β} (h : Streams reading)
    (hnext : ∀ value, Streams (continuation value)) : Streams (reading >>= continuation) where
  advances hrun := by
    obtain ⟨value, middle, hfirst, hsecond⟩ := bind_eq_ok.mp hrun
    exact Nat.le_trans (h.advances hfirst) ((hnext value).advances hsecond)
  of_cut hrun _ hle := by
    obtain ⟨value, middle, hfirst, hsecond⟩ := bind_eq_ok.mp hrun
    have hmiddle := Nat.le_trans ((hnext value).advances hsecond) hle
    rw [bind_of_ok (h.of_cut hfirst hmiddle)]
    exact (hnext value).of_cut hsecond hle
  starves {_ _ _} hrun count hle hlt := by
    obtain ⟨value, middle, hfirst, hsecond⟩ := bind_eq_ok.mp hrun
    by_cases hmiddle : middle.offset ≤ count
    · rw [bind_of_ok (h.of_cut hfirst hmiddle)]
      exact (hnext value).starves hsecond hmiddle hlt
    · obtain ⟨stopped, hstopped⟩ := h.starves hfirst hle (Nat.lt_of_not_le hmiddle)
      exact ⟨stopped, bind_of_error hstopped⟩

/-! ### The readings of the wire format -/

theorem readBytes_eq_ok {count : Nat} {data : Bytes} :
    readBytes count cursor = .ok data next ↔
      cursor.offset + count ≤ cursor.length ∧ cursor.rest.take count = data ∧
        (⟨cursor.data, cursor.offset + count⟩ : Cursor) = next := by
  rw [readBytes]
  split
  · next hroom => simp [length, hasData_iff.mp hroom]
  · next hroom =>
    rw [hasData_iff] at hroom
    simp [length, hroom]

theorem length_cut (cursor : Cursor) (count : Nat) :
    (cursor.cut count).length = min count cursor.length :=
  List.length_take

/-- What is left of cut bytes is what was left, cut. -/
theorem rest_cut (cursor : Cursor) (count : Nat) :
    (cursor.cut count).rest = cursor.rest.take (count - cursor.offset) := by
  rw [rest, rest, cut, List.drop_take]

/-- A cursor that has bytes left is not at the end of more bytes than it has read. -/
theorem isExhausted_cut {count : Nat} (hmore : cursor.isExhausted = false)
    (hlt : cursor.offset < count) : (cursor.cut count).isExhausted = false := by
  simp only [isExhausted, remaining, length_cut, beq_eq_false_iff_ne] at hmore ⊢
  simp only [cut]
  omega

theorem readBytes_streams (count : Nat) : Streams (readBytes count) where
  advances hrun := by
    obtain ⟨-, -, rfl⟩ := readBytes_eq_ok.mp hrun
    exact Nat.le_add_right _ _
  of_cut {cursor _ _} hrun limit hle := by
    obtain ⟨hroom, rfl, rfl⟩ := readBytes_eq_ok.mp hrun
    refine readBytes_eq_ok.mpr ⟨?_, ?_, rfl⟩
    · rw [length_cut]
      exact Nat.le_min.mpr ⟨hle, hroom⟩
    · have hinside : count ≤ limit - cursor.offset := Nat.le_sub_of_add_le' hle
      rw [rest_cut, List.take_take, Nat.min_eq_left hinside]
  starves {cursor _ _} hrun limit _ hlt := by
    obtain ⟨-, -, rfl⟩ := readBytes_eq_ok.mp hrun
    refine ⟨cursor.cut limit, ?_⟩
    rw [readBytes, if_neg]
    rw [hasData_iff]
    have hshort : (cursor.cut limit).data.length ≤ limit := List.length_take_le _ _
    exact Nat.not_le_of_lt (Nat.lt_of_le_of_lt hshort hlt)

theorem readUInt_streams (width : Nat) : Streams (readUInt width) :=
  (readBytes_streams width).bind fun _ => .pure _

theorem readLength_streams : Streams readLength :=
  readUInt_streams 4

theorem readPrefixed_streams : Streams readPrefixed :=
  readLength_streams.bind readBytes_streams

theorem readSized_streams (count : Nat) : Streams (readSized count) := by
  refine readLength_streams.bind fun length => ?_
  split
  · exact .throw_bind
  · exact readBytes_streams count

/-- A nested structure is read from bytes that have been given up already. -/
theorem exactly_streams (data : Bytes) (reading : Reading α) : Streams (exactly data reading) := by
  refine .of_still fun hrun => ?_
  rw [exactly] at hrun
  split at hrun
  · next hinner =>
    cases hrun
    refine ⟨rfl, fun other => ?_⟩
    rw [exactly, hinner]
  · cases hrun

end Cursor

namespace Decoder

variable {α β : Type} {cursor middle next : Cursor} {table between larger : FieldTable}
  {decoder : Decoder α} {continuation : α → Decoder β}

/-- The decoder does not ask where the bytes end, whatever has been collected before. -/
def Streams (decoder : Decoder α) : Prop :=
  ∀ table, Cursor.Streams (decoder table)

theorem Streams.bind (h : Streams decoder) (hnext : ∀ value, Streams (continuation value)) :
    Streams (decoder >>= continuation) :=
  fun table => (h table).bind fun pair => hnext pair.1 pair.2

theorem Streams.pure (value : α) : Streams (Pure.pure value) :=
  fun table => Cursor.Streams.pure (value, table)

theorem Streams.of_throw {error : DecodeError} : Streams (throw error : Decoder α) :=
  fun _ => .of_still fun hrun => by cases hrun

theorem Streams.throw_bind {error : DecodeError} : Streams (throw error >>= continuation) :=
  fun _ => .of_still fun hrun => by cases hrun

theorem Streams.lift {reading : Cursor.Reading α} (h : Cursor.Streams reading) :
    Streams (liftM reading) :=
  fun table => h.bind fun value => .pure (value, table)

theorem Streams.read {reading : Cursor.Reading α} (h : Cursor.Streams reading)
    (hnext : ∀ value, Streams (continuation value)) : Streams (liftM reading >>= continuation) :=
  (Streams.lift h).bind hnext

theorem emit_streams (id : FieldId) (type : DataType) (data : Bytes) :
    Streams (emit id type data) := by
  refine fun table => .of_still fun hrun => ?_
  rw [emit] at hrun
  split at hrun
  · next hadd =>
    cases hrun
    refine ⟨rfl, fun other => ?_⟩
    rw [emit, hadd]
  · cases hrun

theorem Streams.emit {id : FieldId} {type : DataType} {data : Bytes}
    {continuation : Unit → Decoder β} (h : Streams (continuation ())) :
    Streams (emit id type data >>= continuation) :=
  (emit_streams id type data).bind fun _ => h

/-- The inner decoder has a cursor of its own, so the outer bytes can be cut behind it. -/
theorem within_streams (data : Bytes) (inner : Decoder α) : Streams (within data inner) := by
  refine fun table => .of_still fun hrun => ?_
  rw [within] at hrun
  split at hrun
  · next hinner =>
    cases hrun
    refine ⟨rfl, fun other => ?_⟩
    rw [within, hinner]
  · cases hrun

theorem Streams.times {step : Decoder Unit} (h : Streams step) (count : Nat) :
    Streams (times count step) := by
  induction count with
  | zero => exact .pure ()
  | succ count ih => exact h.bind fun _ => ih

/-! ### What follows a step, on cut bytes -/

/-- The decoder stops with an error. -/
def Stops (decoder : Decoder α) (table : FieldTable) (cursor : Cursor) (error : DecodeError) :
    Prop :=
  ∃ stopped, decoder table cursor = .error error stopped

theorem Stops.bind {error : DecodeError} (h : Stops decoder table cursor error) :
    Stops (decoder >>= continuation) table cursor error := by
  obtain ⟨stopped, hstopped⟩ := h
  exact ⟨stopped, bind_of_error hstopped⟩

/-- A byte string at which the decoder stops is refused for the same reason. -/
theorem Stops.run {decoder : Decoder Unit} {data : Bytes} {error : DecodeError}
    (h : Stops decoder ∅ (Cursor.start data) error) : run decoder data = .error error := by
  have hfinish : Stops (decoder >>= fun _ => liftM Cursor.finish) ∅ (Cursor.start data) error :=
    h.bind
  obtain ⟨stopped, hstopped⟩ := hfinish
  rw [Decoder.run, hstopped]

theorem Streams.stops (h : Streams decoder) {value : α}
    (hrun : decoder table cursor = .ok (value, larger) next) {count : Nat}
    (hle : cursor.offset ≤ count) (hlt : count < next.offset) :
    Stops decoder table (cursor.cut count) .notEnoughData :=
  (h table).starves hrun hle hlt

theorem Streams.bind_cut (h : Streams decoder) {value : α}
    (hrun : decoder table cursor = .ok (value, between) middle) {count : Nat}
    (hle : middle.offset ≤ count) :
    (decoder >>= continuation) table (cursor.cut count) =
      continuation value between (middle.cut count) :=
  bind_of_ok ((h table).of_cut hrun hle)

end Decoder

end NemSigner
