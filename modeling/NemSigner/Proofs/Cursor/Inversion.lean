import NemSigner.Cursor.Structure
import NemSigner.Proofs.Bytes.Written

/-!
# Readings as inverses of written forms

A reading that does not ask where the data ends is described by two things: which values it can
give, and how each of them is written. It succeeds exactly where the written form of such a value
stands, and it moves the cursor behind it.

## Main definitions

- `Cursor.Gives` — a cursor gives up bytes and becomes another cursor
- `Cursor.Inverts` — a reading takes exactly the written forms of the valid values

## Main statements

- `Cursor.readPrefixed_inverts`, … — the readings of the wire format invert their written forms
- `Cursor.exactly_eq_ok` — a nested structure is read when it is one written form and nothing more
-/

namespace NemSigner

namespace Cursor

variable {α β : Type} {cursor middle next : Cursor} {first second written data : Bytes}

/-- A cursor gives up bytes: they stand where it stands, and it moves just behind them. -/
structure Gives (cursor : Cursor) (written : Bytes) (next : Cursor) : Prop where
  data_eq : next.data = cursor.data
  offset_eq : next.offset = cursor.offset + written.length
  rest_eq : cursor.rest = written ++ next.rest
  offset_le : next.offset ≤ next.length

/-- A cursor that stands within its bytes gives up none and stays. -/
theorem Gives.refl (h : cursor.offset ≤ cursor.length) : cursor.Gives [] cursor :=
  ⟨rfl, rfl, rfl, h⟩

theorem Gives.trans (h : cursor.Gives first middle) (h' : middle.Gives second next) :
    cursor.Gives (first ++ second) next := by
  refine ⟨h'.data_eq.trans h.data_eq, ?_, ?_, h'.offset_le⟩
  · rw [h'.offset_eq, h.offset_eq, List.length_append, Nat.add_assoc]
  · rw [h.rest_eq, h'.rest_eq, List.append_assoc]

/-- Bytes are given up in two parts exactly when they are given up as a whole. -/
theorem gives_append :
    cursor.Gives (first ++ second) next ↔
      ∃ middle, cursor.Gives first middle ∧ middle.Gives second next := by
  constructor
  · intro h
    have hlength : next.data.length = cursor.data.length := congrArg List.length h.data_eq
    have hoffset := h.offset_eq
    have hle : next.offset ≤ next.data.length := h.offset_le
    rw [List.length_append] at hoffset
    have hrest : cursor.data.drop (cursor.offset + first.length) = second ++ next.rest := by
      rw [← List.drop_drop, show cursor.data.drop cursor.offset = _ from h.rest_eq,
        List.append_assoc, List.drop_left]
    refine ⟨⟨cursor.data, cursor.offset + first.length⟩, ⟨rfl, rfl, ?_, ?_⟩, h.data_eq, ?_, hrest,
      h.offset_le⟩
    · change cursor.rest = first ++ cursor.data.drop (cursor.offset + first.length)
      rw [hrest, h.rest_eq, List.append_assoc]
    · simp only [length]
      omega
    · simp only [hoffset, Nat.add_assoc]
  · rintro ⟨middle, h, h'⟩
    exact h.trans h'

/-- Where a cursor moves is fixed by what it gives up. -/
theorem Gives.unique {next' : Cursor} (h : cursor.Gives written next)
    (h' : cursor.Gives written next') : next = next' := by
  cases next
  cases next'
  have hdata := h.data_eq.trans h'.data_eq.symm
  have hoffset := h.offset_eq.trans h'.offset_eq.symm
  simp only at hdata hoffset
  rw [hdata, hoffset]

theorem Gives.eq_of_nil (h : cursor.Gives [] next) : cursor = next := by
  have hle : cursor.offset ≤ cursor.length := by
    have hnext := h.offset_le
    rwa [h.offset_eq, length, h.data_eq] at hnext
  exact (Gives.refl hle).unique h

/-- From the start a cursor gives up all its bytes. -/
theorem start_gives (data : Bytes) : (start data).Gives data ⟨data, data.length⟩ := by
  refine ⟨rfl, (Nat.zero_add _).symm, ?_, Nat.le_refl _⟩
  simp [rest, start]

theorem isExhausted_iff (h : cursor.offset ≤ cursor.length) :
    cursor.isExhausted = true ↔ cursor.rest = [] := by
  simp only [isExhausted, remaining, length, beq_iff_eq, rest, List.drop_eq_nil_iff] at h ⊢
  omega

/-- Behind the last byte nothing is left. -/
theorem end_isExhausted (data : Bytes) : (Cursor.mk data data.length).isExhausted = true := by
  simp [isExhausted, remaining, length]

/-- What is given up from the start until nothing is left is all there is. -/
theorem eq_of_start_gives (h : (start data).Gives written next) (hend : next.isExhausted = true) :
    written = data := by
  have hrest := h.rest_eq
  rw [(isExhausted_iff h.offset_le).mp hend, List.append_nil] at hrest
  exact hrest.symm

/-! ### Readings -/

theorem bind_eq_ok {reading : Reading α} {continuation : α → Reading β} {value : β} :
    (reading >>= continuation) cursor = .ok value next ↔
      ∃ read middle, reading cursor = .ok read middle ∧
        continuation read middle = .ok value next := by
  change EStateM.bind reading continuation cursor = _ ↔ _
  rw [EStateM.bind]
  cases reading cursor with
  | ok read middle =>
    constructor
    · intro h
      exact ⟨read, middle, rfl, h⟩
    · rintro ⟨_, _, hread, h⟩
      cases hread
      exact h
  | error error stopped => simp

theorem pure_eq_ok {value value' : α} :
    (pure value : Reading α) cursor = .ok value' next ↔ value = value' ∧ cursor = next := by
  change EStateM.Result.ok value cursor = _ ↔ _
  simp

/-- Behind an error nothing is read. -/
theorem throw_bind_ne_ok {error : DecodeError} {continuation : α → Reading β} {value : β} :
    (throw error >>= continuation) cursor ≠ .ok value next := by
  intro h
  cases h

/-- A reading takes exactly the written forms of the valid values. -/
def Inverts (reading : Reading α) (valid : α → Prop) (encode : α → Bytes) : Prop :=
  ∀ cursor value next,
    reading cursor = .ok value next ↔ valid value ∧ cursor.Gives (encode value) next

/-- What is read first is known by its written form, and the rest goes on behind it. -/
theorem Inverts.bind_iff {reading : Reading α} {valid : α → Prop} {encode : α → Bytes}
    (h : Inverts reading valid encode) {continuation : α → Reading β} {value : β} :
    (reading >>= continuation) cursor = .ok value next ↔
      ∃ read middle, (valid read ∧ cursor.Gives (encode read) middle) ∧
        continuation read middle = .ok value next := by
  simp only [Cursor.bind_eq_ok, h _ _ _]

/-- A written form is read from the front of a byte string, whatever stands behind it. -/
theorem Inverts.readAll_encode {reading : Reading α} {valid : α → Prop} {encode : α → Bytes}
    (h : Inverts reading valid encode) {value : α} (hvalid : valid value) (rest : Bytes) :
    readAll reading (encode value ++ rest) = .ok value := by
  obtain ⟨middle, hgives, -⟩ := gives_append.mp (start_gives (encode value ++ rest))
  rw [readAll, (h _ _ _).mpr ⟨hvalid, hgives⟩]

theorem hasData_iff {count : Nat} :
    cursor.hasData count = true ↔ cursor.offset + count ≤ cursor.data.length :=
  decide_eq_true_iff

theorem Gives.hasData (h : cursor.Gives written next) : cursor.hasData written.length = true := by
  have hle := h.offset_le
  rw [length, h.data_eq, h.offset_eq] at hle
  exact hasData_iff.mpr hle

/-- A cursor that gives up something was not at its end, and it moves. -/
theorem Gives.moves (h : cursor.Gives written next) (hwritten : written ≠ []) :
    cursor.isExhausted = false ∧ next.offset ≠ cursor.offset := by
  have hpos := List.length_pos_iff.mpr hwritten
  have hoffset := h.offset_eq
  have hle := h.offset_le
  rw [length, h.data_eq] at hle
  constructor
  · simp only [isExhausted, remaining, length, beq_eq_false_iff_ne]
    omega
  · omega

/-- Written forms that are read back can be told from what is written behind them. -/
theorem Inverts.append_inj {reading : Reading α} {valid : α → Prop} {encode : α → Bytes}
    (h : Inverts reading valid encode) {value value' : α} {rest rest' : Bytes}
    (hvalid : valid value) (hvalid' : valid value')
    (heq : encode value ++ rest = encode value' ++ rest') : value = value' ∧ rest = rest' := by
  obtain ⟨middle, hgives, hrest⟩ := gives_append.mp (start_gives (encode value ++ rest))
  obtain ⟨middle', hgives', hrest'⟩ := gives_append.mp (start_gives (encode value' ++ rest'))
  rw [← heq] at hgives'
  have hread := (h _ _ _).mpr ⟨hvalid, hgives⟩
  rw [(h _ _ _).mpr ⟨hvalid', hgives'⟩] at hread
  cases hread
  exact ⟨rfl, List.append_cancel_left heq⟩

theorem readBytes_inverts (count : Nat) :
    Inverts (readBytes count) (fun data => data.length = count) id := by
  intro cursor data next
  rw [readBytes]
  split
  · next hroom =>
    rw [hasData_iff] at hroom
    have hlength : (cursor.rest.take count).length = count := by
      rw [rest, List.length_take, List.length_drop]
      omega
    have hgives : cursor.Gives (cursor.rest.take count)
        ⟨cursor.data, cursor.offset + count⟩ := by
      refine ⟨rfl, by rw [hlength], ?_, hroom⟩
      rw [rest, rest, ← List.drop_drop, List.take_append_drop]
    constructor
    · intro h
      cases h
      exact ⟨hlength, hgives⟩
    · rintro ⟨hcount, h⟩
      have hdata : cursor.rest.take count = data := by
        rw [h.rest_eq, ← hcount]
        exact List.take_left
      rw [hdata] at hgives ⊢
      rw [hgives.unique h]
  · next hroom =>
    rw [hasData_iff] at hroom
    constructor
    · intro h
      cases h
    · rintro ⟨hcount, h⟩
      have hoffset := h.offset_eq
      have hle := h.offset_le
      rw [length, h.data_eq] at hle
      simp only [id] at hoffset
      omega

theorem readUInt_inverts (width : Nat) :
    Inverts (readUInt width) (fun n => n < Bytes.bound width) (Bytes.ofNatLE width) := by
  intro cursor n next
  simp only [readUInt, bind_eq_ok, pure_eq_ok]
  constructor
  · rintro ⟨data, middle, hread, rfl, rfl⟩
    obtain ⟨hlength, hgives⟩ := (readBytes_inverts width _ _ _).mp hread
    refine ⟨hlength ▸ Bytes.toNatLE_lt data, ?_⟩
    rwa [Bytes.ofNatLE_toNatLE_of_length hlength]
  · rintro ⟨hlt, hgives⟩
    refine ⟨Bytes.ofNatLE width n, next, ?_, Bytes.toNatLE_ofNatLE_of_lt hlt, rfl⟩
    exact (readBytes_inverts width _ _ _).mpr ⟨Bytes.length_ofNatLE width n, hgives⟩

theorem readLength_inverts :
    Inverts readLength (fun n => n < UInt32.size) (Bytes.ofNatLE 4) :=
  readUInt_inverts 4

/-- A declared length and the bytes behind it are read when the declared length is theirs. -/
theorem length_then_bytes {length : Nat} :
    (∃ middle, readLength cursor = .ok length middle ∧
      readBytes length middle = .ok data next) ↔
    data.length = length ∧ length < UInt32.size ∧ cursor.Gives (Bytes.prefixed data) next := by
  constructor
  · rintro ⟨middle, hlength, hbytes⟩
    obtain ⟨hlt, hgives⟩ := (readLength_inverts _ _ _).mp hlength
    obtain ⟨rfl, hgives'⟩ := (readBytes_inverts _ _ _ _).mp hbytes
    exact ⟨rfl, hlt, hgives.trans hgives'⟩
  · rintro ⟨rfl, hlt, hgives⟩
    obtain ⟨middle, hgives, hgives'⟩ := gives_append.mp hgives
    exact ⟨middle, (readLength_inverts _ _ _).mpr ⟨hlt, hgives⟩,
      (readBytes_inverts _ _ _ _).mpr ⟨rfl, hgives'⟩⟩

theorem readPrefixed_inverts :
    Inverts readPrefixed (fun data => data.length < UInt32.size) Bytes.prefixed := by
  intro cursor data next
  simp only [readPrefixed, bind_eq_ok, length_then_bytes]
  constructor
  · rintro ⟨length, rfl, h⟩
    exact h
  · intro h
    exact ⟨data.length, rfl, h⟩

/-- A part that has to be shorter than a limit. -/
theorem readNested_inverts (limit : Nat) :
    Inverts (readNested limit) (fun data => data.length < limit ∧ data.length < UInt32.size)
      Bytes.prefixed := by
  intro cursor data next
  simp only [readNested, bind_eq_ok]
  constructor
  · rintro ⟨length, middle, hlength, h⟩
    split at h
    · exact absurd h throw_bind_ne_ok
    · next hlimit =>
      obtain ⟨rfl, hlt, hgives⟩ := length_then_bytes.mp ⟨middle, hlength, h⟩
      exact ⟨⟨Nat.lt_of_not_le hlimit, hlt⟩, hgives⟩
  · rintro ⟨⟨hlimit, hlt⟩, hgives⟩
    obtain ⟨middle, hlength, hbytes⟩ := length_then_bytes.mpr ⟨rfl, hlt, hgives⟩
    refine ⟨data.length, middle, hlength, ?_⟩
    rwa [if_neg (Nat.not_le_of_lt hlimit)]

/-- A part that has to be of a given length. -/
theorem readSized_inverts {count : Nat} (hcount : count < UInt32.size) :
    Inverts (readSized count) (fun data => data.length = count) Bytes.prefixed := by
  intro cursor data next
  simp only [readSized, bind_eq_ok]
  constructor
  · rintro ⟨length, middle, hlength, h⟩
    split at h
    · exact absurd h throw_bind_ne_ok
    · next hsame =>
      rw [Decidable.not_not.mp hsame] at hlength
      obtain ⟨hdata, -, hgives⟩ := length_then_bytes.mp ⟨middle, hlength, h⟩
      exact ⟨hdata, hgives⟩
  · rintro ⟨rfl, hgives⟩
    obtain ⟨middle, hlength, hbytes⟩ := length_then_bytes.mpr ⟨rfl, hcount, hgives⟩
    refine ⟨data.length, middle, hlength, ?_⟩
    rwa [if_neg (by simp)]

/-- Two readings one after the other take two written forms one behind the other. -/
theorem Inverts.pair {reading : Reading α} {reading' : Reading β} {valid : α → Prop}
    {valid' : β → Prop} {encode : α → Bytes} {encode' : β → Bytes}
    (h : Inverts reading valid encode) (h' : Inverts reading' valid' encode') :
    Inverts (do let value ← reading; let value' ← reading'; return (value, value'))
      (fun values => valid values.1 ∧ valid' values.2)
      (fun values => encode values.1 ++ encode' values.2) := by
  intro cursor values next
  obtain ⟨value, value'⟩ := values
  simp only [bind_eq_ok, pure_eq_ok, Prod.mk.injEq]
  constructor
  · rintro ⟨_, middle, hfirst, _, _, hsecond, ⟨rfl, rfl⟩, rfl⟩
    obtain ⟨hvalid, hgives⟩ := (h _ _ _).mp hfirst
    obtain ⟨hvalid', hgives'⟩ := (h' _ _ _).mp hsecond
    exact ⟨⟨hvalid, hvalid'⟩, hgives.trans hgives'⟩
  · rintro ⟨⟨hvalid, hvalid'⟩, hgives⟩
    obtain ⟨middle, hgives, hgives'⟩ := gives_append.mp hgives
    exact ⟨value, middle, (h _ _ _).mpr ⟨hvalid, hgives⟩, value', next,
      (h' _ _ _).mpr ⟨hvalid', hgives'⟩, ⟨rfl, rfl⟩, rfl⟩

theorem readNames_inverts :
    Inverts readNames
      (fun names => names.1.length < UInt32.size ∧ names.2.length < UInt32.size)
      (fun names => Bytes.prefixed names.1 ++ Bytes.prefixed names.2) :=
  readPrefixed_inverts.pair readPrefixed_inverts

theorem finish_eq_ok {value : Unit} :
    finish cursor = .ok value next ↔ cursor.isExhausted = true ∧ cursor = next := by
  rw [finish]
  split
  · next h => simp [h]
  · next h => simp [h]

theorem finish_of_more (h : cursor.isExhausted = false) :
    finish cursor = .error .invalidData cursor := by
  rw [finish, h]
  rfl

theorem canRead_eq_ok {count : Nat} {value : Bool} :
    canRead count cursor = .ok value next ↔ cursor.hasData count = value ∧ cursor = next := by
  change EStateM.Result.ok (cursor.hasData count) cursor = _ ↔ _
  simp

theorem atEnd_eq_ok {value : Bool} :
    atEnd cursor = .ok value next ↔ cursor.isExhausted = value ∧ cursor = next := by
  change EStateM.Result.ok cursor.isExhausted cursor = _ ↔ _
  simp

theorem position_eq_ok {value : Nat} :
    position cursor = .ok value next ↔ cursor.offset = value ∧ cursor = next := by
  change EStateM.Result.ok cursor.offset cursor = _ ↔ _
  simp

/-- A nested structure is read when its bytes are one written form and nothing more. -/
theorem exactly_eq_ok {reading : Reading α} {valid : α → Prop} {encode : α → Bytes}
    (h : Inverts reading valid encode) {value : α} :
    exactly data reading cursor = .ok value next ↔
      valid value ∧ encode value = data ∧ cursor = next := by
  have hinner : (∃ final, (do let value ← reading; finish; return value : Reading α) (start data) =
      .ok value final) ↔ valid value ∧ encode value = data := by
    simp only [bind_eq_ok, pure_eq_ok, finish_eq_ok]
    constructor
    · rintro ⟨_, _, _, hread, _, _, ⟨hend, rfl⟩, rfl, rfl⟩
      obtain ⟨hvalid, hgives⟩ := (h _ _ _).mp hread
      exact ⟨hvalid, eq_of_start_gives hgives hend⟩
    · rintro ⟨hvalid, rfl⟩
      have hread := (h _ _ _).mpr ⟨hvalid, start_gives (encode value)⟩
      exact ⟨_, value, _, hread, (), _, ⟨end_isExhausted _, rfl⟩, rfl, rfl⟩
  rw [← and_assoc, ← hinner, exactly]
  cases (do let value ← reading; finish; return value : Reading α) (start data) with
  | ok read final => simp
  | error error stopped => simp

/-- The written form of a value is read as that value. -/
theorem exactly_encode {reading : Reading α} {valid : α → Prop} {encode : α → Bytes}
    (h : Inverts reading valid encode) (value : α) (hvalid : valid value) (cursor : Cursor) :
    exactly (encode value) reading cursor = .ok value cursor :=
  (exactly_eq_ok h).mpr ⟨hvalid, rfl, rfl⟩

theorem readNestedNames_eq_ok {names : Bytes × Bytes} :
    readNestedNames data cursor = .ok names next ↔
      ((names.1.length < data.length ∧ names.1.length < UInt32.size) ∧
        names.2.length < data.length ∧ names.2.length < UInt32.size) ∧
      Bytes.prefixed names.1 ++ Bytes.prefixed names.2 = data ∧ cursor = next :=
  exactly_eq_ok ((readNested_inverts data.length).pair (readNested_inverts data.length))

end Cursor

end NemSigner
