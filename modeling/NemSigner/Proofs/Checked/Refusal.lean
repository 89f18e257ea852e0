import NemSigner.Proofs.Checked.Cursor

/-!
# Reads that are refused

A read takes one part of the bytes or none, so it cannot fail half-way. The one exception takes two
parts, a length and as many bytes: it can fail when the length has been read, and then the length
stays read.

## Main definitions

- `Read` — the reads that a cursor is asked for
- `Read.run`, `Read.perform` — a read as it is run, and as a device performs it
- `Read.Outcome` — what a read can come to
- `WordCursor.Follows` — a reading of a device does what a reading of the cursor that is held does

## Main statements

- `Read.perform_outcome` — every read comes to one of the outcomes, and positions are never out of
  range
- `Read.perform_follows` — a device reads what the cursor that it holds reads
- `Read.refused_unmoved` — a read that fails leaves the cursor as it was, unless the length in front
  of the bytes has been read
- `Read.refused_moved` — so not every read that fails leaves the cursor as it was
-/

namespace NemSigner

/-- What is read: a part of the bytes, a number, or a cursor over a part. -/
inductive Yield (Part Inner : Type)
  | part (part : Part)
  | number (n : Nat)
  | inner (cursor : Inner)
  deriving DecidableEq, Repr

def Yield.map {Part Inner Part' Inner' : Type} (f : Part → Part') (g : Inner → Inner') :
    Yield Part Inner → Yield Part' Inner'
  | .part bytes => .part (f bytes)
  | .number n => .number n
  | .inner cursor => .inner (g cursor)

/-- What a cursor can be asked for. An array of `count` bytes is asked for with its size, an integer
with its width. -/
inductive Read
  | bytes (count : UInt64)
  | array (count : UInt64)
  | integer (width : UInt64)
  | length
  | prefixed
  | split (count : UInt64)
  deriving DecidableEq, Repr

namespace WordCursor

variable {whole : Buffer} {α β γ δ : Type} {cursor next left : WordCursor whole}
  {part : Slice whole} {count : UInt64}

/-! ### A device and the cursor that it holds -/

/-- Both read the same, up to how it is seen, and hold the same cursor afterwards, or both fail for
want of bytes. -/
def Follows (view : α → β) (reading : Reading whole α) (reading' : Cursor.Reading β) : Prop :=
  ∀ cursor : WordCursor whole,
    (∃ value next, reading cursor = .ok value next ∧
      reading' cursor.held = .ok (view value) next.held) ∨
    ∃ left, reading cursor = .error (.refused .notEnoughData) left ∧
      reading' cursor.held = .error .notEnoughData left.held

/-- What is made of the bytes may use that they are as many as were asked for. -/
theorem readBytes_map_follows {value : Slice whole → α} {view : α → β} {value' : Bytes → β}
    (h : ∀ part, part.length = count → view (value part) = value' part.bytes) :
    Follows view (value <$> readBytes count) (value' <$> Cursor.readBytes count.toNat) := by
  intro cursor
  cases hdata : cursor.hasData count with
  | true =>
    obtain ⟨part, next, hread, hgives, hlength⟩ := readBytes_of_hasData hdata
    have hcount : part.bytes.length = count.toNat := by
      rw [Slice.length_bytes, ← hlength, Slice.toNat_length]
    have hheld : Cursor.readBytes count.toNat cursor.held = .ok part.bytes next.held :=
      (Cursor.readBytes_inverts _ _ _ _).mpr ⟨hcount, hgives.held⟩
    refine .inl ⟨value part, next, map_of_ok value hread, ?_⟩
    rw [h part hlength, map_of_ok value' hheld]
  | false =>
    have hheld : Cursor.readBytes count.toNat cursor.held = .error .notEnoughData cursor.held := by
      rw [Cursor.readBytes, hasData_held, hdata]
      rfl
    have hread := readBytes_of_short hdata
    exact .inr ⟨cursor, map_of_error value hread, map_of_error value' hheld⟩

theorem readBytes_follows (count : UInt64) :
    Follows (Slice.bytes : Slice whole → Bytes) (readBytes count)
      (Cursor.readBytes count.toNat) := by
  have h : Follows (Slice.bytes : Slice whole → Bytes) (id <$> readBytes count)
      (id <$> Cursor.readBytes count.toNat) := readBytes_map_follows fun _ _ => rfl
  rwa [id_map, id_map] at h

theorem Follows.map {view : α → β} {reading : Reading whole α} {reading' : Cursor.Reading β}
    (h : Follows view reading reading') {value : α → γ} {value' : β → δ} {view' : γ → δ}
    (hview : ∀ read, view' (value read) = value' (view read)) :
    Follows view' (value <$> reading) (value' <$> reading') := by
  intro cursor
  rcases h cursor with ⟨read, next, hread, hheld⟩ | ⟨left, hread, hheld⟩
  · refine .inl ⟨value read, next, map_of_ok value hread, ?_⟩
    rw [hview, map_of_ok value' hheld]
  · exact .inr ⟨left, map_of_error value hread, map_of_error value' hheld⟩

theorem Follows.bind {view : α → β} {reading : Reading whole α} {reading' : Cursor.Reading β}
    (h : Follows view reading reading') {view' : γ → δ} {continuation : α → Reading whole γ}
    {continuation' : β → Cursor.Reading δ}
    (hnext : ∀ read, Follows view' (continuation read) (continuation' (view read))) :
    Follows view' (reading >>= continuation) (reading' >>= continuation') := by
  intro cursor
  rcases h cursor with ⟨read, next, hread, hheld⟩ | ⟨left, hread, hheld⟩
  · rw [bind_of_ok hread, bind_of_ok hheld]
    exact hnext read next
  · exact .inr ⟨left, bind_of_error hread, bind_of_error hheld⟩

theorem readLength_follows :
    Follows UInt64.toNat (readLength : Reading whole UInt64) Cursor.readLength := by
  have hheld : Cursor.readLength = Bytes.toNatLE <$> Cursor.readBytes (4 : UInt64).toNat :=
    bind_pure_comp _ _
  rw [readLength_eq, hheld]
  exact readBytes_map_follows fun _ hlength => toNat_declared hlength

theorem readPrefixed_follows :
    Follows (Slice.bytes : Slice whole → Bytes) readPrefixed Cursor.readPrefixed :=
  readLength_follows.bind readBytes_follows

end WordCursor

namespace Read

variable {whole : Buffer} {cursor middle next left : WordCursor whole} {part size : Slice whole}
  {read : Read}

/-- A read by a cursor. -/
def run : Read → Cursor.Reading (Yield Bytes Cursor)
  | bytes count => .part <$> Cursor.readBytes count.toNat
  | array count => .part <$> Cursor.readBytes count.toNat
  | integer width => .number <$> Cursor.readUInt width.toNat
  | length => .number <$> Cursor.readLength
  | prefixed => .part <$> Cursor.readPrefixed
  | split count => .inner <$> Cursor.split count.toNat

/-- A read by a device. -/
def perform : Read → WordCursor.Reading whole (Yield (Slice whole) (WordCursor whole))
  | bytes count => .part <$> WordCursor.readBytes count
  | array count => .part <$> WordCursor.readArray count
  | integer width => .number <$> WordCursor.readUInt width
  | length => (fun count => .number count.toNat) <$> WordCursor.readLength
  | prefixed => .part <$> WordCursor.readPrefixed
  | split count => .inner <$> WordCursor.split count

/-- A device reads what the cursor that it holds reads. -/
theorem perform_follows (read : Read) :
    WordCursor.Follows (Yield.map Slice.bytes WordCursor.held)
      (read.perform : WordCursor.Reading whole _) read.run := by
  have hsplit (count : Nat) : Cursor.split count = Cursor.start <$> Cursor.readBytes count :=
    bind_pure_comp _ _
  have hinteger (width : Nat) : Cursor.readUInt width = Bytes.toNatLE <$> Cursor.readBytes width :=
    bind_pure_comp _ _
  cases read with
  | bytes count => exact (WordCursor.readBytes_follows count).map fun _ => rfl
  | array count =>
    rw [perform, WordCursor.readArray_eq]
    exact (WordCursor.readBytes_follows count).map fun _ => rfl
  | integer width =>
    rw [perform, run, WordCursor.readUInt_eq, hinteger, Functor.map_map, Functor.map_map]
    exact (WordCursor.readBytes_follows width).map fun _ => rfl
  | length => exact WordCursor.readLength_follows.map fun _ => rfl
  | prefixed => exact WordCursor.readPrefixed_follows.map fun _ => rfl
  | split count =>
    rw [perform, run, WordCursor.split_eq, hsplit, Functor.map_map, Functor.map_map]
    exact (WordCursor.readBytes_follows count).map fun _ => rfl

/-! ### What a read comes to -/

/-- How many bytes are asked for first. -/
def first : Read → UInt64
  | bytes count => count
  | array count => count
  | integer width => width
  | length => 4
  | prefixed => 4
  | split count => count

/-- What is made of the part that a read takes last. -/
def value (part : Slice whole) : Read → Yield (Slice whole) (WordCursor whole)
  | bytes _ => .part part
  | array _ => .part part
  | integer _ => .number (Bytes.toNatLE part.bytes)
  | length => .number (Bytes.toNatLE part.bytes)
  | prefixed => .part part
  | split _ => .inner (.start part)

/-- What a read can come to. Only a read of a length and as many bytes takes two parts, and it alone
can fail between them. -/
inductive Outcome (cursor : WordCursor whole) :
    Read → EStateM.Result Fault (WordCursor whole) (Yield (Slice whole) (WordCursor whole)) → Prop
  | refused {read : Read} (hshort : cursor.hasData read.first = false) :
      Outcome cursor read (.error (.refused .notEnoughData) cursor)
  | given {read : Read} {part : Slice whole} {next : WordCursor whole} (hread : read ≠ prefixed)
      (hpart : cursor.Gives part next) (hlength : part.length = read.first) :
      Outcome cursor read (.ok (read.value part) next)
  | halfRefused {size : Slice whole} {left : WordCursor whole} (hsize : cursor.Gives size left)
      (hwidth : size.length = 4) (hshort : left.hasData (WordCursor.declared size) = false) :
      Outcome cursor prefixed (.error (.refused .notEnoughData) left)
  | bothGiven {size part : Slice whole} {middle next : WordCursor whole}
      (hsize : cursor.Gives size middle) (hwidth : size.length = 4) (hpart : middle.Gives part next)
      (hlength : part.length = WordCursor.declared size) :
      Outcome cursor prefixed (.ok (.part part) next)

/-- A read of one part is the primitive read. -/
theorem perform_eq (h : read ≠ prefixed) :
    (read.perform : WordCursor.Reading whole _) =
      (fun part => read.value part) <$> WordCursor.readBytes read.first := by
  cases read with
  | bytes count => rfl
  | array count =>
    rw [perform, WordCursor.readArray_eq]
    rfl
  | integer width =>
    rw [perform, WordCursor.readUInt_eq, Functor.map_map]
    rfl
  | length =>
    rw [perform, WordCursor.readLength_eq, Functor.map_map, ← bind_pure_comp]
    refine WordCursor.readBytes_bind_eq fun size cursor hlength => ?_
    change EStateM.Result.ok (Yield.number (WordCursor.declared size).toNat) cursor = _
    rw [WordCursor.toNat_declared hlength]
    rfl
  | prefixed => exact absurd rfl h
  | split count =>
    rw [perform, WordCursor.split_eq, Functor.map_map]
    rfl

theorem perform_prefixed_outcome (cursor : WordCursor whole) :
    Outcome cursor prefixed (prefixed.perform cursor) := by
  rw [perform, WordCursor.readPrefixed, WordCursor.readLength_eq]
  cases hdata : cursor.hasData 4 with
  | false =>
    have hread := WordCursor.map_of_error WordCursor.declared (WordCursor.readBytes_of_short hdata)
    rw [WordCursor.map_of_error Yield.part (WordCursor.bind_of_error hread)]
    exact .refused hdata
  | true =>
    obtain ⟨size, middle, hsize, hgives, hwidth⟩ := WordCursor.readBytes_of_hasData hdata
    have hread := WordCursor.map_of_ok WordCursor.declared hsize
    cases hmore : middle.hasData (WordCursor.declared size) with
    | false =>
      have hrest := WordCursor.readBytes_of_short hmore
      rw [WordCursor.map_of_error Yield.part ((WordCursor.bind_of_ok hread).trans hrest)]
      exact .halfRefused hgives hwidth hmore
    | true =>
      obtain ⟨part, next, hrest, hpart, hlength⟩ := WordCursor.readBytes_of_hasData hmore
      rw [WordCursor.map_of_ok Yield.part ((WordCursor.bind_of_ok hread).trans hrest)]
      exact .bothGiven hgives hwidth hpart hlength

/-- Every read comes to one of the outcomes. In none of them a position is out of range. -/
theorem perform_outcome (read : Read) (cursor : WordCursor whole) :
    Outcome cursor read (read.perform cursor) := by
  by_cases hread : read = prefixed
  · rw [hread]
    exact perform_prefixed_outcome cursor
  · rw [perform_eq hread]
    cases hdata : cursor.hasData read.first with
    | false =>
      rw [WordCursor.map_of_error _ (WordCursor.readBytes_of_short hdata)]
      exact .refused hdata
    | true =>
      obtain ⟨part, next, hbytes, hpart, hlength⟩ := WordCursor.readBytes_of_hasData hdata
      rw [WordCursor.map_of_ok _ hbytes]
      exact .given hread hpart hlength

/-- A read that fails is refused for want of bytes, and so is the read by the cursor that is held.
It leaves the cursor as it was, except where a length is read and the bytes behind it are missing:
then the cursor stands behind the length, which declares more bytes than there are. -/
theorem refused_unmoved {fault : Fault} (h : read.perform cursor = .error fault left) :
    fault = .refused .notEnoughData ∧
      read.run cursor.held = .error .notEnoughData left.held ∧
      (left = cursor ↔ ¬(read = prefixed ∧ cursor.hasData 4 = true)) ∧
      (left ≠ cursor →
        ∃ count, WordCursor.readLength cursor = .ok count left ∧ left.hasData count = false) := by
  have hheld : fault = .refused .notEnoughData ∧
      read.run cursor.held = .error .notEnoughData left.held := by
    rcases read.perform_follows cursor with ⟨value, next, hread, -⟩ | ⟨stopped, hread, hrun⟩
    · cases h.symm.trans hread
    · cases h.symm.trans hread
      exact ⟨rfl, hrun⟩
  have houtcome := read.perform_outcome cursor
  rw [h] at houtcome
  refine ⟨hheld.1, hheld.2, ?_⟩
  cases houtcome with
  | refused hshort =>
    refine ⟨iff_of_true rfl ?_, fun hmoved => absurd rfl hmoved⟩
    rintro ⟨rfl, hdata⟩
    exact Bool.false_ne_true (hshort.symm.trans hdata)
  | @halfRefused size _ hsize hwidth hshort =>
    have hmoved : left ≠ cursor := by
      rintro rfl
      have hoffset := hsize.offset_eq
      rw [hwidth] at hoffset
      exact absurd hoffset (Nat.ne_of_lt (Nat.lt_add_of_pos_right (by decide)))
    have hdata : cursor.hasData 4 = true := hwidth ▸ hsize.hasData
    refine ⟨iff_of_false hmoved (not_not_intro ⟨rfl, hdata⟩), fun _ => ?_⟩
    have hlength : WordCursor.readLength cursor = .ok (WordCursor.declared size) left := by
      rw [WordCursor.readLength_eq]
      exact WordCursor.map_of_ok _ (hwidth ▸ hsize.readBytes_eq)
    exact ⟨_, hlength, hshort⟩

/-- Five bytes are declared and one is there. -/
def cutShort : Buffer :=
  ⟨[0x05, 0x00, 0x00, 0x00, 0x61], by decide⟩

/-- The cursor behind the declared length. -/
def behindLength : WordCursor cutShort :=
  ⟨.all cutShort, 4, [⟨0, 4, by decide, by decide⟩]⟩

/-- The length has been read when the bytes behind it turn out to be missing. -/
theorem refused_unmoved_cutShort :
    prefixed.perform (.start (.all cutShort)) = .error (.refused .notEnoughData) behindLength ∧
      prefixed.run (Cursor.start cutShort.bytes) = .error .notEnoughData behindLength.held ∧
      behindLength ≠ .start (.all cutShort) := by
  have hfailed : prefixed.perform (.start (.all cutShort)) =
      .error (.refused .notEnoughData) behindLength := rfl
  obtain ⟨-, hrun, hunmoved, -⟩ := refused_unmoved hfailed
  exact ⟨hfailed, hrun, fun h => hunmoved.mp h ⟨rfl, rfl⟩⟩

/-- Not every read that fails leaves the cursor as it was. -/
theorem refused_moved :
    ¬∀ (read : Read) (cursor left : Cursor) (error : DecodeError),
      read.run cursor = .error error left → error = .notEnoughData ∧ left = cursor := by
  intro h
  have hunmoved := h .prefixed (.start cutShort.bytes) ⟨cutShort.bytes, 4⟩ .notEnoughData rfl
  cases congrArg Cursor.offset hunmoved.2

end Read

end NemSigner
