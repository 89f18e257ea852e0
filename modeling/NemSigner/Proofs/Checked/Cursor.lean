import NemSigner.Proofs.Checked.Pen
import NemSigner.Proofs.Checked.Slice
import NemSigner.Proofs.Cursor.Inversion

/-!
# Cursors that count in words

A device counts what a cursor has read in a word of 64 bits, and what it is asked for is a word too,
so their sum can be too large for a word. It asks for that before it moves, and it takes bytes out
of its buffer only between positions that it has looked at. Nothing ever goes wrong in between, and
such a cursor does what the cursor that it holds does.

## Main definitions

- `WordCursor` — a slice of a buffer, and how far it has been read
- `WordCursor.held` — the cursor that a device holds
- `WordCursor.hasData`, `WordCursor.remaining` — the two questions that are answered by arithmetic
- `WordCursor.readBytes` — the one primitive read, every position of which is looked at
- `WordCursor.Gives` — a cursor gives up a slice and becomes another cursor

## Main statements

- `WordCursor.hasData_iff` — the bound is exact, also where the sum is too large for a word
- `WordCursor.readBytes_of_hasData`, `WordCursor.readBytes_of_short` — all that the primitive read
  can do
- `WordCursor.readArray_eq`, `WordCursor.readUInt_eq`, `WordCursor.readLength_eq` — the checks
  behind the primitive read never fail

## Design notes

A cursor keeps account of the slices that it has given up. No reading looks at the account, and only
`WordCursor.readBytes` writes in it.
-/

namespace NemSigner

/-- A cursor as a device keeps it. -/
@[ext]
structure WordCursor (whole : Buffer) where
  slice : Slice whole
  offset : UInt64
  /-- What has been given up so far, in order. -/
  given : List (Slice whole)
  deriving DecidableEq, Repr

namespace WordCursor

variable {whole : Buffer} {α β : Type} {cursor middle next left : WordCursor whole}
  {part : Slice whole} {count : UInt64}

/-- A computation that moves a cursor. When it stops the cursor is kept as the step that stopped
left it. -/
abbrev Reading (whole : Buffer) (α : Type) := EStateM Fault (WordCursor whole) α

def start (slice : Slice whole) : WordCursor whole :=
  ⟨slice, 0, []⟩

/-- The cursor that a device holds. -/
def held (cursor : WordCursor whole) : Cursor :=
  ⟨cursor.slice.bytes, cursor.offset.toNat⟩

/-- The sum of two words, unless it is too large for one: it is less than either of them then. -/
def sum? (n m : UInt64) : Option UInt64 :=
  if n ≤ n + m then some (n + m) else none

/-- Whether `count` more bytes can be read. -/
def hasData (cursor : WordCursor whole) (count : UInt64) : Bool :=
  match sum? cursor.offset count with
  | some stop => stop ≤ cursor.slice.length
  | none => false

/-- The number of bytes still to be read, which must not be negative. -/
def remaining (cursor : WordCursor whole) : Except Fault UInt64 :=
  if cursor.offset ≤ cursor.slice.length then .ok (cursor.slice.length - cursor.offset)
  else .error .outOfRange

/-- Whether all bytes have been read. -/
def isExhausted (cursor : WordCursor whole) : Except Fault Bool := do
  return (← cursor.remaining) == 0

/-- Succeeds when all bytes have been read. -/
def finish : Reading whole Unit := fun cursor =>
  match cursor.isExhausted with
  | .ok true => .ok () cursor
  | .ok false => .error (.refused .invalidData) cursor
  | .error fault => .error fault cursor

/-- Gives up exactly `count` bytes, or fails without moving. -/
def readBytes (count : UInt64) : Reading whole (Slice whole) := fun cursor =>
  if cursor.hasData count then
    match sum? cursor.offset count with
    | none => .error .outOfRange cursor
    | some stop =>
      match cursor.slice.part? cursor.offset stop with
      | none => .error .outOfRange { cursor with offset := stop }
      | some part => .ok part { cursor with offset := stop, given := cursor.given ++ [part] }
  else .error (.refused .notEnoughData) cursor

/-- Gives up `count` bytes as an array of that size, which they have to have. -/
def readArray (count : UInt64) : Reading whole (Slice whole) := do
  let part ← readBytes count
  if part.length ≠ count then throw (.refused .notEnoughData)
  return part

/-- The integer in the first bytes, of which there must be enough. -/
def littleEnd (width : Nat) (part : Slice whole) : Reading whole Nat := fun cursor =>
  if width ≤ part.bytes.length then .ok (Bytes.toNatLE (part.bytes.take width)) cursor
  else .error .outOfRange cursor

/-- Reads an integer of `width` bytes, lowest first. -/
def readUInt (width : UInt64) : Reading whole Nat := do
  let part ← readBytes width
  littleEnd width.toNat part

/-- Reads the four bytes of a declared length, which has to be a word. -/
def readLength : Reading whole UInt64 := do
  let count ← readUInt 4
  if UInt64.size ≤ count then throw (.refused .notEnoughData)
  return count.toUInt64

/-- Reads a declared length and as many bytes. -/
def readPrefixed : Reading whole (Slice whole) := do
  let count ← readLength
  readBytes count

/-- Gives up the next `count` bytes to a cursor of their own. -/
def split (count : UInt64) : Reading whole (WordCursor whole) := do
  return start (← readBytes count)

/-! ### Words -/

theorem sum?_of_lt {n m : UInt64} (h : n.toNat + m.toNat < UInt64.size) :
    ∃ sum, sum? n m = some sum ∧ sum.toNat = n.toNat + m.toNat := by
  have hsum : (n + m).toNat = n.toNat + m.toNat := by rw [UInt64.toNat_add, Nat.mod_eq_of_lt h]
  refine ⟨n + m, if_pos ?_, hsum⟩
  rw [UInt64.le_iff_toNat_le, hsum]
  exact Nat.le_add_right _ _

/-- A sum that is too large for a word has wrapped around. -/
theorem sum?_of_le {n m : UInt64} (h : UInt64.size ≤ n.toNat + m.toNat) : sum? n m = none := by
  have hn := n.toNat_lt_size
  have hm := m.toNat_lt_size
  have hsum : (n + m).toNat = n.toNat + m.toNat - UInt64.size := by
    rw [UInt64.toNat_add, Nat.mod_eq_sub_mod h, Nat.mod_eq_of_lt]
    omega
  apply if_neg
  rw [UInt64.le_iff_toNat_le, hsum]
  omega

/-- The end that is asked for is compared as if no sum were too large for a word. -/
theorem hasData_iff :
    cursor.hasData count = true ↔
      cursor.offset.toNat + count.toNat ≤ cursor.slice.stop - cursor.slice.start := by
  have hlength := cursor.slice.length.toNat_lt_size
  rw [Slice.toNat_length] at hlength
  rw [hasData]
  by_cases hsum : cursor.offset.toNat + count.toNat < UInt64.size
  · obtain ⟨stop, hstop, hvalue⟩ := sum?_of_lt hsum
    rw [hstop]
    simp only [decide_eq_true_iff, UInt64.le_iff_toNat_le, Slice.toNat_length, hvalue]
  · rw [sum?_of_le (Nat.le_of_not_lt hsum)]
    simp only [Bool.false_eq_true, false_iff]
    omega

/-- Behind four bytes of eight the largest word is too much, although the sum wraps around to
three. -/
example :
    let whole : Buffer := ⟨List.replicate 8 0, by decide⟩
    hasData ⟨.all whole, 4, []⟩ 0xffffffffffffffff = false := by
  decide

theorem hasData_held (cursor : WordCursor whole) (count : UInt64) :
    cursor.held.hasData count.toNat = cursor.hasData count := by
  rw [Bool.eq_iff_iff, Cursor.hasData_iff, hasData_iff]
  simp only [held, Slice.length_bytes]

/-! ### What is given up -/

/-- A cursor gives up a slice: the slice starts where the cursor stands, and the cursor moves to
where it stops. -/
structure Gives (cursor : WordCursor whole) (part : Slice whole) (next : WordCursor whole) :
    Prop where
  slice_eq : next.slice = cursor.slice
  start_eq : part.start = cursor.slice.start + cursor.offset.toNat
  stop_eq : part.stop = cursor.slice.start + next.offset.toNat
  offset_le : next.offset ≤ next.slice.length
  given_eq : next.given = cursor.given ++ [part]

/-- The number of bytes that a cursor moves over. -/
theorem Gives.offset_eq (h : cursor.Gives part next) :
    next.offset.toNat = cursor.offset.toNat + part.length.toNat := by
  have hordered := part.ordered
  have hstart := h.start_eq
  have hstop := h.stop_eq
  rw [Slice.toNat_length]
  omega

/-- What is given up is what the cursor that is held gives up. -/
theorem Gives.held (h : cursor.Gives part next) : cursor.held.Gives part.bytes next.held := by
  have hoffset := h.offset_eq
  have hle := UInt64.le_iff_toNat_le.mp h.offset_le
  have hordered := cursor.slice.ordered
  have hstart := h.start_eq
  have hstop := h.stop_eq
  rw [h.slice_eq, Slice.toNat_length] at hle
  rw [Slice.toNat_length] at hoffset
  have hfirst : cursor.slice.start ≤ part.start := by omega
  have hlast : part.stop ≤ cursor.slice.stop := by omega
  have hbytes : part.bytes = cursor.held.rest.take (part.stop - part.start) := by
    rw [Slice.bytes_of_within hfirst hlast, hstart, Nat.add_sub_cancel_left]
    rfl
  have hrest : cursor.held.rest.drop (part.stop - part.start) = next.held.rest := by
    simp only [Cursor.rest, WordCursor.held, List.drop_drop, h.slice_eq, hoffset]
  refine ⟨congrArg Slice.bytes h.slice_eq, ?_, ?_, ?_⟩
  · rw [Slice.length_bytes]
    exact hoffset
  · rw [hbytes, ← hrest, List.take_append_drop]
  · simp only [WordCursor.held, Cursor.length, h.slice_eq, Slice.length_bytes]
    exact hle

theorem readBytes_of_hasData (h : cursor.hasData count = true) :
    ∃ part next, readBytes count cursor = .ok part next ∧ cursor.Gives part next ∧
      part.length = count := by
  have hroom := hasData_iff.mp h
  have hlength := cursor.slice.length.toNat_lt_size
  rw [Slice.toNat_length] at hlength
  obtain ⟨stop, hsum, hstop⟩ := sum?_of_lt (n := cursor.offset) (m := count) (by omega)
  have hwithin : cursor.offset ≤ stop ∧ stop ≤ cursor.slice.length := by
    simp only [UInt64.le_iff_toNat_le, Slice.toNat_length]
    omega
  obtain ⟨part, hpart⟩ : ∃ part, cursor.slice.part? cursor.offset stop = some part :=
    ⟨_, dif_pos hwithin⟩
  obtain ⟨-, hfirst, hlast⟩ := Slice.part?_eq_some.mp hpart
  refine ⟨part, { cursor with offset := stop, given := cursor.given ++ [part] }, ?_,
    ⟨rfl, hfirst, hlast, hwithin.2, rfl⟩, ?_⟩
  · rw [readBytes, if_pos h, hsum]
    dsimp only
    rw [hpart]
  · rw [← UInt64.toNat_inj, Slice.toNat_length]
    omega

theorem Gives.hasData (h : cursor.Gives part next) : cursor.hasData part.length = true := by
  have hle := UInt64.le_iff_toNat_le.mp h.offset_le
  rw [h.slice_eq, Slice.toNat_length, h.offset_eq] at hle
  exact hasData_iff.mpr hle

/-- What is given up is fixed by its length, and so is where the cursor moves. -/
theorem Gives.unique {part' : Slice whole} {next' : WordCursor whole} (h : cursor.Gives part next)
    (h' : cursor.Gives part' next') (hlength : part'.length = part.length) :
    part' = part ∧ next' = next := by
  have hoffset : next'.offset = next.offset := by
    rw [← UInt64.toNat_inj, h'.offset_eq, h.offset_eq, hlength]
  have hpart : part' = part := by
    refine Slice.ext (h'.start_eq.trans h.start_eq.symm) ?_
    rw [h'.stop_eq, h.stop_eq, hoffset]
  refine ⟨hpart, WordCursor.ext (h'.slice_eq.trans h.slice_eq.symm) hoffset ?_⟩
  rw [h'.given_eq, h.given_eq, hpart]

/-- What a cursor can give up is read when it is asked for. -/
theorem Gives.readBytes_eq (h : cursor.Gives part next) :
    readBytes part.length cursor = .ok part next := by
  obtain ⟨part', next', hread, hgives, hlength⟩ := readBytes_of_hasData h.hasData
  obtain ⟨rfl, rfl⟩ := h.unique hgives hlength
  exact hread

theorem readBytes_of_short (h : cursor.hasData count = false) :
    readBytes count cursor = .error (.refused .notEnoughData) cursor := by
  rw [readBytes, h]
  rfl

theorem exists_readBytes_iff :
    (∃ part next, readBytes count cursor = .ok part next) ↔ cursor.hasData count = true := by
  cases hdata : cursor.hasData count with
  | true =>
    obtain ⟨part, next, hread, -, -⟩ := readBytes_of_hasData hdata
    exact iff_of_true ⟨part, next, hread⟩ rfl
  | false =>
    rw [readBytes_of_short hdata]
    exact iff_of_false nofun Bool.false_ne_true

/-! ### Reads of one part -/

section Steps

variable {ε σ : Type} {first : EStateM ε σ α} {continuation : α → EStateM ε σ β} {before after : σ}
  {value : α} {error : ε}

theorem map_of_ok (f : α → β) (h : first before = .ok value after) :
    (f <$> first) before = .ok (f value) after := by
  change EStateM.map f first before = _
  rw [EStateM.map, h]

theorem map_of_error (f : α → β) (h : first before = .error error after) :
    (f <$> first) before = .error error after := by
  change EStateM.map f first before = _
  rw [EStateM.map, h]

theorem bind_of_ok (h : first before = .ok value after) :
    (first >>= continuation) before = continuation value after := by
  change EStateM.bind first continuation before = _
  rw [EStateM.bind, h]

theorem bind_of_error (h : first before = .error error after) :
    (first >>= continuation) before = .error error after := by
  change EStateM.bind first continuation before = _
  rw [EStateM.bind, h]

end Steps

/-- What is looked at behind a read never fails when it holds of all slices of the length that was
asked for. -/
theorem readBytes_bind_eq {continuation : Slice whole → Reading whole α} {value : Slice whole → α}
    (h : ∀ part cursor, part.length = count → continuation part cursor = .ok (value part) cursor) :
    readBytes count >>= continuation = value <$> readBytes count := by
  funext cursor
  cases hdata : cursor.hasData count with
  | true =>
    obtain ⟨part, next, hread, -, hlength⟩ := readBytes_of_hasData hdata
    rw [bind_of_ok hread, map_of_ok value hread, h part next hlength]
  | false =>
    have hread := readBytes_of_short hdata
    rw [bind_of_error hread, map_of_error value hread]

/-- The bytes of an array are never of another number. -/
theorem readArray_eq (count : UInt64) :
    (readArray count : Reading whole (Slice whole)) = readBytes count := by
  have heq : (readArray count : Reading whole (Slice whole)) = id <$> readBytes count := by
    refine readBytes_bind_eq fun part cursor hlength => ?_
    rw [if_neg (not_not_intro hlength)]
    rfl
  rw [heq, id_map]

/-- The bytes of an integer are always enough. -/
theorem readUInt_eq (width : UInt64) :
    (readUInt width : Reading whole Nat) =
      (fun part => Bytes.toNatLE part.bytes) <$> readBytes width := by
  refine readBytes_bind_eq fun part cursor hlength => ?_
  have hwidth : part.bytes.length = width.toNat := by
    rw [← hlength, Slice.toNat_length, Slice.length_bytes]
  rw [littleEnd, if_pos (Nat.le_of_eq hwidth.symm), List.take_of_length_le (Nat.le_of_eq hwidth)]

/-- The number that four bytes declare. -/
def declared (size : Slice whole) : UInt64 :=
  (Bytes.toNatLE size.bytes).toUInt64

theorem toNatLE_lt {size : Slice whole} (h : size.length = 4) :
    Bytes.toNatLE size.bytes < UInt64.size := by
  have hlength : size.bytes.length = 4 := by
    rw [Slice.length_bytes, ← Slice.toNat_length, h]
    rfl
  exact Nat.lt_trans (Bytes.toNatLE_lt_bound hlength) (by decide)

theorem toNat_declared {size : Slice whole} (h : size.length = 4) :
    (declared size).toNat = Bytes.toNatLE size.bytes :=
  UInt64.toNat_ofNat_of_lt' (toNatLE_lt h)

/-- A declared length is always a word. -/
theorem readLength_eq : (readLength : Reading whole UInt64) = declared <$> readBytes 4 := by
  rw [readLength, readUInt_eq, bind_map_left]
  refine readBytes_bind_eq fun size cursor hlength => ?_
  rw [if_neg (Nat.not_le_of_lt (toNatLE_lt hlength))]
  rfl

theorem split_eq (count : UInt64) :
    (split count : Reading whole (WordCursor whole)) = start <$> readBytes count :=
  bind_pure_comp _ _

theorem exists_split_iff :
    (∃ inner next, split count cursor = .ok inner next) ↔ cursor.hasData count = true := by
  rw [split_eq]
  cases hdata : cursor.hasData count with
  | true =>
    obtain ⟨part, next, hread, -, -⟩ := readBytes_of_hasData hdata
    exact iff_of_true ⟨_, next, map_of_ok start hread⟩ rfl
  | false =>
    rw [map_of_error start (readBytes_of_short hdata)]
    exact iff_of_false nofun Bool.false_ne_true

end WordCursor

end NemSigner
