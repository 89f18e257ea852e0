import NemSigner.Bytes.Basic

/-!
# Slices of a buffer

A device does not copy the bytes that it works on. It holds one buffer, and everything it reads is a
part of the buffer between two positions. Two parts can hold the same bytes and still be different
parts.

## Main definitions

- `Buffer` — bytes that a device can hold
- `Slice` — a part of a buffer
- `Slice.part?` — a part of a part, between positions that are words
- `Slice.Tiles` — slices follow one another from one position to another

## Main statements

- `Slice.Tiles.pairwise` — slices that follow one another do not overlap
- `Slice.Tiles.exists_mem_iff` — every position between the two ends lies in one of them
- `Slice.Tiles.flatten_bytes` — together they hold the bytes between the two ends
-/

namespace NemSigner

/-- Bytes that a device can hold: their number fits a word. -/
structure Buffer where
  bytes : Bytes
  fits : bytes.length < UInt64.size
  deriving DecidableEq, Repr

/-- A part of a buffer, from one position to another. -/
@[ext]
structure Slice (whole : Buffer) where
  start : Nat
  stop : Nat
  ordered : start ≤ stop
  inside : stop ≤ whole.bytes.length
  deriving DecidableEq, Repr

namespace Slice

variable {whole : Buffer} {slice part : Slice whole} {parts : List (Slice whole)}

/-- All of a buffer. -/
def all (whole : Buffer) : Slice whole :=
  ⟨0, whole.bytes.length, Nat.zero_le _, Nat.le_refl _⟩

def bytes (slice : Slice whole) : Bytes :=
  (whole.bytes.take slice.stop).drop slice.start

/-- The number of bytes, in a word. -/
def length (slice : Slice whole) : UInt64 :=
  (slice.stop - slice.start).toUInt64

@[simp] theorem length_bytes (slice : Slice whole) :
    slice.bytes.length = slice.stop - slice.start := by
  simp [bytes, Nat.min_eq_left slice.inside]

/-- A slice is never too long for a word. -/
@[simp] theorem toNat_length (slice : Slice whole) :
    slice.length.toNat = slice.stop - slice.start := by
  have hinside := slice.inside
  have hfits := whole.fits
  exact UInt64.toNat_ofNat_of_lt' (by omega)

/-- The part of a slice between two positions that are counted from its start. They have to be in
order, and none may lie behind the slice. -/
def part? (slice : Slice whole) (start stop : UInt64) : Option (Slice whole) :=
  if h : start ≤ stop ∧ stop ≤ slice.length then
    some {
      start := slice.start + start.toNat
      stop := slice.start + stop.toNat
      ordered := Nat.add_le_add_left (UInt64.le_iff_toNat_le.mp h.1) _
      inside := by
        have hstop := UInt64.le_iff_toNat_le.mp h.2
        rw [toNat_length] at hstop
        have hordered := slice.ordered
        have hinside := slice.inside
        omega }
  else none

theorem part?_eq_some {start stop : UInt64} :
    slice.part? start stop = some part ↔
      (start ≤ stop ∧ stop ≤ slice.length) ∧
        part.start = slice.start + start.toNat ∧ part.stop = slice.start + stop.toNat := by
  rw [part?]
  split
  · next h =>
    rw [Option.some.injEq]
    constructor
    · rintro rfl
      exact ⟨h, rfl, rfl⟩
    · rintro ⟨-, hstart, hstop⟩
      exact Slice.ext hstart.symm hstop.symm
  · next h => simp [h]

/-- The bytes of a part stand where the part stands. -/
theorem bytes_of_within (hstart : slice.start ≤ part.start) (hstop : part.stop ≤ slice.stop) :
    part.bytes = (slice.bytes.drop (part.start - slice.start)).take (part.stop - part.start) := by
  have hordered := part.ordered
  rw [bytes, bytes, List.drop_drop, Nat.add_sub_cancel' hstart, ← List.drop_take, List.take_take]
  congr 2
  omega

/-! ### Slices that follow one another -/

/-- The slices follow one another from one position to another, with nothing between them. -/
def Tiles : Nat → List (Slice whole) → Nat → Prop
  | start, [], stop => start = stop
  | start, slice :: rest, stop => slice.start = start ∧ Tiles slice.stop rest stop

theorem tiles_nil (position : Nat) : Tiles position ([] : List (Slice whole)) position :=
  rfl

theorem tiles_singleton (slice : Slice whole) : Tiles slice.start [slice] slice.stop :=
  ⟨rfl, rfl⟩

variable {start middle stop : Nat}

theorem Tiles.append {others : List (Slice whole)} (h : Tiles start parts middle)
    (h' : Tiles middle others stop) : Tiles start (parts ++ others) stop := by
  induction parts generalizing start with
  | nil =>
    obtain rfl : start = middle := h
    exact h'
  | cons slice rest ih => exact ⟨h.1, ih h.2⟩

theorem Tiles.le (h : Tiles start parts stop) : start ≤ stop := by
  induction parts generalizing start with
  | nil => exact Nat.le_of_eq h
  | cons slice rest ih =>
    obtain ⟨rfl, hrest⟩ := h
    exact Nat.le_trans slice.ordered (ih hrest)

/-- No slice reaches beyond the two ends. -/
theorem Tiles.bounds (h : Tiles start parts stop) (hmem : slice ∈ parts) :
    start ≤ slice.start ∧ slice.stop ≤ stop := by
  induction parts generalizing start with
  | nil => cases hmem
  | cons first rest ih =>
    obtain ⟨rfl, hrest⟩ := h
    rcases List.mem_cons.mp hmem with rfl | hmem
    · exact ⟨Nat.le_refl _, hrest.le⟩
    · obtain ⟨hstart, hstop⟩ := ih hrest hmem
      exact ⟨Nat.le_trans first.ordered hstart, hstop⟩

/-- Each of the slices ends before the next one starts. -/
theorem Tiles.pairwise (h : Tiles start parts stop) :
    parts.Pairwise fun earlier later => earlier.stop ≤ later.start := by
  induction parts generalizing start with
  | nil => exact .nil
  | cons slice rest ih => exact .cons (fun later hmem => (h.2.bounds hmem).1) (ih h.2)

/-- The positions in the slices are those between the two ends. -/
theorem Tiles.exists_mem_iff (h : Tiles start parts stop) (position : Nat) :
    (∃ slice ∈ parts, slice.start ≤ position ∧ position < slice.stop) ↔
      start ≤ position ∧ position < stop := by
  induction parts generalizing start with
  | nil =>
    obtain rfl : start = stop := h
    simp
  | cons first rest ih =>
    obtain ⟨rfl, hrest⟩ := h
    have hordered := first.ordered
    have hle := hrest.le
    simp only [List.mem_cons, or_and_right, exists_or, exists_eq_left, ih hrest]
    omega

/-- The bytes of the slices are the bytes between the two ends. -/
theorem Tiles.flatten_bytes (h : Tiles start parts stop) :
    (parts.map bytes).flatten = (whole.bytes.take stop).drop start := by
  induction parts generalizing start with
  | nil =>
    obtain rfl : start = stop := h
    simp
  | cons slice rest ih =>
    obtain ⟨rfl, hrest⟩ := h
    have hordered := slice.ordered
    -- The first slice and the rest cut the same bytes in two at the end of the first.
    have hfirst : slice.bytes =
        ((whole.bytes.take stop).drop slice.start).take (slice.stop - slice.start) := by
      rw [bytes, ← List.drop_take, List.take_take, Nat.min_eq_left hrest.le]
    have hothers : (whole.bytes.take stop).drop slice.stop =
        ((whole.bytes.take stop).drop slice.start).drop (slice.stop - slice.start) := by
      rw [List.drop_drop, Nat.add_sub_cancel' hordered]
    rw [List.map_cons, List.flatten_cons, ih hrest, hfirst, hothers, List.take_append_drop]

end Slice

end NemSigner
