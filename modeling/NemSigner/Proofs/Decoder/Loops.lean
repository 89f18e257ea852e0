import NemSigner.Proofs.Decoder.Decodes

/-!
# Loops of decoders

A loop of a decoder goes on while it has turns left, or bytes, and nothing in the transaction can be
trusted to end it soon. Every turn collects a field, though, and a table has room for a fixed number
of them, so the turn that finds no room is the last.

## Main definitions

- `Decoder.Course` — the course of a loop: the turns that it begins, and what they come to
- `Decoder.Progresses` — a step that succeeds has read some bytes and collected a field
- `Decoder.maxTurns` — one turn for each field of a table, and one that finds no room
- `Decoder.EndsBy` — a loop has one course, and it begins no more than those turns

## Main statements

- `Decoder.Course.begun_le` — a loop begins no more turns than the table has room, and one
- `Decoder.Course.unique` — a loop has one course
- `Decoder.times_endsBy` — a counted loop has a course, and ends by those turns
- `Decoder.times_congr` — beyond those turns the count of a loop does not matter

## Design notes

The course of a loop is a relation without any bound on the turns, so that a decoder whose turns are
limited can be compared with a loop that has no limit.
-/

namespace NemSigner

namespace Decoder

variable {α β : Type} {cursor next : Cursor} {table larger : FieldTable} {step : Decoder Unit}

/-- What a decoder comes to. -/
abbrev Outcome := EStateM.Result DecodeError Cursor (Unit × FieldTable)

/-- The course of a loop that has taken some turns and goes on while `goesOn` holds of their number
and of the cursor: how many turns it has begun in the end, and what it comes to. Every turn but the
last has to be completed. -/
inductive Course (goesOn : Nat → Cursor → Prop) (step : Decoder Unit) :
    Nat → FieldTable → Cursor → Nat → Outcome → Prop
  | done {taken : Nat} {table : FieldTable} {cursor : Cursor} (hstop : ¬goesOn taken cursor) :
      Course goesOn step taken table cursor taken (.ok ((), table) cursor)
  | failed {taken : Nat} {table : FieldTable} {cursor stopped : Cursor} {error : DecodeError}
      (hmore : goesOn taken cursor) (hstep : step table cursor = .error error stopped) :
      Course goesOn step taken table cursor (taken + 1) (.error error stopped)
  | turn {taken begun : Nat} {table larger : FieldTable} {cursor next : Cursor} {outcome : Outcome}
      (hmore : goesOn taken cursor) (hstep : step table cursor = .ok ((), larger) next)
      (hrest : Course goesOn step (taken + 1) larger next begun outcome) :
      Course goesOn step taken table cursor begun outcome

/-- A counted loop goes on until it has taken as many turns. -/
def counted (count taken : Nat) (_ : Cursor) : Prop :=
  taken < count

/-- A loop over all bytes goes on until none is left. -/
def unread (_ : Nat) (cursor : Cursor) : Prop :=
  cursor.isExhausted = false

/-- A step that succeeds has moved the cursor over so many bytes at least, and put something into
the table behind what was there. -/
def Progresses (bytes : Nat) (step : Decoder Unit) : Prop :=
  ∀ table cursor larger next, step table cursor = .ok ((), larger) next →
    next.data = cursor.data ∧ cursor.offset + bytes ≤ next.offset ∧ next.offset ≤ next.length ∧
      table.toList <+: larger.toList ∧ table.length < larger.length

/-- One turn for each field of a table, and one that finds no room. -/
def maxTurns : Nat := Limits.maxFieldCount + 1

/-- From where it starts the loop has one course. It begins no more than the most turns, and comes
to the outcome. -/
def EndsBy (goesOn : Nat → Cursor → Prop) (step : Decoder Unit) (table : FieldTable)
    (cursor : Cursor) (outcome : Outcome) : Prop :=
  ∃ begun ≤ maxTurns, ∀ begun' outcome',
    Course goesOn step 0 table cursor begun' outcome' ↔ begun' = begun ∧ outcome' = outcome

/-- The end of the bytes is looked for. -/
theorem atEnd_bind (continuation : Bool → Decoder α) (table : FieldTable) (cursor : Cursor) :
    (liftM Cursor.atEnd >>= continuation) table cursor =
      continuation cursor.isExhausted table cursor :=
  rfl

/-- The cursor is asked where it stands. -/
theorem position_bind (continuation : Nat → Decoder α) (table : FieldTable) (cursor : Cursor) :
    (liftM Cursor.position >>= continuation) table cursor =
      continuation cursor.offset table cursor :=
  rfl

/-! ### Steps that make progress -/

/-- A reading that succeeds was begun within the bytes. -/
theorem offset_le_of_read {reading : Cursor.Reading α} {valid : α → Prop} {encode : α → Bytes}
    (hinverts : Cursor.Inverts reading valid encode) {continuation : α → Decoder β} {value : β}
    (hrun : (liftM reading >>= continuation) table cursor = .ok (value, larger) next) :
    cursor.offset ≤ cursor.length := by
  obtain ⟨read, between, middle, hfirst, -⟩ := bind_eq_ok.mp hrun
  obtain ⟨-, hgives⟩ := (hinverts _ _ _).mp (lift_eq_ok.mp hfirst).1
  have hle := hgives.offset_le
  rw [hgives.offset_eq, Cursor.length, hgives.data_eq] at hle
  exact Nat.le_trans (Nat.le_add_right _ _) hle

/-- A decoder of written forms that all have some bytes and some fields makes progress. It starts
with a reading, so that it fails where the cursor stands behind its bytes. -/
theorem Decodes.progresses {reading : Cursor.Reading α} {valid : α → Prop} {encode : α → Bytes}
    {continuation : α → Decoder Unit} {valid' : β → Prop} {encode' : β → Bytes}
    {fields : β → List Field} {bytes : Nat} (hinverts : Cursor.Inverts reading valid encode)
    (h : Decodes (liftM reading >>= continuation) valid' encode' fields)
    (hbytes : ∀ value, valid' value → bytes ≤ (encode' value).length)
    (hfields : ∀ value, valid' value → fields value ≠ []) :
    Progresses bytes (liftM reading >>= continuation) := by
  intro table cursor larger next hrun
  have hinside := offset_le_of_read hinverts hrun
  obtain ⟨_, _, hgives, htable, value, hvalid, rfl, rfl⟩ := h.ensures _ _ _ _ _ hinside hrun
  have hlength := List.length_pos_iff.mpr (hfields value hvalid)
  refine ⟨hgives.data_eq, ?_, hgives.offset_le, ?_, ?_⟩
  · rw [hgives.offset_eq]
    exact Nat.add_le_add_left (hbytes value hvalid) _
  · rw [htable]
    exact List.prefix_append _ _
  · rw [FieldTable.length, FieldTable.length, htable, List.length_append]
    omega

/-! ### Courses -/

section Course

variable {goesOn : Nat → Cursor → Prop} {bytes taken begun begun' : Nat}
variable {outcome outcome' : Outcome}

/-- Each completed turn takes room in the table away, so there is one turn at most for every field
that there is room for, and one more. -/
theorem Course.begun_le (hstep : Progresses bytes step)
    (h : Course goesOn step taken table cursor begun outcome) :
    begun ≤ taken + (Limits.maxFieldCount - table.length) + 1 := by
  induction h with
  | done _ => omega
  | failed _ _ => omega
  | @turn _ _ table larger _ _ _ _ hrun _ ih =>
    obtain ⟨-, -, -, -, hgrows⟩ := hstep _ _ _ _ hrun
    have hroom : larger.length ≤ Limits.maxFieldCount := larger.length_le
    omega

/-- What a loop does next is settled where it stands. -/
theorem Course.unique (h : Course goesOn step taken table cursor begun outcome)
    (h' : Course goesOn step taken table cursor begun' outcome') :
    begun' = begun ∧ outcome' = outcome := by
  induction h with
  | done hstop =>
    cases h' with
    | done _ => exact ⟨rfl, rfl⟩
    | failed hmore _ => exact absurd hmore hstop
    | turn hmore _ _ => exact absurd hmore hstop
  | failed hmore hrun =>
    cases h' with
    | done hstop => exact absurd hmore hstop
    | failed _ hrun' =>
      rw [hrun] at hrun'
      cases hrun'
      exact ⟨rfl, rfl⟩
    | turn _ hrun' _ =>
      rw [hrun] at hrun'
      cases hrun'
  | turn hmore hrun _ ih =>
    cases h' with
    | done hstop => exact absurd hmore hstop
    | failed _ hrun' =>
      rw [hrun] at hrun'
      cases hrun'
    | turn _ hrun' hrest' =>
      rw [hrun] at hrun'
      cases hrun'
      exact ih hrest'

/-- A loop of steps that make progress ends by the most turns as soon as it has any course. -/
theorem Course.endsBy (hstep : Progresses bytes step)
    (h : Course goesOn step 0 table cursor begun outcome) :
    EndsBy goesOn step table cursor outcome := by
  have hbegun := h.begun_le hstep
  refine ⟨begun, ?_, fun begun' outcome' => ⟨h.unique, ?_⟩⟩
  · rw [maxTurns]
    omega
  · rintro ⟨rfl, rfl⟩
    exact h

end Course

/-! ### Counted loops -/

theorem times_succ_of_ok {count : Nat} (h : step table cursor = .ok ((), larger) next) :
    times (count + 1) step table cursor = times count step larger next :=
  bind_of_ok h

theorem times_succ_of_error {count : Nat} {error : DecodeError} {stopped : Cursor}
    (h : step table cursor = .error error stopped) :
    times (count + 1) step table cursor = .error error stopped :=
  bind_of_error h

/-- The turns that are left of a counted loop have a course. -/
theorem exists_times_course (step : Decoder Unit) (count taken : Nat) (table : FieldTable)
    (cursor : Cursor) :
    ∃ begun, Course (counted (taken + count)) step taken table cursor begun
      (times count step table cursor) := by
  induction count generalizing taken table cursor with
  | zero => exact ⟨taken, .done (Nat.lt_irrefl taken)⟩
  | succ count ih =>
    have hmore : counted (taken + (count + 1)) taken cursor := by
      rw [counted]
      omega
    cases hrun : step table cursor with
    | ok result next =>
      obtain ⟨⟨⟩, larger⟩ := result
      obtain ⟨begun, hrest⟩ := ih (taken + 1) larger next
      rw [Nat.add_right_comm, Nat.add_assoc] at hrest
      rw [times_succ_of_ok hrun]
      exact ⟨begun, .turn hmore hrun hrest⟩
    | error error stopped =>
      rw [times_succ_of_error hrun]
      exact ⟨taken + 1, .failed hmore hrun⟩

/-- A counted loop ends by the most turns, whatever its count. -/
theorem times_endsBy {bytes : Nat} (hstep : Progresses bytes step) (count : Nat)
    (table : FieldTable) (cursor : Cursor) :
    EndsBy (counted count) step table cursor (times count step table cursor) := by
  obtain ⟨begun, hcourse⟩ := exists_times_course step count 0 table cursor
  rw [Nat.zero_add] at hcourse
  exact hcourse.endsBy hstep

/-- Two counts that the table has no room for come to the same. -/
theorem times_eq_of_room_lt {bytes count count' : Nat} (hstep : Progresses bytes step)
    (hcount : Limits.maxFieldCount - table.length < count)
    (hcount' : Limits.maxFieldCount - table.length < count') :
    times count step table cursor = times count' step table cursor := by
  induction count generalizing count' table cursor with
  | zero => cases hcount
  | succ count ih =>
    cases count' with
    | zero => cases hcount'
    | succ count' =>
      cases hrun : step table cursor with
      | ok result next =>
        obtain ⟨⟨⟩, larger⟩ := result
        obtain ⟨-, -, -, -, hgrows⟩ := hstep _ _ _ _ hrun
        have hroom : larger.length ≤ Limits.maxFieldCount := larger.length_le
        rw [times_succ_of_ok hrun, times_succ_of_ok hrun]
        exact ih (by omega) (by omega)
      | error error stopped => rw [times_succ_of_error hrun, times_succ_of_error hrun]

/-- Counts are the same, or beyond the most turns, when they are the same up to those. -/
theorem eq_or_beyond_of_min_eq {count count' : Nat} (h : min count maxTurns = min count' maxTurns) :
    count = count' ∨ Limits.maxFieldCount < count ∧ Limits.maxFieldCount < count' := by
  rw [maxTurns] at h
  omega

/-- Beyond the most turns the count of a loop does not matter. -/
theorem times_congr {bytes count count' : Nat} (hstep : Progresses bytes step)
    (h : min count maxTurns = min count' maxTurns) : times count step = times count' step := by
  rcases eq_or_beyond_of_min_eq h with rfl | ⟨hcount, hcount'⟩
  · rfl
  · funext table cursor
    exact times_eq_of_room_lt hstep (Nat.lt_of_le_of_lt (Nat.sub_le _ _) hcount)
      (Nat.lt_of_le_of_lt (Nat.sub_le _ _) hcount')

end Decoder

end NemSigner
