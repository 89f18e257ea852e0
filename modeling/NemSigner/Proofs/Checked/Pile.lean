import NemSigner.Proofs.Checked.Refusal

/-!
# Stacks of cursors

A structure within a structure is read by a cursor of its own, which goes on top of a stack while
the outer ones wait. However the cursors of a stack are asked, each of them hands out its bytes one
behind the other, and what a nested cursor hands out is its outer cursor's to give up.

## Main definitions

- `Pile` — a stack of cursors over one buffer, and all cursors that were on it before
- `Pile.Step`, `Pile.run` — what is done with a stack, once and again
- `WordCursor.Bounded` — the questions of a cursor are answered by how many bytes are left
- `WordCursor.Accounted` — what a cursor has given up is what stands in front of it, each byte once
- `WordCursor.Advances` — a cursor has moved on, over the same bytes
- `Pile.Nested` — each cursor but the first reads what an earlier one has given up

## Main statements

- `Pile.Sound.perform`, `Pile.Sound.run` — what one step keeps, and what any number of steps keep
- `Pile.hands_out_once` — all of this holds of every cursor at any time

## Design notes

A cursor that is taken off the stack stays in the pile, so what is said of all cursors of a pile is
said of it too. Cursors are known by their number in the order in which they were made. A step may
ask a cursor at any depth of the stack, the topmost or one that waits. A question changes nothing,
so no step asks one; the answers are given for every cursor at any time.
-/

namespace NemSigner

namespace Read

variable {whole : Buffer} {read : Read} {cursor : WordCursor whole}

/-- What a read comes to. -/
abbrev Result (whole : Buffer) :=
  EStateM.Result Fault (WordCursor whole) (Yield (Slice whole) (WordCursor whole))

/-- The cursor as a read leaves it. -/
def left : Result whole → WordCursor whole
  | .ok _ next => next
  | .error _ left => left

/-- The cursors that a read makes: one or none. -/
def made : Result whole → List (WordCursor whole)
  | .ok (.inner inner) _ => [inner]
  | _ => []

end Read

namespace WordCursor

variable {whole : Buffer} {cursor middle next : WordCursor whole} {part : Slice whole}

/-- A cursor has moved on: it reads the same bytes, it does not stand further in front, and what it
had given up stays given up. -/
structure Advances (cursor next : WordCursor whole) : Prop where
  slice_eq : next.slice = cursor.slice
  offset_le : cursor.offset ≤ next.offset
  given_prefix : cursor.given <+: next.given

theorem Advances.refl (cursor : WordCursor whole) : cursor.Advances cursor :=
  ⟨rfl, UInt64.le_refl _, List.prefix_refl _⟩

theorem Advances.trans (h : cursor.Advances middle) (h' : middle.Advances next) :
    cursor.Advances next :=
  ⟨h'.slice_eq.trans h.slice_eq, UInt64.le_trans h.offset_le h'.offset_le,
    h.given_prefix.trans h'.given_prefix⟩

theorem Gives.advances (h : cursor.Gives part next) : cursor.Advances next := by
  refine ⟨h.slice_eq, ?_, ?_⟩
  · rw [UInt64.le_iff_toNat_le, h.offset_eq]
    exact Nat.le_add_right _ _
  · rw [h.given_eq]
    exact List.prefix_append _ _

/-- A cursor stands within its bytes, and the slices that it has given up follow one another from
its start to where it stands. The rest of its account follows from this. -/
structure Sound (cursor : WordCursor whole) : Prop where
  offset_le : cursor.offset ≤ cursor.slice.length
  tiles : Slice.Tiles cursor.slice.start cursor.given (cursor.slice.start + cursor.offset.toNat)

theorem start_sound (slice : Slice whole) : (start slice).Sound where
  offset_le := UInt64.zero_le
  tiles := Slice.tiles_nil _

theorem Gives.sound (h : cursor.Gives part next) (hsound : cursor.Sound) : next.Sound := by
  refine ⟨h.offset_le, ?_⟩
  rw [h.slice_eq, h.given_eq, ← h.stop_eq]
  refine hsound.tiles.append ?_
  rw [← h.start_eq]
  exact Slice.tiles_singleton part

/-- What a cursor has given up: slices that follow one another, none of which overlaps another,
which cover exactly the positions in front of where the cursor stands, and whose bytes are the bytes
there. -/
structure Accounted (cursor : WordCursor whole) : Prop where
  consecutive : Slice.Tiles cursor.slice.start cursor.given
    (cursor.slice.start + cursor.offset.toNat)
  disjoint : cursor.given.Pairwise fun earlier later => earlier.stop ≤ later.start
  covering : ∀ position, (∃ part ∈ cursor.given, part.start ≤ position ∧ position < part.stop) ↔
    cursor.slice.start ≤ position ∧ position < cursor.slice.start + cursor.offset.toNat
  contents : (cursor.given.map Slice.bytes).flatten =
    cursor.slice.bytes.take cursor.offset.toNat

theorem Sound.accounted (h : cursor.Sound) : cursor.Accounted where
  consecutive := h.tiles
  disjoint := h.tiles.pairwise
  covering := h.tiles.exists_mem_iff
  contents := by
    have hle := UInt64.le_iff_toNat_le.mp h.offset_le
    have hordered := cursor.slice.ordered
    rw [Slice.toNat_length] at hle
    rw [h.tiles.flatten_bytes, Slice.bytes, List.drop_take, List.drop_take, List.take_take]
    congr 1
    omega

/-- The questions of a cursor, and the two reads of a given number of bytes, are answered by how
many bytes are left. That number is never negative, and no sum is too large for it. The cursor that
is held answers in the same way. -/
structure Bounded (cursor : WordCursor whole) : Prop where
  offset_le : cursor.offset ≤ cursor.slice.length
  remaining_eq : cursor.remaining = .ok (cursor.slice.length - cursor.offset)
  remaining_held : cursor.held.remaining = (cursor.slice.length - cursor.offset).toNat
  finish_eq : finish cursor =
    if cursor.offset = cursor.slice.length then .ok () cursor
    else .error (.refused .invalidData) cursor
  finish_held : Cursor.finish cursor.held =
    if cursor.offset = cursor.slice.length then .ok () cursor.held
    else .error .invalidData cursor.held
  hasData_iff : ∀ count,
    cursor.hasData count = true ↔ count ≤ cursor.slice.length - cursor.offset
  hasData_held : ∀ count, cursor.held.hasData count.toNat = cursor.hasData count
  readBytes_iff : ∀ count,
    (∃ part next, readBytes count cursor = .ok part next) ↔
      count ≤ cursor.slice.length - cursor.offset
  split_iff : ∀ count,
    (∃ inner next, split count cursor = .ok inner next) ↔
      count ≤ cursor.slice.length - cursor.offset

theorem Sound.toNat_left (h : cursor.Sound) :
    (cursor.slice.length - cursor.offset).toNat =
      cursor.slice.stop - cursor.slice.start - cursor.offset.toNat := by
  rw [UInt64.toNat_sub_of_le _ _ h.offset_le, Slice.toNat_length]

/-- Whether there are bytes for a read is decided by how many are left. -/
theorem Sound.hasData_iff (h : cursor.Sound) (count : UInt64) :
    cursor.hasData count = true ↔ count ≤ cursor.slice.length - cursor.offset := by
  have hle := UInt64.le_iff_toNat_le.mp h.offset_le
  rw [Slice.toNat_length] at hle
  rw [WordCursor.hasData_iff, UInt64.le_iff_toNat_le, h.toNat_left]
  omega

theorem Sound.remaining_held (h : cursor.Sound) :
    cursor.held.remaining = (cursor.slice.length - cursor.offset).toNat := by
  rw [h.toNat_left, Cursor.remaining, Cursor.length, held, Slice.length_bytes]

/-- Nothing is left where the cursor stands behind its last byte, and only there. -/
theorem Sound.left_eq_zero (h : cursor.Sound) :
    cursor.slice.length - cursor.offset = 0 ↔ cursor.offset = cursor.slice.length := by
  have hle := UInt64.le_iff_toNat_le.mp h.offset_le
  rw [← UInt64.toNat_inj, ← UInt64.toNat_inj, UInt64.toNat_sub_of_le _ _ h.offset_le]
  change _ = 0 ↔ _
  omega

theorem Sound.finish_eq (h : cursor.Sound) :
    finish cursor =
      if cursor.offset = cursor.slice.length then .ok () cursor
      else .error (.refused .invalidData) cursor := by
  have hend : cursor.isExhausted = .ok (cursor.slice.length - cursor.offset == 0) := by
    rw [isExhausted, remaining, if_pos h.offset_le]
    rfl
  rw [finish, hend]
  by_cases hoffset : cursor.offset = cursor.slice.length
  · rw [if_pos hoffset, beq_iff_eq.mpr (h.left_eq_zero.mpr hoffset)]
  · rw [if_neg hoffset, beq_eq_false_iff_ne.mpr (mt h.left_eq_zero.mp hoffset)]

theorem Sound.finish_held (h : cursor.Sound) :
    Cursor.finish cursor.held =
      if cursor.offset = cursor.slice.length then .ok () cursor.held
      else .error .invalidData cursor.held := by
  have hend : cursor.held.isExhausted = true ↔ cursor.offset = cursor.slice.length := by
    rw [Cursor.isExhausted, h.remaining_held, beq_iff_eq, ← h.left_eq_zero, ← UInt64.toNat_inj]
    rfl
  rw [Cursor.finish]
  simp only [hend]

theorem Sound.bounded (h : cursor.Sound) : cursor.Bounded where
  offset_le := h.offset_le
  remaining_eq := if_pos h.offset_le
  remaining_held := h.remaining_held
  finish_eq := h.finish_eq
  finish_held := h.finish_held
  hasData_iff := h.hasData_iff
  hasData_held := cursor.hasData_held
  readBytes_iff count := exists_readBytes_iff.trans (h.hasData_iff count)
  split_iff count := exists_split_iff.trans (h.hasData_iff count)

end WordCursor

namespace Read

variable {whole : Buffer} {read : Read} {cursor : WordCursor whole} {result : Result whole}

/-- Whatever a read comes to, the cursor has at most moved on. -/
theorem Outcome.advances (h : Outcome cursor read result) : cursor.Advances (left result) := by
  cases h with
  | refused _ => exact .refl cursor
  | given _ hpart _ => exact hpart.advances
  | halfRefused hsize _ _ => exact hsize.advances
  | bothGiven hsize _ hpart _ => exact hsize.advances.trans hpart.advances

theorem Outcome.sound (h : Outcome cursor read result) (hsound : cursor.Sound) :
    (left result).Sound := by
  cases h with
  | refused _ => exact hsound
  | given _ hpart _ => exact hpart.sound hsound
  | halfRefused hsize _ _ => exact hsize.sound hsound
  | bothGiven hsize _ hpart _ => exact hpart.sound (hsize.sound hsound)

/-- A cursor is made over what has just been given up. -/
theorem Outcome.made_cases (h : Outcome cursor read result) :
    made result = [] ∨
      ∃ part, made result = [.start part] ∧ cursor.Gives part (left result) := by
  cases h with
  | refused _ => exact .inl rfl
  | @given _ part _ _ hpart _ =>
    cases read with
    | split count => exact .inr ⟨part, rfl, hpart⟩
    | _ => exact .inl rfl
  | halfRefused _ _ _ => exact .inl rfl
  | bothGiven _ _ _ _ => exact .inl rfl

end Read

/-- A stack of cursors over one buffer. -/
structure Pile (whole : Buffer) where
  /-- All cursors that were ever made, in the order in which they were made. -/
  cursors : List (WordCursor whole)
  /-- The numbers of the cursors on the stack, the topmost first. -/
  stack : List Nat

namespace Pile

variable {whole : Buffer} {pile middle later : Pile whole} {cursor : WordCursor whole}
variable {number : Nat}

/-- What is done with a stack of cursors. -/
inductive Step
  /-- The cursor at a depth of the stack is asked for something; the topmost has depth zero. -/
  | ask (depth : Nat) (read : Read)
  /-- The topmost cursor is taken off, unless it is the last. -/
  | pop
  deriving DecidableEq, Repr

/-- One cursor over all of a buffer. -/
def start (whole : Buffer) : Pile whole :=
  ⟨[.start (.all whole)], [0]⟩

/-- The pile after a cursor, given by its number, has been asked. A cursor that is made is put on
top. -/
def ask (pile : Pile whole) (number : Nat) (read : Read) : Pile whole :=
  match pile.cursors[number]? with
  | none => pile
  | some cursor =>
    let result := read.perform cursor
    { cursors := pile.cursors.set number (Read.left result) ++ Read.made result
      stack := (Read.made result).map (fun _ => pile.cursors.length) ++ pile.stack }

def perform (pile : Pile whole) : Step → Pile whole
  | .ask depth read =>
    match pile.stack[depth]? with
    | none => pile
    | some number => pile.ask number read
  | .pop =>
    match pile.stack with
    | _ :: outer :: others => { pile with stack := outer :: others }
    | _ => pile

def run (pile : Pile whole) (steps : List Step) : Pile whole :=
  steps.foldl perform pile

/-- The first cursor reads all of the buffer, and each other one reads a slice that an earlier
cursor has given up. -/
structure Nested (pile : Pile whole) : Prop where
  first : ∃ cursor, pile.cursors[0]? = some cursor ∧ cursor.slice = .all whole
  others : ∀ number cursor, 0 < number → pile.cursors[number]? = some cursor →
    ∃ outer < number, ∃ giver, pile.cursors[outer]? = some giver ∧ cursor.slice ∈ giver.given

/-- Every cursor of a pile is found in the later pile, and has at most moved on. -/
def Advances (pile later : Pile whole) : Prop :=
  ∀ (number : Nat) (cursor : WordCursor whole), pile.cursors[number]? = some cursor →
    ∃ next, later.cursors[number]? = some next ∧ cursor.Advances next

theorem Advances.refl (pile : Pile whole) : pile.Advances pile :=
  fun _ cursor h => ⟨cursor, h, .refl cursor⟩

theorem Advances.trans (h : pile.Advances middle) (h' : middle.Advances later) :
    pile.Advances later := by
  intro number cursor hcursor
  obtain ⟨between, hbetween, hfirst⟩ := h number cursor hcursor
  obtain ⟨next, hnext, hsecond⟩ := h' number between hbetween
  exact ⟨next, hnext, hfirst.trans hsecond⟩

/-- What holds of a pile at any time. -/
structure Sound (pile : Pile whole) : Prop where
  cursors : ∀ cursor ∈ pile.cursors, cursor.Sound
  nested : pile.Nested
  stacked : ∀ number ∈ pile.stack, number < pile.cursors.length

theorem start_sound (whole : Buffer) : (start whole).Sound where
  cursors := by
    intro cursor hmem
    rw [List.mem_singleton.mp hmem]
    exact WordCursor.start_sound _
  nested := by
    refine ⟨⟨_, rfl, rfl⟩, fun number cursor hnumber hcursor => ?_⟩
    have hlt : number < 1 := (List.getElem?_eq_some_iff.mp hcursor).1
    omega
  stacked := by
    intro number hmem
    rw [List.mem_singleton.mp hmem]
    exact Nat.one_pos

section Asked

variable {cursors made : List (WordCursor whole)} {place : Nat} {read : Read}

theorem getElem?_asked_self (h : number < cursors.length) (next : WordCursor whole) :
    (cursors.set number next ++ made)[number]? = some next := by
  rw [List.getElem?_append_left (by rwa [List.length_set]), List.getElem?_set_self h]

theorem getElem?_asked_ne (h : place < cursors.length) (hne : number ≠ place)
    (next : WordCursor whole) : (cursors.set number next ++ made)[place]? = cursors[place]? := by
  rw [List.getElem?_append_left (by rwa [List.length_set]), List.getElem?_set_ne hne]

/-- The cursors that were there before stay in their places when one of them is asked. -/
theorem ask_advances (pile : Pile whole) (number : Nat) (read : Read) :
    pile.Advances (pile.ask number read) := by
  intro place cursor hcursor
  rw [ask]
  cases hasked : pile.cursors[number]? with
  | none => exact ⟨cursor, hcursor, .refl cursor⟩
  | some asked =>
    have hplace : place < pile.cursors.length := (List.getElem?_eq_some_iff.mp hcursor).1
    dsimp only
    by_cases hsame : number = place
    · subst hsame
      obtain rfl : asked = cursor := Option.some.inj (hasked.symm.trans hcursor)
      exact ⟨_, getElem?_asked_self hplace _, (read.perform_outcome asked).advances⟩
    · rw [getElem?_asked_ne hplace hsame]
      exact ⟨cursor, hcursor, .refl cursor⟩

/-- A cursor that is there when one has been asked was there before, or it has just been made over
what the one that was asked has given up. -/
theorem ask_origin (h : (pile.ask number read).cursors[place]? = some cursor) :
    (∃ before, pile.cursors[place]? = some before ∧ before.Advances cursor ∧
      (before.Sound → cursor.Sound)) ∨
    ∃ part giver, cursor = .start part ∧ number < place ∧
      (pile.ask number read).cursors[number]? = some giver ∧ part ∈ giver.given := by
  rw [ask] at h ⊢
  cases hasked : pile.cursors[number]? with
  | none =>
    rw [hasked] at h
    exact .inl ⟨cursor, h, .refl cursor, id⟩
  | some asked =>
    rw [hasked] at h
    have houtcome := read.perform_outcome asked
    have hnumber : number < pile.cursors.length := (List.getElem?_eq_some_iff.mp hasked).1
    dsimp only at h ⊢
    by_cases hplace : place < pile.cursors.length
    · by_cases hsame : number = place
      · subst hsame
        rw [getElem?_asked_self hplace] at h
        cases h
        exact .inl ⟨asked, hasked, houtcome.advances, houtcome.sound⟩
      · rw [getElem?_asked_ne hplace hsame] at h
        exact .inl ⟨cursor, h, .refl cursor, id⟩
    · -- No cursor stood here before, so it is the one that the read has made.
      rw [List.getElem?_append_right (by simpa using hplace), List.length_set] at h
      rcases houtcome.made_cases with hmade | ⟨part, hmade, hgives⟩
      · rw [hmade] at h
        cases h
      · rw [hmade, List.getElem?_singleton] at h
        split at h
        · cases h
          refine .inr ⟨part, Read.left (read.perform asked), rfl,
            Nat.lt_of_lt_of_le hnumber (Nat.le_of_not_lt hplace), getElem?_asked_self hnumber _, ?_⟩
          rw [hgives.given_eq]
          exact List.mem_append_right _ (List.mem_singleton_self part)
        · cases h

theorem Nested.ask (h : pile.Nested) (number : Nat) (read : Read) :
    (pile.ask number read).Nested := by
  constructor
  · obtain ⟨cursor, hcursor, hslice⟩ := h.first
    obtain ⟨next, hnext, hadvances⟩ := pile.ask_advances number read 0 cursor hcursor
    exact ⟨next, hnext, hadvances.slice_eq.trans hslice⟩
  · intro place cursor hplace hcursor
    rcases ask_origin hcursor with
      ⟨before, hbefore, hadvances, -⟩ | ⟨part, giver, rfl, hlt, hgiver, hpart⟩
    · obtain ⟨outer, hlt, giver, hgiver, hgiven⟩ := h.others place before hplace hbefore
      obtain ⟨giver', hgiver', hmore⟩ := pile.ask_advances number read outer giver hgiver
      rw [hadvances.slice_eq]
      exact ⟨outer, hlt, giver', hgiver', hmore.given_prefix.subset hgiven⟩
    · exact ⟨number, hlt, giver, hgiver, hpart⟩

/-- A cursor that has just been made is on the stack by its number. -/
theorem stacked_ask (h : ∀ number ∈ pile.stack, number < pile.cursors.length) (number : Nat)
    (read : Read) :
    ∀ place ∈ (pile.ask number read).stack, place < (pile.ask number read).cursors.length := by
  intro place hmem
  rw [ask] at hmem ⊢
  cases hasked : pile.cursors[number]? with
  | none =>
    rw [hasked] at hmem
    exact h place hmem
  | some asked =>
    rw [hasked] at hmem
    dsimp only at hmem ⊢
    rw [List.length_append, List.length_set]
    rcases List.mem_append.mp hmem with hnew | hold
    · obtain ⟨inner, hinner, rfl⟩ := List.mem_map.mp hnew
      exact Nat.lt_add_of_pos_right (List.length_pos_of_mem hinner)
    · exact Nat.lt_add_right _ (h place hold)

end Asked

/-- What one cursor does when it is asked keeps a pile sound. -/
theorem Sound.ask (h : pile.Sound) (number : Nat) (read : Read) : (pile.ask number read).Sound where
  cursors := by
    intro cursor hmem
    obtain ⟨place, hcursor⟩ := List.mem_iff_getElem?.mp hmem
    rcases ask_origin hcursor with ⟨before, hbefore, -, hsound⟩ | ⟨part, -, rfl, -⟩
    · exact hsound (h.cursors before (List.mem_of_getElem? hbefore))
    · exact WordCursor.start_sound part
  nested := h.nested.ask number read
  stacked := stacked_ask h.stacked number read

/-- What one step keeps. -/
theorem Sound.perform (h : pile.Sound) (step : Step) :
    (pile.perform step).Sound ∧ pile.Advances (pile.perform step) := by
  cases step with
  | ask depth read =>
    rw [Pile.perform]
    cases pile.stack[depth]? with
    | none => exact ⟨h, .refl pile⟩
    | some number => exact ⟨h.ask number read, pile.ask_advances number read⟩
  | pop =>
    rw [Pile.perform]
    split
    · next hstack =>
      refine ⟨⟨h.cursors, ⟨h.nested.first, h.nested.others⟩, fun number hmem => ?_⟩, .refl pile⟩
      refine h.stacked number ?_
      rw [hstack]
      exact List.mem_cons_of_mem _ hmem
    · exact ⟨h, .refl pile⟩

/-- What any number of steps keep. -/
theorem Sound.run (h : pile.Sound) (steps : List Step) :
    (pile.run steps).Sound ∧ pile.Advances (pile.run steps) := by
  induction steps generalizing pile with
  | nil => exact ⟨h, .refl pile⟩
  | cons step rest ih =>
    obtain ⟨hsound, hadvances⟩ := h.perform step
    obtain ⟨hsounds, hmore⟩ := ih hsound
    exact ⟨hsounds, hadvances.trans hmore⟩

/-- At any time every cursor of a pile stands within its bytes, and answers by how many of them are
left. A read of it comes to one of the outcomes, so no position is ever out of range, and what has
been handed out are exactly the bytes in front of where it stands, each of them once. A nested
cursor reads what an earlier one has given up, no later step takes anything back, and all of this is
what the cursors that are held do. -/
theorem hands_out_once (whole : Buffer) (steps later : List Step) :
    (∀ cursor ∈ ((start whole).run steps).cursors,
      cursor.Bounded ∧ cursor.Accounted ∧
        ∀ read : Read, Read.Outcome cursor read (read.perform cursor)) ∧
    ((start whole).run steps).Nested ∧
    (∀ number ∈ ((start whole).run steps).stack,
      number < ((start whole).run steps).cursors.length) ∧
    ((start whole).run steps).Advances ((start whole).run (steps ++ later)) ∧
    ∀ read : Read, WordCursor.Follows (Yield.map Slice.bytes WordCursor.held)
      (read.perform : WordCursor.Reading whole _) read.run := by
  have hsound := ((start_sound whole).run steps).1
  refine ⟨fun cursor hmem => ?_, hsound.nested, hsound.stacked, ?_, Read.perform_follows⟩
  · have hcursor := hsound.cursors cursor hmem
    exact ⟨hcursor.bounded, hcursor.accounted, fun read => read.perform_outcome cursor⟩
  · rw [run, run, List.foldl_append]
    exact (hsound.run later).2

/-- Two bytes of a nested cursor, and the rest of the outer one when it has been taken off. -/
example :
    let steps := [.ask 0 (.split 3), .ask 0 (.bytes 2), .pop, .ask 0 (.integer 2)]
    (run (start ⟨[1, 2, 3, 4, 5], by decide⟩) steps).cursors.map
        (fun cursor => cursor.given.map fun part => (part.start, part.stop)) =
      [[(0, 3), (3, 5)], [(0, 2)]] := by
  decide

end Pile

end NemSigner
