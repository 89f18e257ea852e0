import NemSigner.Printer.Basic

/-!
# Writing into cells

A device prints into the cells of a buffer, at positions that it counts itself. Here every position
is looked at before it is used, and a routine that reaches past its cells comes to a fault of its
own. Such a routine is the same as a printer when the fault never happens and the texts agree.

## Main definitions

- `Fault` — why a routine stops
- `Pen` — a routine that writes into cells
- `Pen.behind`, `Pen.within`, `Pen.put`, `Pen.copy` — access to a part of the cells
- `Pen.ofPrinted` — what a printer leaves, as a routine puts it
- `Pen.Writes`, `Pen.Cuts` — behind what is written already a routine writes a text whole, or as
  much of it as fits

## Main statements

- `Pen.Writes.bind`, `Pen.Writes.after` — texts are written one behind the other
- `Pen.Cuts.bind`, `Pen.Cuts.after` — and cut one behind the other
-/

namespace NemSigner

/-- Why a routine stops: it refuses, or it reaches for something that is not there. -/
inductive Fault
  | refused (error : DecodeError)
  | outOfRange
  deriving DecidableEq, Repr

/-- A routine that writes into cells. What it has written when it stops does not matter. -/
abbrev Pen (α : Type) := StateT Bytes (Except Fault) α

namespace Pen

variable {α β : Type}

def refuse (error : DecodeError) : Pen α := fun _ =>
  .error (.refused error)

def room : Pen Nat := fun cells =>
  .ok (cells.length, cells)

/-- Works on the cells from a position on, which must not lie behind the last of them. -/
def behind (start : Nat) (pen : Pen α) : Pen α := fun cells =>
  if start ≤ cells.length then
    (pen (cells.drop start)).map fun (value, left) => (value, cells.take start ++ left)
  else .error .outOfRange

/-- Works on the first cells, of which there must be as many. -/
def within (count : Nat) (pen : Pen α) : Pen α := fun cells =>
  if count ≤ cells.length then
    (pen (cells.take count)).map fun (value, left) => (value, left ++ cells.drop count)
  else .error .outOfRange

/-- Writes one cell. -/
def put (position : Nat) (byte : UInt8) : Pen Unit := fun cells =>
  if position < cells.length then .ok ((), cells.set position byte) else .error .outOfRange

/-- Writes all cells, with as many bytes. -/
def copy (content : Bytes) : Pen Unit := fun cells =>
  if content.length = cells.length then .ok ((), content) else .error .outOfRange

/-- Goes on behind the first cells, and counts them too. -/
def after (pen : Pen Nat) (start : Nat) : Pen Nat := do
  let count ← behind start pen
  return start + count

/-- What a printer leaves, as a routine puts it: the cells are of no use when it fails. -/
def ofPrinted (printed : Printed) : Except Fault (Nat × Bytes) :=
  match printed.outcome with
  | .ok count => .ok (count, printed.buffer)
  | .error error => .error (.refused error)

variable {pen pen' : Pen α} {next : α → Pen β} {cells left : Bytes} {value : α}

theorem pure_eq (value : α) (cells : Bytes) : (pure value : Pen α) cells = .ok (value, cells) :=
  rfl

theorem bind_of_ok (h : pen cells = .ok (value, left)) :
    (pen >>= next) cells = next value left := by
  change (pen cells >>= _) = _
  rw [h]
  rfl

theorem bind_of_error {fault : Fault} (h : pen cells = .error fault) :
    (pen >>= next) cells = .error fault := by
  change (pen cells >>= _) = _
  rw [h]
  rfl

/-- The cells are counted first. -/
theorem room_bind (next : Nat → Pen α) (cells : Bytes) :
    (room >>= next) cells = next cells.length cells :=
  rfl

theorem behind_append (front : Bytes) (pen : Pen α) (cells : Bytes) :
    behind front.length pen (front ++ cells) =
      (pen cells).map fun (value, left) => (value, front ++ left) := by
  have hroom : front.length ≤ (front ++ cells).length := by simp
  rw [behind, if_pos hroom, List.drop_left, List.take_left]

theorem within_append {count : Nat} {front : Bytes} (hfront : front.length = count) (pen : Pen α)
    (cells : Bytes) :
    within count pen (front ++ cells) =
      (pen front).map fun (value, left) => (value, left ++ cells) := by
  subst hfront
  have hroom : front.length ≤ (front ++ cells).length := by simp
  rw [within, if_pos hroom, List.drop_left, List.take_left]

theorem copy_eq {content : Bytes} (h : content.length = cells.length) :
    copy content cells = .ok ((), content) :=
  if_pos h

/-- A text is copied into the first cells when there are enough. -/
theorem within_copy {content : Bytes} (hroom : content.length ≤ cells.length) :
    within content.length (copy content) cells =
      .ok ((), content ++ cells.drop content.length) := by
  have hfront : (cells.take content.length).length = content.length :=
    List.length_take_of_le hroom
  rw [within, if_pos hroom, copy_eq hfront.symm]
  rfl

/-- Behind some cells that are written already the routine writes a text, and counts all of them, or
refuses when there are too few cells for the text. -/
def Writes (front : Bytes) (pen : Pen Nat) (content : Bytes) : Prop :=
  ∀ cells : Bytes, pen (front ++ cells) =
    if content.length ≤ cells.length then
      .ok ((front ++ content).length, front ++ content ++ cells.drop content.length)
    else .error (.refused .notEnoughData)

/-- Behind some cells that are written already the routine writes as much of a text as there are
cells for, and counts all of them. -/
def Cuts (front : Bytes) (pen : Pen Nat) (content : Bytes) : Prop :=
  ∀ cells : Bytes, pen (front ++ cells) =
    .ok ((front ++ content.take cells.length).length,
      front ++ content.take cells.length ++ cells.drop content.length)

variable {front content content' : Bytes} {first second : Pen Nat} {stroke : Nat → Pen Nat}

theorem writes_pure (front : Bytes) : Writes front (pure front.length) [] := by
  intro cells
  simp [pure_eq]

/-- What writes nothing can come before. -/
theorem Writes.silent {pen : Pen α} {next : α → Pen Nat}
    (hpen : ∀ cells, pen cells = .ok (value, cells)) (h : Writes front (next value) content) :
    Writes front (pen >>= next) content := by
  intro cells
  rw [bind_of_ok (hpen _), h]

/-- Texts are written one behind the other. -/
theorem Writes.bind (h : Writes front first content)
    (h' : Writes (front ++ content) (stroke (front ++ content).length) content') :
    Writes front (first >>= stroke) (content ++ content') := by
  intro cells
  have hfirst := h cells
  have hlength : (content ++ content').length = content.length + content'.length :=
    List.length_append
  by_cases hroom : content.length ≤ cells.length
  · rw [if_pos hroom] at hfirst
    rw [bind_of_ok hfirst, h', hlength, List.length_drop, List.drop_drop, ← List.append_assoc]
    by_cases hroom' : content'.length ≤ cells.length - content.length
    · rw [if_pos hroom', if_pos (by omega)]
    · rw [if_neg hroom', if_neg (by omega)]
  · rw [if_neg hroom] at hfirst
    rw [bind_of_error hfirst, if_neg (by omega)]

/-- A routine that starts at the first cell can start behind others. -/
theorem Writes.after (h : Writes [] first content) (front : Bytes) :
    Writes front (after first front.length) content := by
  intro cells
  have hfirst := h cells
  by_cases hroom : content.length ≤ cells.length
  · rw [if_pos hroom] at hfirst ⊢
    have hbehind : behind front.length first (front ++ cells) =
        .ok (content.length, front ++ (content ++ cells.drop content.length)) := by
      rw [behind_append, ← List.nil_append cells, hfirst]
      rfl
    rw [Pen.after, bind_of_ok hbehind, List.append_assoc, List.length_append]
    rfl
  · rw [if_neg hroom] at hfirst ⊢
    refine bind_of_error ?_
    rw [behind_append, ← List.nil_append cells, hfirst]
    rfl

/-- Texts are cut one behind the other. -/
theorem Cuts.bind (h : Cuts front first content)
    (h' : ∀ count, Cuts (front ++ content.take count) (stroke (front ++ content.take count).length)
      content') :
    Cuts front (first >>= stroke) (content ++ content') := by
  intro cells
  have hlength : (content ++ content').length = content.length + content'.length :=
    List.length_append
  rw [bind_of_ok (h cells), h', hlength, List.length_drop, List.take_append, List.drop_drop]
  simp only [List.append_assoc]

theorem Cuts.after (h : Cuts [] first content) (front : Bytes) :
    Cuts front (after first front.length) content := by
  intro cells
  have hbehind : behind front.length first (front ++ cells) =
      .ok ((content.take cells.length).length,
        front ++ (content.take cells.length ++ cells.drop content.length)) := by
    rw [behind_append, ← List.nil_append cells, h cells]
    rfl
  rw [Pen.after, bind_of_ok hbehind, List.append_assoc, List.length_append]
  rfl

/-- To write a text whole is to print it. -/
theorem Writes.eq_ofPrinted {pen : Pen Nat} (h : Writes [] pen content) (cells : Bytes) :
    pen cells = ofPrinted (Printer.text content cells) := by
  have hpen := h cells
  rw [List.nil_append, List.nil_append] at hpen
  rw [hpen, Printer.text]
  split <;> rfl

end Pen

end NemSigner
