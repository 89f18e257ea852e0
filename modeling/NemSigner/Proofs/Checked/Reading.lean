import NemSigner.Proofs.Checked.Pen
import NemSigner.Proofs.Cursor.Inversion

/-!
# Reading from bytes, checked

A cursor asks whether bytes are there before it takes them, so the positions it takes them from are
in range. The readings that a shown field is read with fail for want of bytes and for nothing else.

## Main definitions

- `Cursor.Taking` — a reading in which every position is looked at
- `Cursor.Follows` — a reading of that kind does what an ordinary one does

## Main statements

- `Cursor.Follows.bind` — readings are followed one behind the other
- `Cursor.takeUInt_follows`, `Cursor.takeNames_follows` — integers and names
-/

namespace NemSigner

namespace Cursor

/-- A reading in which every position is looked at before it is used. -/
abbrev Taking (α : Type) := StateT Cursor (Except Fault) α

variable {α β : Type}

/-- Takes exactly `count` bytes, from one position to another. -/
def takeBytes (count : Nat) : Taking Bytes := fun cursor =>
  if cursor.hasData count then
    let stop := cursor.offset + count
    if cursor.offset ≤ stop ∧ stop ≤ cursor.data.length then
      .ok ((cursor.data.take stop).drop cursor.offset, { cursor with offset := stop })
    else .error .outOfRange
  else .error (.refused .notEnoughData)

/-- The integer in the first bytes, of which there must be enough. -/
def littleEnd (width : Nat) (data : Bytes) : Taking Nat := fun cursor =>
  if width ≤ data.length then .ok (Bytes.toNatLE (data.take width), cursor)
  else .error .outOfRange

def takeUInt (width : Nat) : Taking Nat := do
  let data ← takeBytes width
  littleEnd width data

def takePrefixed : Taking Bytes := do
  let count ← takeUInt 4
  takeBytes count

def takeNames : Taking (Bytes × Bytes) := do
  let first ← takePrefixed
  let second ← takePrefixed
  return (first, second)

/-- Both give the same value and leave the same cursor, or both fail for want of bytes. -/
def Follows (taking : Taking α) (reading : Reading α) : Prop :=
  ∀ cursor : Cursor,
    (∃ value next, reading cursor = .ok value next ∧ taking cursor = .ok (value, next)) ∨
      ∃ left, reading cursor = .error .notEnoughData left ∧
        taking cursor = .error (.refused .notEnoughData)

theorem Follows.pure (value : α) : Follows (pure value) (pure value) :=
  fun cursor => .inl ⟨value, cursor, rfl, rfl⟩

theorem Follows.bind {taking : Taking α} {reading : Reading α} {takingNext : α → Taking β}
    {readingNext : α → Reading β} (h : Follows taking reading)
    (hnext : ∀ value, Follows (takingNext value) (readingNext value)) :
    Follows (taking >>= takingNext) (reading >>= readingNext) := by
  intro cursor
  have htaking : (taking >>= takingNext) cursor =
      (taking cursor >>= fun (value, next) => takingNext value next) := rfl
  have hreading : (reading >>= readingNext) cursor = EStateM.bind reading readingNext cursor := rfl
  rw [htaking, hreading, EStateM.bind]
  rcases h cursor with ⟨value, next, hread, htake⟩ | ⟨left, hread, htake⟩
  · rw [hread, htake]
    exact hnext value next
  · rw [hread, htake]
    exact .inr ⟨left, rfl, rfl⟩

theorem takeBytes_follows (count : Nat) : Follows (takeBytes count) (readBytes count) := by
  intro cursor
  rw [takeBytes, readBytes]
  by_cases hdata : cursor.hasData count = true
  · have hstop : cursor.offset + count ≤ cursor.data.length := hasData_iff.mp hdata
    have hbytes : (cursor.data.take (cursor.offset + count)).drop cursor.offset =
        cursor.rest.take count := by
      rw [rest, List.drop_take, Nat.add_sub_cancel_left]
    rw [if_pos hdata, if_pos hdata]
    dsimp only
    rw [if_pos ⟨Nat.le_add_right _ _, hstop⟩, hbytes]
    exact .inl ⟨_, _, rfl, rfl⟩
  · rw [if_neg hdata, if_neg hdata]
    exact .inr ⟨_, rfl, rfl⟩

theorem takeUInt_follows (width : Nat) : Follows (takeUInt width) (readUInt width) := by
  intro cursor
  have htaking : takeUInt width cursor =
      (takeBytes width cursor >>= fun (data, next) => littleEnd width data next) := rfl
  have hreading : readUInt width cursor =
      EStateM.bind (readBytes width) (fun data => pure (Bytes.toNatLE data)) cursor := rfl
  rw [htaking, hreading, EStateM.bind]
  rcases takeBytes_follows width cursor with ⟨data, next, hread, htake⟩ | ⟨left, hread, htake⟩
  · have hlength : data.length = width := ((readBytes_inverts width _ _ _).mp hread).1
    have hvalue : littleEnd width data next = .ok (Bytes.toNatLE data, next) := by
      rw [littleEnd, if_pos (Nat.le_of_eq hlength.symm),
        List.take_of_length_le (Nat.le_of_eq hlength)]
    rw [hread, htake]
    exact .inl ⟨Bytes.toNatLE data, next, rfl, hvalue⟩
  · rw [hread, htake]
    exact .inr ⟨left, rfl, rfl⟩

theorem takePrefixed_follows : Follows takePrefixed readPrefixed :=
  (takeUInt_follows 4).bind takeBytes_follows

theorem takeNames_follows : Follows takeNames readNames :=
  takePrefixed_follows.bind fun _ => takePrefixed_follows.bind fun _ => .pure _

end Cursor

namespace Pen

variable {α : Type}

/-- Takes a value from the front of some other bytes. -/
def read (data : Bytes) (taking : Cursor.Taking α) : Pen α := fun cells =>
  match taking (Cursor.start data) with
  | .ok (value, _) => .ok (value, cells)
  | .error fault => .error fault

/-- A value is taken as it is read, or both fail for want of bytes. -/
theorem read_of_follows {taking : Cursor.Taking α} {reading : Cursor.Reading α}
    (h : Cursor.Follows taking reading) (data : Bytes) :
    (∃ value, Cursor.readAll reading data = .ok value ∧
        ∀ cells, read data taking cells = .ok (value, cells)) ∨
      Cursor.readAll reading data = .error .notEnoughData ∧
        ∀ cells, read data taking cells = .error (.refused .notEnoughData) := by
  rcases h (Cursor.start data) with ⟨value, next, hread, htake⟩ | ⟨left, hread, htake⟩
  · refine .inl ⟨value, ?_, fun cells => ?_⟩
    · rw [Cursor.readAll, hread]
    · rw [read, htake]
  · refine .inr ⟨?_, fun cells => ?_⟩
    · rw [Cursor.readAll, hread]
    · rw [read, htake]

end Pen

end NemSigner
