import NemSigner.Proofs.Decoder.Loops
import NemSigner.Proofs.Transaction.Grammar

/-!
# The turns of loops

A transaction declares how many mosaics, modifications and properties it has, and its container goes
on for as many bytes as it has. The numbers can be as large as four bytes allow. Whatever they are,
no loop begins more turns than a table has fields, and one, so a limit of as many turns changes no
answer.

## Main statements

- `AttachedMosaic.decode_progresses`, `Modification.decode_progresses`,
  `MosaicProperty.decode_progresses`, `ActionTransaction.decode_progresses` — every turn that is
  completed reads something and collects a field
- `ActionTransaction.decodeAll_endsBy` — the loop over carried transactions needs no limit, and no
  check that a turn has moved the cursor
- `Transaction.decodeBounded_eq` — a limit on the turns changes no answer
- `Transaction.turns_bounded` — all of this of the decoding of any byte string
-/

namespace NemSigner

open Decoder (Course EndsBy Progresses atEnd_bind bind_of_error bind_of_ok counted
  eq_or_beyond_of_min_eq maxTurns position_bind times_congr times_endsBy unread)
open Cursor (readNested_inverts readPrefixed_inverts)

/-! ### Every turn makes progress -/

theorem AttachedMosaic.decode_progresses : Progresses 4 AttachedMosaic.decode := by
  refine decode_decodes.progresses readPrefixed_inverts (fun mosaic _ => ?_) fun mosaic _ => ?_
  · rw [Bytes.length_prefixed]
    exact Nat.le_add_right _ _
  · rw [fields]
    split <;> exact List.cons_ne_nil _ _

theorem Modification.decode_progresses : Progresses 4 Modification.decode := by
  refine decode_decodes.progresses readPrefixed_inverts (fun modification _ => ?_) fun _ _ =>
    List.cons_ne_nil _ _
  rw [Bytes.length_prefixed]
  exact Nat.le_add_right _ _

theorem MosaicProperty.decode_progresses (limit : Nat) :
    Progresses 4 (MosaicProperty.decode limit) := by
  refine (decode_decodes limit).progresses (readNested_inverts limit) (fun property _ => ?_)
    fun _ _ => List.cons_ne_nil _ _
  rw [Bytes.length_prefixed]
  exact Nat.le_add_right _ _

namespace ActionTransaction

theorem decode_progresses (typeId : FieldId) :
    Progresses Limits.headerLength (decode id typeId) := by
  refine (decode_decodes typeId).progresses Header.read_inverts (fun transaction hvalid => ?_)
    fun _ _ => List.cons_ne_nil _ _
  rw [encode, List.length_append, Header.length_encode hvalid.1.valid]
  exact Nat.le_add_right _ _

/-! ### The loop over carried transactions -/

variable {typeId : FieldId} {turns turns' : Nat} {table larger : FieldTable} {cursor next : Cursor}

theorem decodeAll_of_exhausted (hend : cursor.isExhausted = true) :
    decodeAll id typeId turns table cursor = .ok ((), table) cursor := by
  cases turns with
  | zero =>
    rw [decodeAll, atEnd_bind, hend]
    rfl
  | succ turns =>
    rw [decodeAll, atEnd_bind, hend]
    rfl

theorem decodeAll_of_error {error : DecodeError} {stopped : Cursor}
    (hmore : cursor.isExhausted = false)
    (h : decode id typeId table cursor = .error error stopped) :
    decodeAll id typeId (turns + 1) table cursor = .error error stopped := by
  rw [decodeAll, atEnd_bind, hmore]
  exact (position_bind _ _ _).trans (bind_of_error h)

theorem decodeAll_of_ok (hmore : cursor.isExhausted = false)
    (h : decode id typeId table cursor = .ok ((), larger) next) :
    decodeAll id typeId (turns + 1) table cursor = decodeAll id typeId turns larger next := by
  obtain ⟨-, hmoved, -⟩ := decode_progresses typeId _ _ _ _ h
  have hne : next.offset ≠ cursor.offset := by
    simp only [Limits.headerLength] at hmoved
    omega
  rw [decodeAll, atEnd_bind, hmore]
  refine (position_bind _ _ _).trans ((bind_of_ok h).trans ((position_bind _ _ _).trans ?_))
  dsimp only
  rw [if_neg hne]

/-- The loop over carried transactions goes on while bytes are left. Its turns never run out when
there are as many as bytes, or more than the table has room. -/
theorem exists_decodeAll_course (taken : Nat)
    (hturns : Limits.maxFieldCount - table.length < turns ∨ cursor.remaining ≤ turns) :
    ∃ begun, Course unread (decode id typeId) taken table cursor begun
      (decodeAll id typeId turns table cursor) := by
  -- A completed turn takes both away, a field of the room and a header of the bytes.
  induction turns generalizing taken table cursor with
  | zero =>
    have hend : cursor.isExhausted = true := by
      rw [Cursor.isExhausted, beq_iff_eq]
      omega
    rw [decodeAll_of_exhausted hend]
    exact ⟨taken, .done (by simp [unread, hend])⟩
  | succ turns ih =>
    cases hend : cursor.isExhausted with
    | true =>
      rw [decodeAll_of_exhausted hend]
      exact ⟨taken, .done (by simp [unread, hend])⟩
    | false =>
      cases hrun : decode id typeId table cursor with
      | ok result next =>
        obtain ⟨⟨⟩, larger⟩ := result
        obtain ⟨hdata, hmoved, -, -, hgrows⟩ := decode_progresses typeId _ _ _ _ hrun
        have hroom : larger.length ≤ Limits.maxFieldCount := larger.length_le
        have hremaining :
            Limits.maxFieldCount - larger.length < turns ∨ next.remaining ≤ turns := by
          rw [Cursor.isExhausted, beq_eq_false_iff_ne] at hend
          simp only [Cursor.remaining, Cursor.length, hdata, Limits.headerLength] at *
          omega
        obtain ⟨begun, hrest⟩ := ih (taken + 1) hremaining
        rw [decodeAll_of_ok hend hrun]
        exact ⟨begun, .turn hend hrun hrest⟩
      | error error stopped =>
        rw [decodeAll_of_error hend hrun]
        exact ⟨taken + 1, .failed hend hrun⟩

/-- With a turn for each of its bytes the loop over a container is a loop without any limit, and it
begins no more than the most turns. -/
theorem decodeAll_endsBy (typeId : FieldId) (carried : Bytes) (table : FieldTable) :
    EndsBy unread (decode id typeId) table (Cursor.start carried)
      (decodeAll id typeId carried.length table (Cursor.start carried)) := by
  have hremaining : (Cursor.start carried).remaining ≤ carried.length := Nat.sub_le _ _
  obtain ⟨begun, hcourse⟩ := exists_decodeAll_course 0 (.inr hremaining)
  exact hcourse.endsBy (decode_progresses typeId)

/-- Two numbers of turns that the table has no room for come to the same. -/
theorem decodeAll_eq_of_room_lt (hturns : Limits.maxFieldCount - table.length < turns)
    (hturns' : Limits.maxFieldCount - table.length < turns') :
    decodeAll id typeId turns table cursor = decodeAll id typeId turns' table cursor := by
  obtain ⟨begun, hcourse⟩ := exists_decodeAll_course 0 (.inl hturns)
  obtain ⟨begun', hcourse'⟩ := exists_decodeAll_course 0 (.inl hturns')
  exact (hcourse'.unique hcourse).2

end ActionTransaction

/-! ### Limits on the turns -/

section Limits

variable {bound : Nat → Nat} (hbound : ∀ count, min (bound count) maxTurns = min count maxTurns)

include hbound

theorem Transfer.decode_eq (header : Header) : decode bound header = decode id header := by
  have hmosaics (count : Nat) := times_congr AttachedMosaic.decode_progresses (hbound count)
  have hdecode : decodeMosaics bound = decodeMosaics id := by
    funext amount
    simp only [decodeMosaics, hmosaics, id]
  rw [decode, decode, hdecode]

theorem AggregateModification.decode_eq (header : Header) :
    decode bound header = decode id header := by
  have hmodifications (count : Nat) := times_congr Modification.decode_progresses (hbound count)
  simp only [decode, hmodifications, id]

theorem Action.decode_mosaicDefinition_eq (header : Header) :
    MosaicDefinition.decode bound header = MosaicDefinition.decode id header := by
  have hproperties (limit count : Nat) :=
    times_congr (MosaicProperty.decode_progresses limit) (hbound count)
  have hdecode : MosaicDefinition.decodeProper bound = MosaicDefinition.decodeProper id := by
    funext limit
    simp only [MosaicDefinition.decodeProper, hproperties, id]
  rw [MosaicDefinition.decode, MosaicDefinition.decode, hdecode]

theorem Action.decodeCarried_eq (header : Header) :
    decodeCarried bound header = decodeCarried id header := by
  simp only [decodeCarried, Transfer.decode_eq hbound, AggregateModification.decode_eq hbound,
    decode_mosaicDefinition_eq hbound]

namespace ActionTransaction

theorem decode_eq : decode bound = decode id := by
  funext typeId
  simp only [decode, Action.decodeCarried_eq hbound]

theorem decodeAll_eq (typeId : FieldId) (turns : Nat) :
    decodeAll bound typeId (bound turns) = decodeAll id typeId turns := by
  have hdecode (turns : Nat) : decodeAll bound typeId turns = decodeAll id typeId turns := by
    induction turns with
    | zero => rfl
    | succ turns ih => rw [decodeAll, decodeAll, decode_eq hbound, ih]
  rw [hdecode]
  rcases eq_or_beyond_of_min_eq (hbound turns) with hsame | ⟨hturns, hturns'⟩
  · rw [hsame]
  · funext table cursor
    exact decodeAll_eq_of_room_lt (Nat.lt_of_le_of_lt (Nat.sub_le _ _) hturns)
      (Nat.lt_of_le_of_lt (Nat.sub_le _ _) hturns')

theorem decodeWrapped_eq (header : Header) :
    decodeWrapped bound header = decodeWrapped id header := by
  funext typeId
  simp only [decodeWrapped, decodeAll_eq hbound, id]

end ActionTransaction

theorem Content.decode_eq (header : Header) : decode bound header = decode id header := by
  simp only [decode, ActionTransaction.decodeWrapped_eq hbound, Action.decodeCarried_eq hbound]

/-- A limit that lets the most turns through changes no answer. -/
theorem Transaction.decodeBounded_eq (data : Bytes) : decodeBounded bound data = decode data := by
  simp only [decode, decodeBounded, Content.decode_eq hbound]

end Limits

namespace Transaction

/-- The work of decoding is bounded by the table. No count that a transaction declares makes a
difference beyond the most turns, for a result or for an error, and whatever the table and the
cursor are when one of its four loops is entered, the loop ends by that number of turns. The loop
over carried transactions is one that looks at nothing but whether bytes are left: every turn of it
moves the cursor over a header at least and collects a field, so there is none that has moved
nothing. -/
theorem turns_bounded :
    (∀ data, decodeBounded (fun count => min count maxTurns) data = decode data) ∧
    (∀ count table cursor, EndsBy (counted count) AttachedMosaic.decode table cursor
      (Decoder.times count AttachedMosaic.decode table cursor)) ∧
    (∀ count table cursor, EndsBy (counted count) Modification.decode table cursor
      (Decoder.times count Modification.decode table cursor)) ∧
    (∀ limit count table cursor, EndsBy (counted count) (MosaicProperty.decode limit) table cursor
      (Decoder.times count (MosaicProperty.decode limit) table cursor)) ∧
    (∀ typeId carried table,
      EndsBy unread (ActionTransaction.decode id typeId) table (Cursor.start carried)
        (ActionTransaction.decodeAll id typeId carried.length table (Cursor.start carried))) ∧
    ∀ typeId, Progresses Limits.headerLength (ActionTransaction.decode id typeId) :=
  ⟨decodeBounded_eq fun count => Nat.min_eq_left (Nat.min_le_right count maxTurns),
    times_endsBy AttachedMosaic.decode_progresses,
    times_endsBy Modification.decode_progresses,
    fun limit => times_endsBy (MosaicProperty.decode_progresses limit),
    ActionTransaction.decodeAll_endsBy, ActionTransaction.decode_progresses⟩

/-- A transaction that declares as many modifications as four bytes can say, and has one. -/
def overdeclared (modification : Modification) : Bytes :=
  (modifying []).header.encode ++ Bytes.ofNatLE 4 (UInt32.size - 1) ++
    Bytes.prefixed modification.encode

/-- The bytes of one modification. -/
def lone : Bytes := Bytes.prefixed adding.encode

/-- The first turn takes the one modification, and the second finds nothing, so the loop over the
modifications that are declared begins two turns and no more. -/
theorem turns_bounded_overdeclared :
    decode (modifying [adding]).encode = .ok ⟨(modifying [adding]).fields, by decide⟩ ∧
    decode (overdeclared adding) = .error .notEnoughData ∧
    ∀ begun outcome,
      Course (counted (UInt32.size - 1)) Modification.decode 0 FieldTable.empty
          (Cursor.start lone) begun outcome ↔
        begun = 2 ∧ outcome = .error .notEnoughData ⟨lone, lone.length⟩ := by
  obtain ⟨hlimited, -, hmodifications, -⟩ := turns_bounded
  refine ⟨?_, ?_, fun begun outcome => ?_⟩
  · rw [← hlimited]
    rfl
  · rw [← hlimited]
    rfl
  · obtain ⟨turns, -, hcourse⟩ :=
      hmodifications (UInt32.size - 1) FieldTable.empty (Cursor.start lone)
    have hfirst : Modification.decode FieldTable.empty (Cursor.start lone) =
        .ok ((), ⟨adding.fields, by decide⟩) ⟨lone, lone.length⟩ := rfl
    have hsecond : Modification.decode ⟨adding.fields, by decide⟩ ⟨lone, lone.length⟩ =
        .error .notEnoughData ⟨lone, lone.length⟩ := rfl
    obtain ⟨hturns, houtcome⟩ :=
      (hcourse _ _).mp (.turn (show 0 < UInt32.size - 1 by decide) hfirst
        (.failed (show 1 < UInt32.size - 1 by decide) hsecond))
    rw [hcourse, ← hturns, ← houtcome]

end Transaction

end NemSigner
