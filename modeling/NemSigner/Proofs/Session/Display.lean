import NemSigner.Proofs.Field.Label
import NemSigner.Proofs.Field.Value
import NemSigner.Proofs.Session.Reachable

/-!
# A transaction under review can be shown

A session lets the user decide on a transaction only when it can be decoded, and every field that
decoding gives has a label and a value. So the user can be shown all of what the signature will be
for.

## Main statements

- `FieldTable.get_of_lt`, `FieldTable.get_of_length_le` — which positions of a table hold a field
- `Session.render_of_get` — what is shown at a position
- `Session.Reachable.render_legible` — every field of a transaction under review can be shown
-/

namespace NemSigner

namespace FieldTable

variable {table : FieldTable} {index : Nat}

theorem get_of_lt (h : index < table.length) :
    ∃ field ∈ table.toList, table.get index = .ok field := by
  cases hfield : table.toList[index]? with
  | none => exact absurd (List.getElem?_eq_none_iff.mp hfield) (Nat.not_le_of_lt h)
  | some field =>
    refine ⟨field, List.mem_of_getElem? hfield, ?_⟩
    rw [get, hfield]

theorem get_of_length_le (h : table.length ≤ index) : table.get index = .error .invalidData := by
  rw [get, List.getElem?_eq_none h]

end FieldTable

namespace Session

variable {draft : Draft} {table : FieldTable} {index : Nat} {labelBuffer valueBuffer : Bytes}

theorem fields_reviewing (htable : Transaction.decode draft.data = .ok table) :
    (reviewing draft).fields = .ok table := by
  rw [fields, htable]
  rfl

/-- The label and the value of the field at a position. -/
theorem render_of_get {field : Field} {value : Bytes}
    (htable : Transaction.decode draft.data = .ok table) (hfield : table.get index = .ok field)
    (hvalue : field.value draft.network valueBuffer = .ok value) :
    (reviewing draft).render index labelBuffer valueBuffer =
      .ok (field.label labelBuffer, value) := by
  have hget : (table.get index).mapError SessionError.ofDecode = .ok field := by
    rw [hfield]
    rfl
  have hshown : (field.value draft.network valueBuffer).mapError SessionError.ofDecode =
      .ok value := by
    rw [hvalue]
    rfl
  simp only [render, network?, draft?, Option.map_some, fields_reviewing htable, bind, Except.bind,
    hget, hshown]
  rfl

/-- Where there is no field there is nothing to be shown. -/
theorem render_of_get_error {error : DecodeError}
    (htable : Transaction.decode draft.data = .ok table) (hfield : table.get index = .error error) :
    (reviewing draft).render index labelBuffer valueBuffer = .error .incorrectData := by
  have hget : (table.get index).mapError SessionError.ofDecode = .error .incorrectData := by
    rw [hfield]
    rfl
  simp only [render, network?, draft?, Option.map_some, fields_reviewing htable, bind, Except.bind,
    hget]

/-- A session that waits for the user has a table of fields. At each position of the table there is
a label and a value to be shown, whatever the buffers hold, as long as there is room for one byte of
the label and sixty-four of the value. Only a property can be labelled as unknown, when its name is
empty or says so. There is nothing to be shown at any other position. -/
theorem Reachable.render_legible {session : Session} (h : session.Reachable)
    (hreview : session.state = .pendingReview) :
    ∃ table, session.fields = .ok table ∧
      (∀ index < table.length, ∀ labelBuffer valueBuffer : Bytes,
        1 ≤ labelBuffer.length → 64 ≤ valueBuffer.length →
        ∃ label value : Bytes, session.render index labelBuffer valueBuffer = .ok (label, value) ∧
          label.Legible ∧ value.Legible ∧
          (label = Bytes.ofText Field.unknownLabel →
            ∃ property : MosaicProperty, table.get index = .ok property.field ∧
              (property.name = [] ∨
                (Printer.sanitised property.name).run labelBuffer =
                  .ok (Bytes.ofText Field.unknownLabel)))) ∧
      ∀ index, table.length ≤ index → ∀ labelBuffer valueBuffer : Bytes,
        session.render index labelBuffer valueBuffer = .error .incorrectData := by
  have hsound := h.sound
  cases session with
  | idle => cases hreview
  | receiving draft => cases hreview
  | reviewing draft =>
    obtain ⟨-, table, htable⟩ := hsound
    refine ⟨table, fields_reviewing htable, ?_, ?_⟩
    · intro index hindex labelBuffer valueBuffer hlabel hvalue
      obtain ⟨field, hmem, hfield⟩ := FieldTable.get_of_lt hindex
      have hreviewable := Transaction.reviewable_of_decode htable field hmem
      obtain ⟨value, hshown, hlegible⟩ := hreviewable.value_legible draft.network hvalue
      refine ⟨field.label labelBuffer, value, render_of_get htable hfield hshown,
        hreviewable.label_legible labelBuffer, hlegible, fun hunknown => ?_⟩
      obtain ⟨property, rfl, hname⟩ := hreviewable.property_of_label hlabel hunknown
      exact ⟨property, hfield, hname⟩
    · intro index hindex labelBuffer valueBuffer
      exact render_of_get_error htable (FieldTable.get_of_length_le hindex)

/-- A session that has taken a transaction in one chunk. -/
def delivered : Session :=
  (idle.perform (fun _ => none)
    (.update (.signInit Station.testPath false (Transaction.modifying []).encode))).1

/-- The number of modifications, of which there are none, is shown in a buffer that has just enough
room. -/
theorem Reachable.render_legible_delivered :
    delivered.Reachable ∧ delivered.state = .pendingReview ∧
      ∃ label value : Bytes,
        delivered.render 1 [0x00] (List.replicate 64 0x00) = .ok (label, value) ∧
          label.Legible ∧ value.Legible := by
  have hreachable : delivered.Reachable := .perform _ _ .fresh
  have hreview : delivered.state = .pendingReview := rfl
  obtain ⟨table, hfields, hshown, -⟩ := hreachable.render_legible hreview
  have hindex : 1 < table.length := by
    have htable : delivered.fields =
        .ok ⟨(Transaction.modifying []).fields, by decide⟩ := rfl
    rw [htable] at hfields
    cases hfields
    decide
  obtain ⟨label, value, hrender, hlabel, hvalue, -⟩ :=
    hshown 1 hindex [0x00] (List.replicate 64 0x00) (by decide) (by decide)
  exact ⟨hreachable, hreview, label, value, hrender, hlabel, hvalue⟩

end Session

end NemSigner
