import NemSigner.Field.Label
import NemSigner.Proofs.Printer.Sanitised
import NemSigner.Proofs.Transaction.Reviewable

/-!
# What a label tells

The label of a field that decoding gives is one of a fixed list, and it tells the type of the field
and, for all but messages and texts, its identifier. Only a property of a mosaic brings its own
label.

## Main definitions

- `Field.labelled` — the types and identifiers that have a fixed label

## Main statements

- `Field.label_property` — the label of a property is its name, as far as it can be shown
- `Field.Reviewable.label_legible` — every label can be shown
- `Field.Reviewable.property_of_label` — only a property can be labelled as unknown
- `Field.Reviewable.shape_eq_of_label` — what a label tells
-/

namespace NemSigner

namespace Field

/-- The types and identifiers under which a field can be shown with a fixed label. -/
def labelled : List (DataType × FieldId) :=
  (.uint32, .levyFeeType) :: kindIds.map (DataType.uint32, ·) ++ wordIds.map (DataType.uint32, ·) ++
  xemIds.map (DataType.xem, ·) ++ quantityIds.map (DataType.mosaicQuantity, ·) ++
  hashIds.map (DataType.hash256, ·) ++ addressIds.map (DataType.address, ·) ++
  messageIds.map (DataType.message, ·) ++ mosaicIds.map (DataType.text, ·) ++
  textIds.map (DataType.text, ·)

theorem Reviewable.mem_labelled {field : Field} (h : field.Reviewable)
    (hproperty : field.type ≠ .property) : (field.type, field.id) ∈ labelled := by
  cases h with
  | property hlength => exact absurd rfl hproperty
  | levyType htype => exact List.mem_cons_self
  | _ => simp_all [labelled]

/-- The fixed labels can be shown, and none of them says that the field is unknown. -/
theorem exists_fixedLabel : ∀ shape ∈ labelled,
    ∃ fixed ∈ fixedLabel? shape.1 shape.2, (Bytes.ofText fixed).Legible ∧
      Bytes.ofText fixed ≠ Bytes.ofText unknownLabel := by
  decide +kernel

/-- Two fixed labels are the same for one type only, and for one identifier unless messages or texts
are labelled. -/
theorem fixedLabel_inj : ∀ shape ∈ labelled, ∀ shape' ∈ labelled,
    (fixedLabel? shape.1 shape.2).map Bytes.ofText =
      (fixedLabel? shape'.1 shape'.2).map Bytes.ofText →
    shape.1 = shape'.1 ∧ (shape.1 ≠ .message → shape.1 ≠ .text → shape.2 = shape'.2) := by
  decide +kernel

theorem label_fixed {field : Field} {fixed : String}
    (h : fixedLabel? field.type field.id = some fixed) (buffer : Bytes) :
    field.label buffer = Bytes.ofText fixed := by
  rw [label, h]

/-- What can be shown of the name of a property is its label, if that is anything. -/
theorem label_property {property : MosaicProperty} (hname : property.name.length < UInt32.size)
    (buffer : Bytes) :
    property.field.label buffer =
      if (Printer.cleaned property.name).take buffer.length = [] then Bytes.ofText unknownLabel
      else (Printer.cleaned property.name).take buffer.length := by
  have hread : Cursor.readAll Cursor.readPrefixed property.encode = .ok property.name :=
    Cursor.readPrefixed_inverts.readAll_encode hname (Bytes.prefixed property.value)
  have hshown := (Printer.sanitised_cuts property.name).run buffer
  have hlabel : property.field.label buffer =
      (propertyName? property.encode buffer).getD (Bytes.ofText unknownLabel) := rfl
  rw [hlabel, propertyName?, hread]
  dsimp only
  rw [hshown]
  cases (Printer.cleaned property.name).take buffer.length with
  | nil => rfl
  | cons byte rest => rfl

namespace Reviewable

variable {field field' : Field} {buffer buffer' : Bytes}

/-- Every label can be shown. -/
theorem label_legible (h : field.Reviewable) (buffer : Bytes) : (field.label buffer).Legible := by
  by_cases hproperty : field.type = .property
  · cases h with
    | @property property hlength =>
      rw [label_property (property.parts hlength).1]
      split
      · decide +kernel
      · next hname => exact ⟨hname, (Printer.cleaned_printable property.name).take _⟩
    | _ => cases hproperty
  · obtain ⟨fixed, hfixed, hlegible, -⟩ := exists_fixedLabel _ (h.mem_labelled hproperty)
    rw [label_fixed hfixed]
    exact hlegible

/-- A field that is labelled as unknown is a property, and its name is empty or shown as that very
label. -/
theorem property_of_label (h : field.Reviewable) (hbuffer : 1 ≤ buffer.length)
    (hlabel : field.label buffer = Bytes.ofText unknownLabel) :
    ∃ property : MosaicProperty, field = property.field ∧
      (property.name = [] ∨
        (Printer.sanitised property.name).run buffer = .ok (Bytes.ofText unknownLabel)) := by
  by_cases hproperty : field.type = .property
  · cases h with
    | @property property hlength =>
      refine ⟨property, rfl, ?_⟩
      rw [label_property (property.parts hlength).1] at hlabel
      split at hlabel
      · next hname =>
        have hcleaned : Printer.cleaned property.name = [] :=
          (List.take_eq_nil_iff.mp hname).resolve_left (by omega)
        exact .inl (Printer.cleaned_eq_nil.mp hcleaned)
      · refine .inr ?_
        rw [(Printer.sanitised_cuts property.name).run, hlabel]
    | _ => cases hproperty
  · obtain ⟨fixed, hfixed, -, hknown⟩ := exists_fixedLabel _ (h.mem_labelled hproperty)
    rw [label_fixed hfixed] at hlabel
    exact absurd hlabel hknown

/-- Two labels that are the same stand for the same type, and but for messages and texts for the
same identifier. Properties are left out, since they choose their labels. -/
theorem shape_eq_of_label (h : field.Reviewable) (h' : field'.Reviewable)
    (hproperty : field.type ≠ .property) (hproperty' : field'.type ≠ .property)
    (hlabel : field.label buffer = field'.label buffer') :
    field.type = field'.type ∧
      (field.type ≠ .message → field.type ≠ .text → field.id = field'.id) := by
  have hmem := h.mem_labelled hproperty
  have hmem' := h'.mem_labelled hproperty'
  obtain ⟨fixed, hfixed, -⟩ := exists_fixedLabel _ hmem
  obtain ⟨fixed', hfixed', -⟩ := exists_fixedLabel _ hmem'
  rw [label_fixed hfixed, label_fixed hfixed'] at hlabel
  refine fixedLabel_inj _ hmem _ hmem' ?_
  rw [hfixed, hfixed', Option.map_some, Option.map_some, hlabel]

end Reviewable

end Field

end NemSigner
