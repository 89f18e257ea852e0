import NemSigner.Proofs.Field.Label
import NemSigner.Proofs.Field.Value

/-!
# Structures of two names

The identifier of a mosaic and a property of a mosaic are written alike: two texts, each with its
length in front. They are read in four places. A definition, a levy and a change of supply ask for
texts shorter than the structure and for nothing behind them; an attached mosaic asks for nothing
behind them only; a label reads the first text, and a value reads both without asking what follows.
All of them cut a structure at the same place.

## Main definitions

- `Cursor.Splits` — a byte string is two names with their lengths, and nothing more

## Main statements

- `Cursor.readNames_iff`, `Cursor.readNestedNames_iff` — the two readings ask for the same
- `Cursor.Splits.unique` — a byte string is cut in one way only
- `Field.names_split_alike` — what is read for a transaction is what is shown on the screen
-/

namespace NemSigner

namespace Cursor

variable {data : Bytes} {names names' : Bytes × Bytes} {cursor next : Cursor}

/-- A byte string is two names, each with its length in four bytes in front, and nothing more. -/
structure Splits (data : Bytes) (names : Bytes × Bytes) : Prop where
  first_lt : names.1.length < UInt32.size
  second_lt : names.2.length < UInt32.size
  data_eq : data = Bytes.ofNatLE 4 names.1.length ++ names.1 ++
    (Bytes.ofNatLE 4 names.2.length ++ names.2)

theorem splits_iff : Splits data names ↔
    (names.1.length < UInt32.size ∧ names.2.length < UInt32.size) ∧
      Bytes.prefixed names.1 ++ Bytes.prefixed names.2 = data := by
  constructor
  · intro h
    exact ⟨⟨h.first_lt, h.second_lt⟩, h.data_eq.symm⟩
  · rintro ⟨⟨hfirst, hsecond⟩, hdata⟩
    exact ⟨hfirst, hsecond, hdata.symm⟩

theorem Splits.unique (h : Splits data names) (h' : Splits data names') : names = names' := by
  obtain ⟨hfirst, hrest⟩ :=
    Bytes.prefixed_append_inj h.first_lt h'.first_lt (h.data_eq.symm.trans h'.data_eq)
  have hsecond := Bytes.prefixed_inj h.second_lt h'.second_lt hrest
  exact Prod.ext hfirst hsecond

/-- Both names are shorter than the structure, since the structure also holds their lengths. -/
theorem Splits.shorter (h : Splits data names) :
    names.1.length < data.length ∧ names.2.length < data.length := by
  have hlength := congrArg List.length h.data_eq
  simp only [List.length_append, Bytes.length_ofNatLE] at hlength
  omega

theorem readNames_iff :
    exactly data readNames cursor = .ok names next ↔ Splits data names ∧ cursor = next := by
  rw [exactly_eq_ok readNames_inverts, splits_iff]
  exact and_assoc.symm

theorem readNestedNames_iff :
    readNestedNames data cursor = .ok names next ↔ Splits data names ∧ cursor = next := by
  rw [readNestedNames_eq_ok]
  constructor
  · rintro ⟨⟨⟨-, hfirst⟩, -, hsecond⟩, hdata, hnext⟩
    exact ⟨splits_iff.mpr ⟨⟨hfirst, hsecond⟩, hdata⟩, hnext⟩
  · rintro ⟨hsplits, hnext⟩
    -- The limits refuse nothing, which is where the two readings might have differed.
    obtain ⟨hfirst, hsecond⟩ := hsplits.shorter
    exact ⟨⟨⟨hfirst, hsplits.first_lt⟩, hsecond, hsplits.second_lt⟩, hsplits.data_eq.symm, hnext⟩

end Cursor

namespace Field

open Cursor (Splits)

variable {data buffer : Bytes} {id : FieldId} {network : Network}

/-- A mosaic is shown as its namespace and its name, cut where the buffer ends. -/
theorem value_mosaic (hid : id ∈ mosaicIds) {names : Bytes × Bytes} (h : Splits data names)
    (hbuffer : 1 ≤ buffer.length) :
    value ⟨id, .text, data⟩ network buffer =
      .ok ((mosaicText names.1 names.2).take buffer.length) := by
  have hprint : print ⟨id, .text, data⟩ network = Printer.sanitised names.1 ++
      Printer.sanitised (Bytes.ofText ": ") ++ Printer.sanitised names.2 := by
    rw [h.data_eq]
    exact printText_mosaic hid h.first_lt h.second_lt
  have hrun := (names_cuts names.1 names.2).run buffer
  rw [← hprint] at hrun
  rw [value_of_run hrun, spaced, if_neg]
  -- The mark between the names is always there, so something is shown.
  have hmark : Bytes.ofText ": " ≠ [] := by decide +kernel
  have htext : mosaicText names.1 names.2 ≠ [] :=
    List.append_ne_nil_of_left_ne_nil (List.append_ne_nil_of_right_ne_nil _ hmark) _
  intro hnil
  have hzero := (List.take_eq_nil_iff.mp hnil).resolve_right htext
  omega

theorem property_of_splits {names : Bytes × Bytes} (h : Splits data names) :
    (⟨.property, .property, data⟩ : Field) = (MosaicProperty.mk names.1 names.2).field := by
  rw [h.data_eq]
  rfl

/-- A structure of two names is read in one way wherever one is read. A strict reading, which limits
the texts by the structure, takes what a plain one takes; both take the written forms of two texts
and nothing else; and these are the texts that are put on the screen: of a mosaic both, of a
property the first as the label and the second as the value. -/
theorem names_split_alike (data : Bytes) :
    (∀ cursor names next,
      (Cursor.readNestedNames data cursor = .ok names next ↔
        Cursor.exactly data Cursor.readNames cursor = .ok names next) ∧
      (Cursor.exactly data Cursor.readNames cursor = .ok names next ↔
        Splits data names ∧ cursor = next)) ∧
    (∀ cursor space name next,
      Cursor.exactly data Cursor.readNames cursor = .ok (space, name) next →
      data = Bytes.ofNatLE 4 space.length ++ space ++ (Bytes.ofNatLE 4 name.length ++ name) ∧
      ∀ id ∈ [FieldId.levyMosaic, FieldId.transferMosaic], ∀ network (buffer : Bytes),
        1 ≤ buffer.length →
        value ⟨id, .text, data⟩ network buffer =
          .ok ((Printer.cleaned space ++ Bytes.ofText ": " ++ Printer.cleaned name).take
            buffer.length)) ∧
    (∀ cursor names next, Cursor.readNestedNames data cursor = .ok names next →
      ∃ name text : Bytes, (∀ split, Splits data split ↔ split = (name, text)) ∧
        (∀ buffer : Bytes, label ⟨.property, .property, data⟩ buffer =
          if (Printer.cleaned name).take buffer.length = [] then Bytes.ofText "Unknown Field"
          else (Printer.cleaned name).take buffer.length) ∧
        ∀ network (buffer : Bytes), value ⟨.property, .property, data⟩ network buffer =
          .ok (if (Printer.cleaned text).take buffer.length = [] then [0x20]
            else (Printer.cleaned text).take buffer.length)) := by
  refine ⟨?_, ?_, ?_⟩
  · intro cursor names next
    rw [Cursor.readNestedNames_iff, Cursor.readNames_iff]
    exact ⟨Iff.rfl, Iff.rfl⟩
  · intro cursor space name next hread
    obtain ⟨hsplits, -⟩ := Cursor.readNames_iff.mp hread
    refine ⟨hsplits.data_eq, ?_⟩
    intro id hid network buffer hbuffer
    exact value_mosaic hid hsplits hbuffer
  · intro cursor names next hread
    obtain ⟨hsplits, -⟩ := Cursor.readNestedNames_iff.mp hread
    refine ⟨names.1, names.2, ?_, ?_, ?_⟩
    · intro split
      constructor
      · exact fun h => h.unique hsplits
      · rintro rfl
        exact hsplits
    · intro buffer
      rw [property_of_splits hsplits]
      exact label_property hsplits.first_lt buffer
    · intro network buffer
      have hrun := (Printer.sanitised_cuts names.2).run buffer
      have hprint : (MosaicProperty.mk names.1 names.2).field.print network =
          Printer.sanitised names.2 := print_property hsplits.first_lt hsplits.second_lt network
      rw [← hprint] at hrun
      rw [property_of_splits hsplits]
      exact value_of_run hrun

/-- The name of a mosaic in the root of all namespaces ends in a letter that is no ASCII. As a
property it would have no name of its own. -/
theorem names_split_alike_nameless :
    let data : Bytes := [0, 0, 0, 0, 3, 0, 0, 0, 0x78, 0xc3, 0xa9]
    Cursor.readNestedNames data (Cursor.start []) = .ok ([], [0x78, 0xc3, 0xa9]) (Cursor.start []) ∧
      value ⟨.levyMosaic, .text, data⟩ .mainnet [0, 0, 0, 0, 0] = .ok (Bytes.ofText ": x?") ∧
      label ⟨.property, .property, data⟩ [0] = Bytes.ofText "Unknown Field" ∧
      value ⟨.property, .property, data⟩ .mainnet [0] = .ok (Bytes.ofText "x") := by
  intro data
  have hread : Cursor.readNestedNames data (Cursor.start []) =
    .ok ([], [0x78, 0xc3, 0xa9]) (Cursor.start []) := rfl
  obtain ⟨hsame, hmosaic, hproperty⟩ := names_split_alike data
  obtain ⟨-, hvalue⟩ := hmosaic _ _ _ _ ((hsame _ _ _).1.mp hread)
  obtain ⟨name, text, hsplit, hlabel, htext⟩ := hproperty _ _ _ hread
  obtain ⟨hsplits, -⟩ := Cursor.readNestedNames_iff.mp hread
  cases (hsplit _).mp hsplits
  refine ⟨hread, ?_, ?_, ?_⟩
  · rw [hvalue .levyMosaic (by decide) .mainnet [0, 0, 0, 0, 0] (by decide)]
    apply congrArg Except.ok
    decide +kernel
  · rw [hlabel]
    decide +kernel
  · rw [htext]
    apply congrArg Except.ok
    decide +kernel

end Field

end NemSigner
