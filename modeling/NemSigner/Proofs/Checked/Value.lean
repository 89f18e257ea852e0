import NemSigner.Field.Label
import NemSigner.Proofs.Checked.Address
import NemSigner.Proofs.Checked.Rendered
import NemSigner.Proofs.Field.Value

/-!
# Values and labels, checked

A field is shown by routines in which every position is looked at before it is used. No position is
ever out of range, whatever the field holds and however few cells there are. What comes out is the
value or the label of the field, and a screen can show it.

## Main definitions

- `Field.render` — the routine of a field on a network
- `Field.checkedValue`, `Field.checkedLabel` — what the routines leave

## Main statements

- `Field.render_renders` — the routine of a field renders its printer
- `Field.checkedName?_eq` — the name of a property is what can be shown of it
- `Field.checked_sanitised` — every value and every label can be shown, and nothing is out of range
-/

namespace NemSigner

namespace Field

open Pen (address after ascii decimal hex hexNumeral hexTruncated read refuse room str signed token
  Renders Writes Cuts)
open Cursor (takeNames takeNames_follows takePrefixed takePrefixed_follows takeUInt
  takeUInt_follows)

variable {data buffer shown left : Bytes}

/-! ### The routines -/

/-- Writes numbers and the names of what they count. -/
def units : List (Nat × Bytes) → Nat → Pen Nat
  | [], start => pure start
  | (number, name) :: rest, start => do
    let start ← after (decimal number) start
    let start ← after (str name) start
    units rest start

def renderDuration (blocks : Nat) : Pen Nat :=
  if blocks = 0 then str (Bytes.ofText "Unlimited")
  else units [(blocks / blocksPerDay, Bytes.ofText "d "),
    (blocks % blocksPerDay / blocksPerHour, Bytes.ofText "h "),
    (blocks % blocksPerHour / blocksPerMinute, Bytes.ofText "m")] 0

/-- Numbers are written by themselves, every other meaning as one text. -/
def renderWord (id : FieldId) (number : Nat) : Pen Nat :=
  match id with
  | .mosaicCount => do
    let start ← str (Bytes.ofText "Found ")
    after (decimal number) start
  | .relativeChange =>
    match number with
    | 0 => str (Bytes.ofText "Not change")
    | _ => signed (signedWord number)
  | .transactionType | .innerTransactionType | .detailTransactionType | .importanceMode
  | .modificationType | .levyFeeType => str (wordText id number)
  | _ => decimal number

/-- Sanitised text that there must be as many cells for as it has bytes. -/
def renderWhole (data : Bytes) : Pen Nat := do
  let free ← room
  if free < data.length then refuse .notEnoughData else ascii data

def renderAddress (field : Field) (network : Network) : Pen Nat :=
  if (field.id = .remoteKey ∨ field.id = .cosignatoryKey) ∧
      field.data.length = Limits.publicKeyLength then
    address network field.data
  else renderWhole field.data

def renderMessage (id : FieldId) (data : Bytes) : Pen Nat :=
  match data with
  | [] =>
    if id = .encryptedMessage then str (Bytes.ofText "<encrypted msg>")
    else str (Bytes.ofText "<empty msg>")
  | first :: rest => if first = hexMarker then hexTruncated rest else ascii data

/-- Writes the two names of a mosaic. -/
def renderNames (names : Bytes × Bytes) : Pen Nat := do
  let start ← ascii names.1
  let start ← after (ascii (Bytes.ofText ": ")) start
  after (ascii names.2) start

def renderText (id : FieldId) (data : Bytes) : Pen Nat :=
  match id with
  | .unknownMosaic => str (Bytes.ofText "Divisibility and levy cannot be shown")
  | .rootNamespace => str (Bytes.ofText "namespace")
  | .levyMosaic | .transferMosaic => read data takeNames >>= renderNames
  | _ => ascii data

/-- The routine of a field on a network. -/
def render (field : Field) (network : Network) : Pen Nat :=
  match field.type with
  | .uint8 => read field.data (takeUInt 1) >>= decimal
  | .uint16 => read field.data (takeUInt 2) >>= hexNumeral
  | .uint32 => read field.data (takeUInt 4) >>= renderWord field.id
  | .uint64 =>
    match field.id with
    | .duration => read field.data (takeUInt 8) >>= renderDuration
    | _ => hex .upper true field.data
  | .hash256 => hex .upper false field.data
  | .address => renderAddress field network
  | .mosaicQuantity => read field.data (takeUInt 8) >>= decimal
  | .xem => read field.data (takeUInt 8) >>= fun amount =>
      token Limits.xemDivisibility amount (some (unitText field.id))
  | .message => renderMessage field.id field.data
  | .text => renderText field.id field.data
  | .property => read field.data takeNames >>= fun names => ascii names.2
  | .int8 | .publicKey | .mosaicCount => str (Bytes.ofText notImplemented)

/-- The text in the first cells, which must be there, and must be text. -/
def shownText (count : Nat) (cells : Bytes) : Except Fault Bytes :=
  if count ≤ cells.length then
    if (Bytes.toText? (cells.take count)).isSome then .ok (cells.take count)
    else .error (.refused .invalidData)
  else .error .outOfRange

/-- The text that a field leaves in some cells. -/
def checkedValue (field : Field) (network : Network) (buffer : Bytes) : Except Fault Bytes := do
  let (count, cells) ← field.render network buffer
  if count = 0 then return [0x20] else shownText count cells

/-- A refusal is passed over. -/
def recover {α : Type} : Except Fault α → Except Fault (Option α)
  | .ok value => .ok (some value)
  | .error (.refused _) => .ok none
  | .error .outOfRange => .error .outOfRange

/-- The name of a property, if anything of it can be shown. -/
def checkedName? (data buffer : Bytes) : Except Fault (Option Bytes) := do
  match ← recover (read data takePrefixed buffer) with
  | none => return none
  | some (name, cells) =>
    let (count, cells) ← ascii name cells
    if count = 0 then return none else recover (shownText count cells)

/-- The label of a field as it is left in some cells. -/
def checkedLabel (field : Field) (buffer : Bytes) : Except Fault Bytes :=
  match fixedLabel? field.type field.id with
  | some fixed => .ok (Bytes.ofText fixed)
  | none =>
    match field.type, field.id with
    | .property, .property =>
      (checkedName? field.data buffer).map fun name? => name?.getD (Bytes.ofText unknownLabel)
    | _, _ => .ok (Bytes.ofText unknownLabel)

/-! ### What they write -/

theorem units_writes (front : Bytes) (list : List (Nat × Bytes)) :
    Writes front (units list front.length)
      (list.flatMap fun item => Decimal.numeral item.1 ++ item.2) := by
  induction list generalizing front with
  | nil => exact Pen.writes_pure front
  | cons item rest ih =>
    rw [List.flatMap_cons, List.append_assoc]
    exact ((Pen.decimal_writes item.1).after front).bind
      (((Pen.str_writes item.2).after _).bind (ih _))

theorem renderDuration_renders (blocks : Nat) :
    Renders (renderDuration blocks) (Printer.text (durationText blocks)) := by
  refine Writes.renders ?_ (durationText_printable blocks)
  rw [renderDuration, durationText]
  split
  · exact Pen.str_writes _
  · have hunits := units_writes [] [(blocks / blocksPerDay, Bytes.ofText "d "),
      (blocks % blocksPerDay / blocksPerHour, Bytes.ofText "h "),
      (blocks % blocksPerHour / blocksPerMinute, Bytes.ofText "m")]
    simp only [List.flatMap_cons, List.flatMap_nil, List.append_nil, ← List.append_assoc] at hunits
    exact hunits

theorem renderWord_writes (id : FieldId) (number : Nat) :
    Writes [] (renderWord id number) (wordText id number) := by
  cases id with
  | mosaicCount =>
    exact (Pen.str_writes (Bytes.ofText "Found ")).bind ((Pen.decimal_writes number).after _)
  | relativeChange =>
    cases number with
    | zero => exact Pen.str_writes _
    | succ n => exact Pen.signed_writes _
  | transactionType | innerTransactionType | detailTransactionType | importanceMode
  | modificationType | levyFeeType => exact Pen.str_writes _
  | _ => exact Pen.decimal_writes number

theorem renderWhole_renders (data : Bytes) : Renders (renderWhole data) (printWhole data) := by
  intro cells
  rw [renderWhole, Pen.room_bind, Printer.run, printWhole]
  by_cases hroom : cells.length < data.length
  · rw [if_pos hroom, if_pos hroom]
    exact .inl ⟨rfl, rfl⟩
  · rw [if_neg hroom, if_neg hroom]
    exact Pen.ascii_renders data cells

theorem renderAddress_renders (field : Field) (network : Network) :
    Renders (renderAddress field network) (printAddress field network) := by
  rw [renderAddress, printAddress]
  split
  · next hkey =>
    exact (Pen.address_writes network hkey.2).renders (Base32.encode_printable _)
  · exact renderWhole_renders field.data

theorem renderMessage_renders (id : FieldId) (data : Bytes) :
    Renders (renderMessage id data) (printMessage id data) := by
  have hencrypted := fixedTexts_printable "<encrypted msg>" (by simp [fixedTexts])
  have hempty := fixedTexts_printable "<empty msg>" (by simp [fixedTexts])
  cases data with
  | nil =>
    simp only [renderMessage, printMessage]
    split
    · exact Pen.str_renders hencrypted
    · exact Pen.str_renders hempty
  | cons first rest =>
    simp only [renderMessage, printMessage]
    split
    · exact Pen.hexTruncated_renders rest
    · exact Pen.ascii_renders (first :: rest)

theorem renderNames_renders (names : Bytes × Bytes) :
    Renders (renderNames names)
      (Printer.sanitised names.1 ++ Printer.sanitised (Bytes.ofText ": ") ++
        Printer.sanitised names.2) := by
  have hmark : Printer.cleaned (Bytes.ofText ": ") = Bytes.ofText ": " := by decide +kernel
  have hpen : Cuts [] (renderNames names) (Printer.cleaned names.1 ++
      (Printer.cleaned (Bytes.ofText ": ") ++ Printer.cleaned names.2)) :=
    (Pen.ascii_cuts names.1).bind fun _ =>
      ((Pen.ascii_cuts (Bytes.ofText ": ")).after _).bind fun _ => (Pen.ascii_cuts names.2).after _
  rw [← List.append_assoc, hmark] at hpen
  exact Cuts.renders hpen (names_cuts names.1 names.2) (mosaicText_printable names.1 names.2)

theorem renderText_renders (id : FieldId) (data : Bytes) :
    Renders (renderText id data) (printText id data) := by
  cases id with
  | unknownMosaic | rootNamespace =>
    exact Pen.str_renders (fixedTexts_printable _ (by simp [fixedTexts]))
  | levyMosaic | transferMosaic =>
    exact Pen.renders_printRead takeNames_follows fun names _ => renderNames_renders names
  | _ => exact Pen.ascii_renders data

theorem lt_of_readUInt {width n : Nat} (h : Cursor.readAll (Cursor.readUInt width) data = .ok n) :
    n < Bytes.bound width := by
  unfold Cursor.readAll at h
  split at h
  · next hread =>
    cases h
    exact ((Cursor.readUInt_inverts width _ _ _).mp hread).1
  · cases h

/-- The routine of a field renders its printer. -/
theorem render_renders (field : Field) (network : Network) :
    Renders (field.render network) (field.print network) := by
  obtain ⟨id, type, data⟩ := field
  have hdecimal (number : Nat) : Renders (decimal number) (Printer.decimal number) :=
    (Pen.decimal_writes number).renders (Decimal.numeral_printable number)
  -- Where the text asks for a bound of the number, reading has left it below that of its width.
  cases type with
  | uint8 => exact Pen.renders_printRead (takeUInt_follows 1) fun number _ => hdecimal number
  | uint16 =>
    refine Pen.renders_printRead (takeUInt_follows 2) fun number hread => ?_
    exact Pen.hexNumeral_renders (Nat.lt_trans (lt_of_readUInt hread) (by decide))
  | uint32 =>
    refine Pen.renders_printRead (takeUInt_follows 4) fun number hread => ?_
    exact (renderWord_writes id number).renders (wordText_whole id (lt_of_readUInt hread)).1.2
  | uint64 =>
    cases id with
    | duration =>
      exact Pen.renders_printRead (takeUInt_follows 8) fun blocks _ => renderDuration_renders blocks
    | _ => exact Pen.hex_renders .upper true data
  | hash256 => exact Pen.hex_renders .upper false data
  | address => exact renderAddress_renders ⟨id, .address, data⟩ network
  | mosaicQuantity =>
    exact Pen.renders_printRead (takeUInt_follows 8) fun number _ => hdecimal number
  | xem =>
    refine Pen.renders_printRead (takeUInt_follows 8) fun amount hread => ?_
    have hplaces : Limits.xemDivisibility ≤ Printer.maxDecimalPlaces := by decide
    have hwrites := Pen.token_writes hplaces amount (some (unitText id))
    rw [Printer.token, if_neg (Nat.not_lt_of_le hplaces)]
    exact hwrites.renders (xemText_whole id (lt_of_readUInt hread)).1.2
  | message => exact renderMessage_renders id data
  | text => exact renderText_renders id data
  | property =>
    exact Pen.renders_printRead takeNames_follows fun names _ => Pen.ascii_renders names.2
  | int8 | publicKey | mosaicCount =>
    exact Pen.str_renders (fixedTexts_printable notImplemented (by simp [fixedTexts]))

/-- What a screen can show is a text. -/
theorem shownText_append (h : shown.Printable) :
    shownText shown.length (shown ++ left) = .ok shown := by
  have hroom : shown.length ≤ (shown ++ left).length := by simp
  rw [shownText, if_pos hroom, List.take_left, if_pos h.isSome_toText?]

/-- A value is refused for want of data or cells, or can be shown. -/
theorem checkedValue_eq (field : Field) (network : Network) (buffer : Bytes) :
    (field.checkedValue network buffer = .error (.refused .notEnoughData) ∧
        field.value network buffer = .error .notEnoughData) ∨
      ∃ shown : Bytes, field.checkedValue network buffer = .ok shown ∧
        field.value network buffer = .ok shown ∧ shown.Legible ∧
        shown.length ≤ max 1 buffer.length := by
  rcases field.render_renders network buffer with
    ⟨hpen, hrun⟩ | ⟨shown, left, hprintable, hlength, hrun, hpen⟩
  · rw [checkedValue, value, hpen, hrun]
    exact .inl ⟨rfl, rfl⟩
  · rw [checkedValue, value, hpen, hrun]
    cases shown with
    | nil => exact .inr ⟨[0x20], rfl, rfl, by decide, Nat.le_max_left _ _⟩
    | cons byte rest =>
      exact .inr ⟨byte :: rest, shownText_append hprintable, rfl,
        ⟨List.cons_ne_nil byte rest, hprintable⟩, Nat.le_trans hlength (Nat.le_max_right _ _)⟩

/-! ### Labels -/

/-- The name of a property is what can be shown of it, if that is anything. -/
theorem checkedName?_eq (data buffer : Bytes) :
    checkedName? data buffer = .ok (propertyName? data buffer) ∧
      ∀ name ∈ propertyName? data buffer, Bytes.Legible name := by
  rcases Pen.read_of_follows takePrefixed_follows data with ⟨name, hread, htake⟩ | ⟨hread, htake⟩
  · have hprintable := (Printer.cleaned_printable name).take buffer.length
    have hpen := Pen.ascii_cuts name buffer
    have hrun := (Printer.sanitised_cuts name).run buffer
    rw [List.nil_append, List.nil_append] at hpen
    rw [checkedName?, htake, propertyName?, hread]
    dsimp only
    rw [hrun]
    change (ascii name buffer >>= _) = _ ∧ _
    rw [hpen]
    cases hshown : (Printer.cleaned name).take buffer.length with
    | nil => exact ⟨rfl, nofun⟩
    | cons byte rest =>
      rw [hshown] at hprintable
      refine ⟨?_, ?_⟩
      · change recover (shownText (byte :: rest).length (byte :: rest ++ _)) = _
        rw [shownText_append hprintable]
        rfl
      · rintro _ ⟨⟩
        exact ⟨List.cons_ne_nil byte rest, hprintable⟩
  · rw [checkedName?, htake, propertyName?, hread]
    exact ⟨rfl, nofun⟩

/-- Labels that do not depend on the data can be shown. -/
theorem fixedLabel_getD_legible (type : DataType) (id : FieldId) :
    (Bytes.ofText ((fixedLabel? type id).getD unknownLabel)).Legible := by
  unfold fixedLabel?
  split <;> decide +kernel

/-- Only a property brings its own label. -/
theorem label_of_not_property {field : Field}
    (h : ¬(field.type = .property ∧ field.id = .property)) (buffer : Bytes) :
    field.label buffer = Bytes.ofText ((fixedLabel? field.type field.id).getD unknownLabel) := by
  unfold label
  split
  · next fixed hfixed => rw [hfixed, Option.getD_some]
  · next hfixed =>
    rw [hfixed, Option.getD_none]
    split
    · next htype hid => exact absurd ⟨htype, hid⟩ h
    · rfl

theorem checkedLabel_of_not_property {field : Field}
    (h : ¬(field.type = .property ∧ field.id = .property)) (buffer : Bytes) :
    field.checkedLabel buffer =
      .ok (Bytes.ofText ((fixedLabel? field.type field.id).getD unknownLabel)) := by
  unfold checkedLabel
  split
  · next fixed hfixed => rw [hfixed, Option.getD_some]
  · next hfixed =>
    rw [hfixed, Option.getD_none]
    split
    · next htype hid => exact absurd ⟨htype, hid⟩ h
    · rfl

/-- A label is left as it should be, and can be shown. -/
theorem checkedLabel_eq (field : Field) (buffer : Bytes) :
    field.checkedLabel buffer = .ok (field.label buffer) ∧ (field.label buffer).Legible := by
  by_cases hproperty : field.type = .property ∧ field.id = .property
  · obtain ⟨id, type, data⟩ := field
    obtain ⟨rfl, rfl⟩ := hproperty
    obtain ⟨hname, hlegible⟩ := checkedName?_eq data buffer
    change (checkedName? data buffer).map (fun name? => name?.getD (Bytes.ofText unknownLabel)) =
        .ok ((propertyName? data buffer).getD (Bytes.ofText unknownLabel)) ∧
      ((propertyName? data buffer).getD (Bytes.ofText unknownLabel)).Legible
    rw [hname]
    refine ⟨rfl, ?_⟩
    cases hshown : propertyName? data buffer with
    | none => exact fixedLabel_getD_legible .property .property
    | some name => exact hlegible name hshown
  · rw [checkedLabel_of_not_property hproperty, label_of_not_property hproperty]
    exact ⟨rfl, fixedLabel_getD_legible field.type field.id⟩

/-- No position is out of range when a field is shown, whatever the field and however long the
buffer. Its value is refused for want of data or cells and for nothing else, or it is one byte or
more, no more than the buffer is long unless it is the one space, and a screen can show them. Its
label is never empty, and a screen can show it. -/
theorem checked_sanitised (field : Field) (network : Network) (buffer : Bytes) :
    field.checkedValue network buffer = (field.value network buffer).mapError Fault.refused ∧
      field.checkedValue network buffer ≠ .error .outOfRange ∧
      (field.value network buffer = .error .notEnoughData ∨
        ∃ shown : Bytes, field.value network buffer = .ok shown ∧ 1 ≤ shown.length ∧
          shown.length ≤ max 1 buffer.length ∧ shown.Printable) ∧
      field.checkedLabel buffer = .ok (field.label buffer) ∧ (field.label buffer).Legible := by
  have hlabel := field.checkedLabel_eq buffer
  rcases field.checkedValue_eq network buffer with
    ⟨hchecked, hvalue⟩ | ⟨shown, hchecked, hvalue, hlegible, hlength⟩
  · rw [hchecked, hvalue]
    exact ⟨rfl, nofun, .inl rfl, hlabel⟩
  · rw [hchecked, hvalue]
    have hpositive : 1 ≤ shown.length := List.length_pos_iff.mpr hlegible.1
    exact ⟨rfl, nofun, .inr ⟨shown, rfl, hpositive, hlength, hlegible.2⟩, hlabel⟩

end Field

end NemSigner
