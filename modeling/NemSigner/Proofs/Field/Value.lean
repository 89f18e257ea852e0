import NemSigner.Field.Value
import NemSigner.Proofs.Cursor.Inversion
import NemSigner.Proofs.Printer.Decimal
import NemSigner.Proofs.Printer.Hex
import NemSigner.Proofs.Transaction.Mosaic
import NemSigner.Proofs.Transaction.Reviewable

/-!
# Every field has a value

The bytes of a field that decoding gives are read again when the field is shown. They are always
what the reading asks for, so a value comes out wherever there is room for sixty-four bytes, which
is what the digits of a hash need.

## Main definitions

- `Printer.Shows` — a printer succeeds on every buffer of some length or more
- `Field.Whole` — a text that can be shown whole in sixty-four bytes
- `Field.fixedTexts` — the texts that hold nothing of the data
- `Field.spaced` — a printed text as it is shown

## Main statements

- `Field.print_word`, `Field.print_xem`, `Field.print_quantity`, `Field.print_hash` — the texts of
  numbers, amounts and hashes
- `Field.value_eq_of_text` — a text that is shown whole is the value
- `Field.Reviewable.value_legible` — every field has a value, which can be shown
-/

namespace NemSigner

namespace Printer

/-- A printer succeeds on every buffer of some length or more, and what it writes can be shown. -/
def Shows (least : Nat) (printer : Printer) : Prop :=
  ∀ buffer : Bytes, least ≤ buffer.length →
    ∃ shown : Bytes, printer.run buffer = .ok shown ∧ shown.Printable

variable {least : Nat} {content : Bytes}

theorem shows_text (hprintable : content.Printable) (hlength : content.length ≤ least) :
    Shows least (text content) := by
  intro buffer hbuffer
  refine ⟨content, ?_, hprintable⟩
  rw [run_text, if_pos (Nat.le_trans hlength hbuffer)]

/-- A text that is cut needs no room at all. -/
theorem Cuts.shows {printer : Printer} (h : Cuts printer content)
    (hprintable : content.Printable) : Shows least printer :=
  fun buffer _ => ⟨content.take buffer.length, h.run buffer, hprintable.take buffer.length⟩

theorem sanitised_shows (data : Bytes) : Shows least (sanitised data) :=
  (sanitised_cuts data).shows (cleaned_printable data)

theorem hexTruncated_shows (data : Bytes) : Shows least (hexTruncated data) := by
  intro buffer _
  refine ⟨Hex.encode .lower (data.take (buffer.length / 2)), ?_, Hex.encode_printable _ _⟩
  change (text (Hex.encode .lower (data.take (buffer.length / 2)))).run buffer = _
  rw [run_text, if_pos]
  rw [Hex.length_encode, List.length_take]
  omega

end Printer

namespace Field

open Printer (Shows)

/-- A text that can be shown, and for all of which there is room in sixty-four bytes. -/
def Whole (content : Bytes) : Prop :=
  content.Legible ∧ content.length ≤ 64

instance (content : Bytes) : Decidable (Whole content) :=
  inferInstanceAs (Decidable (content.Legible ∧ content.length ≤ 64))

variable {id : FieldId} {network : Network} {data content buffer : Bytes}

theorem Whole.shows (h : Whole content) : Shows 64 (Printer.text content) :=
  Printer.shows_text h.1.2 h.2

/-- What stands on the screen for what is printed: where that is nothing there stands a space. -/
def spaced (written : Bytes) : Bytes :=
  if written = [] then [0x20] else written

theorem spaced_legible (h : content.Printable) : (spaced content).Legible := by
  cases content with
  | nil => decide
  | cons byte rest => exact ⟨List.cons_ne_nil byte rest, h⟩

theorem value_of_run {field : Field} (h : (field.print network).run buffer = .ok content) :
    field.value network buffer = .ok (spaced content) := by
  rw [value, h]
  cases content <;> rfl

/-- The texts of values that hold nothing of the data. -/
def fixedTexts : List String :=
  ["Found ", "Not change", "Activate", "Deactivate", "Add cosignatory", "Delete cosign.",
    "Absolute", "Percentile", unknownChoice, "Unlimited", "d ", "h ", "m", "<encrypted msg>",
    "<empty msg>", "Divisibility and levy cannot be shown", "namespace", notImplemented]

theorem fixedTexts_whole : ∀ text ∈ fixedTexts, Whole (Bytes.ofText text) := by
  decide +kernel

theorem fixedTexts_printable (text : String) (htext : text ∈ fixedTexts) :
    (Bytes.ofText text).Printable :=
  (fixedTexts_whole text htext).1.2

/-! ### The texts of numbers, amounts and hashes -/

theorem length_numeral_le {n : Nat} (h : n < UInt64.size) : (Decimal.numeral n).length ≤ 20 := by
  have hunit : UInt64.size ≤ Decimal.unit 20 := by decide
  exact Decimal.length_numeral_le (by decide) (Nat.lt_of_lt_of_le h hunit)

theorem numeral_whole {n : Nat} (h : n < UInt64.size) : Whole (Decimal.numeral n) :=
  ⟨⟨Decimal.numeral_ne_nil n, Decimal.numeral_printable n⟩,
    Nat.le_trans (length_numeral_le h) (by decide)⟩

theorem found_whole {n : Nat} (h : n < UInt64.size) :
    Whole (Bytes.ofText "Found " ++ Decimal.numeral n) := by
  have hlength := length_numeral_le h
  have hfound := (fixedTexts_whole "Found " (by simp [fixedTexts])).1.2
  have hfoundLength : (Bytes.ofText "Found ").length = 6 := by decide +kernel
  refine ⟨⟨?_, hfound.append (Decimal.numeral_printable n)⟩, ?_⟩
  · exact List.append_ne_nil_of_right_ne_nil _ (Decimal.numeral_ne_nil n)
  · rw [List.length_append, hfoundLength]
    omega

theorem signedWord_whole {n : Nat} (h : n < UInt32.size) :
    Whole (Decimal.signed (signedWord n)) := by
  have hunit : UInt32.size ≤ Decimal.unit 10 := by decide
  have habs : (signedWord n).natAbs < UInt32.size := by
    simp only [signedWord, UInt32.size] at h ⊢
    split <;> omega
  have hlength := Decimal.length_signed_le (by decide) (Nat.lt_of_lt_of_le habs hunit)
  exact ⟨⟨Decimal.signed_ne_nil _, Decimal.signed_printable _⟩, by omega⟩

theorem kindText_whole (n : Nat) : Whole (Bytes.ofText (kindText n)) := by
  rw [kindText]
  split
  · next kind _ => cases kind <;> decide +kernel
  · decide +kernel

theorem wordText_whole (id : FieldId) {n : Nat} (h : n < UInt32.size) :
    Whole (wordText id n) := by
  have hlong : n < UInt64.size := Nat.lt_trans h (by decide)
  unfold wordText
  split
  · exact found_whole hlong
  · exact kindText_whole n
  · exact kindText_whole n
  · exact kindText_whole n
  · split <;> exact fixedTexts_whole _ (by simp [fixedTexts])
  · split <;> exact fixedTexts_whole _ (by simp [fixedTexts])
  · split
    · exact fixedTexts_whole _ (by simp [fixedTexts])
    · exact signedWord_whole h
  · split <;> exact fixedTexts_whole _ (by simp [fixedTexts])
  · exact numeral_whole hlong

/-- The text of an amount of XEM, with its unit. -/
def xemText (id : FieldId) (n : Nat) : Bytes :=
  Decimal.amount Limits.xemDivisibility n ++ 0x20 :: unitText id

theorem xemText_whole (id : FieldId) {n : Nat} (h : n < UInt64.size) : Whole (xemText id n) := by
  have hunits : n / Decimal.unit Limits.xemDivisibility < Decimal.unit 14 := by
    have hsize : UInt64.size ≤ Decimal.unit 14 * Decimal.unit Limits.xemDivisibility := by decide
    exact Nat.div_lt_of_lt_mul (Nat.mul_comm _ _ ▸ Nat.lt_of_lt_of_le h hsize)
  have hlength := Decimal.length_amount_le (by decide) hunits
  have hunit : Bytes.Printable (0x20 :: unitText id) ∧ (unitText id).length ≤ 5 := by
    unfold unitText
    split <;> decide +kernel
  refine ⟨⟨?_, (Decimal.amount_printable _ _).append hunit.1⟩, ?_⟩
  · exact List.append_ne_nil_of_right_ne_nil _ (List.cons_ne_nil _ _)
  · rw [xemText, List.length_append, List.length_cons]
    simp only [Limits.xemDivisibility] at hlength ⊢
    omega

theorem durationText_printable (blocks : Nat) : (durationText blocks).Printable := by
  have hnumeral (n : Nat) := Decimal.numeral_printable n
  have hdays := fixedTexts_printable "d " (by simp [fixedTexts])
  have hhours := fixedTexts_printable "h " (by simp [fixedTexts])
  have hminutes := fixedTexts_printable "m" (by simp [fixedTexts])
  rw [durationText]
  split
  · exact fixedTexts_printable "Unlimited" (by simp [fixedTexts])
  · exact (((((hnumeral _).append hdays).append (hnumeral _)).append hhours).append
      (hnumeral _)).append hminutes

/-- Hours and minutes have two digits at most. -/
theorem durationText_whole {n : Nat} (h : n < UInt64.size) : Whole (durationText n) := by
  refine ⟨⟨?_, durationText_printable n⟩, ?_⟩
  · rw [durationText]
    split
    · decide +kernel
    · exact List.append_ne_nil_of_right_ne_nil _ (by decide +kernel)
  · rw [durationText]
    split
    · decide +kernel
    · have hdays := length_numeral_le (Nat.lt_of_le_of_lt (Nat.div_le_self n blocksPerDay) h)
      have hhours : (Decimal.numeral (n % blocksPerDay / blocksPerHour)).length ≤ 2 :=
        Decimal.length_numeral_le (by decide) (show _ < 100 by
          simp only [blocksPerDay, blocksPerHour, blocksPerMinute]
          omega)
      have hminutes : (Decimal.numeral (n % blocksPerHour / blocksPerMinute)).length ≤ 2 :=
        Decimal.length_numeral_le (by decide) (show _ < 100 by
          simp only [blocksPerHour, blocksPerMinute]
          omega)
      have hmarks : (Bytes.ofText "d ").length = 2 ∧ (Bytes.ofText "h ").length = 2 ∧
          (Bytes.ofText "m").length = 1 := by decide +kernel
      simp only [List.length_append]
      omega

theorem digits_whole (hdata : data ≠ []) (hlength : data.length ≤ 32) :
    Whole (Hex.encode .upper data) := by
  have hdigits := Hex.length_encode .upper data
  have hpositive := List.length_pos_iff.mpr hdata
  exact ⟨⟨List.ne_nil_of_length_pos (by omega), Hex.encode_printable .upper data⟩, by omega⟩

theorem hash_whole (hdata : data.length = 32) : Whole (Hex.encode .upper data) :=
  digits_whole (List.ne_nil_of_length_pos (by omega)) (Nat.le_of_eq hdata)

/-! ### What is printed -/

theorem printRead_encode {α : Type} {reading : Cursor.Reading α} {valid : α → Prop}
    {encode : α → Bytes} (h : Cursor.Inverts reading valid encode) {value : α}
    (hvalid : valid value) (print : α → Printer) :
    printRead (encode value) reading print = print value := by
  have hread := h.readAll_encode hvalid []
  rw [List.append_nil] at hread
  rw [printRead, hread]

theorem printRead_names {first second : Bytes} (hfirst : first.length < UInt32.size)
    (hsecond : second.length < UInt32.size) (print : Bytes × Bytes → Printer) :
    printRead (Bytes.prefixed first ++ Bytes.prefixed second) Cursor.readNames print =
      print (first, second) := by
  have hread (names : Bytes × Bytes)
      (hfit : names.1.length < UInt32.size ∧ names.2.length < UInt32.size) :=
    printRead_encode Cursor.readNames_inverts hfit print
  exact hread (first, second) ⟨hfirst, hsecond⟩

theorem print_word (id : FieldId) (network : Network) {n : Nat} (h : n < UInt32.size) :
    print ⟨id, .uint32, Bytes.ofNatLE 4 n⟩ network = Printer.text (wordText id n) := by
  rw [← Bytes.bound_four] at h
  rw [print]
  exact printRead_encode (Cursor.readUInt_inverts 4) h _

theorem word_shows (id : FieldId) (network : Network) {n : Nat} (h : n < UInt32.size) :
    Shows 64 (print ⟨id, .uint32, Bytes.ofNatLE 4 n⟩ network) := by
  rw [print_word id network h]
  exact (wordText_whole id h).shows

theorem print_xem (id : FieldId) (network : Network) {n : Nat} (h : n < UInt64.size) :
    print ⟨id, .xem, Bytes.ofNatLE 8 n⟩ network = Printer.text (xemText id n) := by
  rw [← Bytes.bound_eight] at h
  have hplaces : ¬(Printer.maxDecimalPlaces < Limits.xemDivisibility) := by decide
  rw [print]
  dsimp only
  rw [printRead_encode (Cursor.readUInt_inverts 8) h, Printer.token, if_neg hplaces]
  rfl

theorem print_quantity (id : FieldId) (network : Network) {n : Nat} (h : n < UInt64.size) :
    print ⟨id, .mosaicQuantity, Bytes.ofNatLE 8 n⟩ network =
      Printer.text (Decimal.numeral n) := by
  rw [← Bytes.bound_eight] at h
  rw [print]
  exact printRead_encode (Cursor.readUInt_inverts 8) h _

theorem print_hash (id : FieldId) (network : Network) (hdata : data.length = 32) :
    print ⟨id, .hash256, data⟩ network = Printer.text (Hex.encode .upper data) := by
  have hne : data.isEmpty = false := by
    cases data with
    | nil => cases hdata
    | cons byte rest => rfl
  change Printer.hex .upper false data = _
  rw [Printer.hex, hne]
  rfl

theorem printWhole_shows (hdata : data.length ≤ 64) : Shows 64 (printWhole data) := by
  intro buffer hbuffer
  have hprint : printWhole data buffer = Printer.sanitised data buffer := by
    rw [printWhole, if_neg (by omega)]
  rw [Printer.run, hprint]
  exact Printer.sanitised_shows data buffer hbuffer

theorem printAddress_shows (field : Field) (hdata : field.data.length = Limits.addressLength) :
    Shows 64 (printAddress field network) := by
  -- What is as long as an address is no key.
  have hkey : ¬(field.data.length = Limits.publicKeyLength) := by
    rw [hdata]
    decide
  rw [printAddress, if_neg (fun h => hkey h.2)]
  exact printWhole_shows (by rw [hdata]; decide)

theorem printMessage_shows (id : FieldId) (data : Bytes) : Shows 64 (printMessage id data) := by
  have hencrypted := fixedTexts_whole "<encrypted msg>" (by simp [fixedTexts])
  have hempty := fixedTexts_whole "<empty msg>" (by simp [fixedTexts])
  unfold printMessage
  split
  · split
    · exact hencrypted.shows
    · exact hempty.shows
  · split
    · exact Printer.hexTruncated_shows _
    · exact Printer.sanitised_shows _

/-- What a screen with room for all of it shows of the namespace and the name of a mosaic. -/
def mosaicText (space name : Bytes) : Bytes :=
  Printer.cleaned space ++ Bytes.ofText ": " ++ Printer.cleaned name

theorem mosaicText_printable (space name : Bytes) : (mosaicText space name).Printable :=
  ((Printer.cleaned_printable space).append (by decide +kernel)).append
    (Printer.cleaned_printable name)

/-- The two names of a mosaic are printed one behind the other, and cut as one text. -/
theorem names_cuts (space name : Bytes) :
    Printer.Cuts (Printer.sanitised space ++ Printer.sanitised (Bytes.ofText ": ") ++
      Printer.sanitised name) (mosaicText space name) := by
  have hmark : Printer.cleaned (Bytes.ofText ": ") = Bytes.ofText ": " := by decide +kernel
  have hcuts := ((Printer.sanitised_cuts space).append
    (Printer.sanitised_cuts (Bytes.ofText ": "))).append (Printer.sanitised_cuts name)
  rwa [hmark] at hcuts

/-- The names are found where the text of a mosaic is to be shown. -/
theorem printText_mosaic (hid : id ∈ mosaicIds) {space name : Bytes}
    (hspace : space.length < UInt32.size) (hname : name.length < UInt32.size) :
    printText id (Bytes.prefixed space ++ Bytes.prefixed name) = Printer.sanitised space ++
      Printer.sanitised (Bytes.ofText ": ") ++ Printer.sanitised name := by
  simp only [mosaicIds, List.mem_cons, List.not_mem_nil, or_false] at hid
  rcases hid with rfl | rfl
  · simp only [printText]
    exact printRead_names hspace hname _
  · simp only [printText]
    exact printRead_names hspace hname _

theorem printMosaic_shows (hid : id ∈ mosaicIds) {mosaic : MosaicId} (hvalid : mosaic.WellFormed) :
    Shows 64 (printText id mosaic.encode) := by
  rw [MosaicId.encode, printText_mosaic hid hvalid.parts.1 hvalid.parts.2]
  exact (names_cuts mosaic.space mosaic.name).shows (mosaicText_printable _ _)

theorem printText_shows (hid : id ∈ textIds) (data : Bytes) : Shows 64 (printText id data) := by
  have hhidden :=
    fixedTexts_whole "Divisibility and levy cannot be shown" (by simp [fixedTexts])
  have hroot := fixedTexts_whole "namespace" (by simp [fixedTexts])
  unfold printText
  split
  · exact hhidden.shows
  · exact hroot.shows
  · exact absurd hid (by decide)
  · exact absurd hid (by decide)
  · exact Printer.sanitised_shows data

theorem print_property {property : MosaicProperty} (hname : property.name.length < UInt32.size)
    (hvalue : property.value.length < UInt32.size) (network : Network) :
    property.field.print network = Printer.sanitised property.value := by
  rw [print]
  exact printRead_names hname hvalue _

namespace Reviewable

variable {field : Field}

/-- Every field is printed where there is room for sixty-four bytes. -/
theorem print_shows (h : field.Reviewable) (network : Network) :
    Shows 64 (field.print network) := by
  cases h with
  | @kind id _ kind => exact word_shows id network kind.code_lt
  | @levyType type _ => exact word_shows .levyFeeType network type.toNat_lt
  | @word id _ number => exact word_shows id network number.toNat_lt
  | @xem id _ amount =>
    rw [print_xem id network amount.toNat_lt]
    exact (xemText_whole id amount.toNat_lt).shows
  | @quantity id _ amount =>
    rw [print_quantity id network amount.toNat_lt]
    exact (numeral_whole amount.toNat_lt).shows
  | @hash id _ data hlength =>
    rw [print_hash id network hlength]
    exact (hash_whole hlength).shows
  | @address id _ data hlength => exact printAddress_shows ⟨id, .address, data⟩ hlength
  | @message id _ data => exact printMessage_shows id data
  | mosaic hid hvalid => exact printMosaic_shows hid hvalid
  | text hid data => exact printText_shows hid data
  | @property property hlength =>
    obtain ⟨hname, hvalue⟩ := property.parts hlength
    rw [print_property hname hvalue]
    exact Printer.sanitised_shows property.value

/-- Every field has a value. Where nothing is printed there stands a space. -/
theorem value_legible (h : field.Reviewable) (network : Network) {buffer : Bytes}
    (hbuffer : 64 ≤ buffer.length) :
    ∃ shown : Bytes, field.value network buffer = .ok shown ∧ shown.Legible := by
  obtain ⟨shown, hrun, hprintable⟩ := h.print_shows network buffer hbuffer
  exact ⟨spaced shown, value_of_run hrun, spaced_legible hprintable⟩

end Reviewable

/-- A text that is shown whole is the value. -/
theorem value_eq_of_text {field : Field} (hprint : field.print network = Printer.text content)
    (hwhole : Whole content) (hbuffer : 64 ≤ buffer.length) :
    field.value network buffer = .ok content := by
  have hrun : (field.print network).run buffer = .ok content := by
    rw [hprint, Printer.run_text, if_pos (Nat.le_trans hwhole.2 hbuffer)]
  rw [value_of_run hrun, spaced, if_neg hwhole.1.1]

end Field

end NemSigner
