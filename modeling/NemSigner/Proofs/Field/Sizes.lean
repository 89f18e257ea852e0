import NemSigner.Proofs.Checked.Value
import NemSigner.Proofs.Printer.Amount

/-!
# Values and the sizes of buffers

A buffer that is too small hides a value, or cuts it when it is free text. It never makes another
value of it.

## Main definitions

- `Printer.Steady` — what is written into a buffer is written into every larger one
- `Printer.Trims` — what is written into a buffer is the front of what is written into a larger one
- `Field.IsFreeText` — the value is text that comes from the transaction

## Main statements

- `Field.print_steady`, `Field.print_trims` — every field has a printer of one kind or the other
- `Field.value_resized` — what the value in one buffer says of the value in a larger one
-/

namespace NemSigner

namespace Hex

/-- The digits of the first bytes are the first digits. -/
theorem encode_take (letters : LetterCase) (data : Bytes) (count : Nat) :
    encode letters (data.take count) = (encode letters data).take (2 * count) := by
  induction data generalizing count with
  | nil => simp [encode]
  | cons byte rest ih =>
    cases count with
    | zero => rfl
    | succ count =>
      have hcount : 2 * (count + 1) = (encodeByte letters byte).length + 2 * count :=
        Nat.add_comm (2 * count) 2
      simp only [encode, List.take_succ_cons, List.flatMap_cons] at ih ⊢
      rw [ih, hcount, List.take_length_add_append]

end Hex

namespace Printer

variable {printer : Printer} {content : Bytes}

/-- What is written into a buffer is written into every larger one. -/
def Steady (printer : Printer) : Prop :=
  ∀ buffer buffer' shown : Bytes, buffer.length ≤ buffer'.length →
    printer.run buffer = .ok shown → printer.run buffer' = .ok shown

/-- As many whole pieces of a text as a buffer of some size has room for. -/
def fitting (piece size : Nat) (content : Bytes) : Bytes :=
  content.take (piece * (min size content.length / piece))

/-- What is written into a buffer is what it has room for of what is written into a larger one, in
pieces of some bytes. -/
def Trims (piece : Nat) (printer : Printer) : Prop :=
  ∀ buffer buffer' : Bytes, buffer.length ≤ buffer'.length →
    (∃ error, printer.run buffer = .error error ∧ printer.run buffer' = .error error) ∨
      ∃ written, printer.run buffer' = .ok written ∧
        printer.run buffer = .ok (fitting piece buffer.length written)

theorem steady_of_run {least : Nat} {error : DecodeError}
    (h : ∀ buffer : Bytes, printer.run buffer =
      if least ≤ buffer.length then .ok content else .error error) : Steady printer := by
  intro buffer buffer' shown hsize hrun
  rw [h] at hrun ⊢
  by_cases hroom : least ≤ buffer.length
  · rw [if_pos hroom] at hrun
    rw [if_pos (Nat.le_trans hroom hsize), hrun]
  · rw [if_neg hroom] at hrun
    cases hrun

theorem steady_fail (error : DecodeError) : Steady (fail error) :=
  fun _ _ _ _ hrun => nomatch hrun

theorem steady_text (content : Bytes) : Steady (text content) :=
  steady_of_run (run_text content)

theorem steady_hex (letters : Hex.LetterCase) (backwards : Bool) (data : Bytes) :
    Steady (hex letters backwards data) := by
  rw [hex]
  split
  · exact steady_fail _
  · exact steady_text _

theorem steady_hexNumeral (n : Nat) : Steady (hexNumeral n) :=
  steady_of_run (Pen.run_hexNumeral n)

theorem steady_token (places n : Nat) (unit : Option Bytes) : Steady (token places n unit) := by
  rcases Nat.lt_or_ge maxDecimalPlaces places with hmany | hfew
  · rw [token_of_lt hmany]
    exact steady_fail _
  · rw [token_of_le hfew]
    exact steady_text _

theorem Cuts.trims (h : Cuts printer content) : Trims 1 printer := by
  intro buffer buffer' hsize
  refine .inr ⟨content.take buffer'.length, h.run buffer', ?_⟩
  rw [h.run buffer, fitting, List.take_take, List.length_take]
  refine congrArg Except.ok (List.take_eq_take_iff.mpr ?_)
  omega

theorem hexTruncated_trims (data : Bytes) : Trims 2 (hexTruncated data) := by
  have hrun (buffer : Bytes) : (hexTruncated data).run buffer =
      .ok ((Hex.encode .lower data).take (2 * (buffer.length / 2))) := by
    rw [← Hex.encode_take]
    refine (run_text _ buffer).trans (if_pos ?_)
    rw [Hex.length_encode, List.length_take]
    omega
  intro buffer buffer' hsize
  refine .inr ⟨_, hrun buffer', ?_⟩
  rw [hrun buffer, fitting, List.take_take, List.length_take]
  refine congrArg Except.ok (List.take_eq_take_iff.mpr ?_)
  rw [Hex.length_encode]
  omega

theorem trims_fail (piece : Nat) (error : DecodeError) : Trims piece (fail error) :=
  fun _ _ _ => .inl ⟨error, rfl, rfl⟩

end Printer

namespace Field

open Printer (Steady Trims fitting)

variable {network : Network} {buffer buffer' : Bytes}

/-- The value is text that comes from the transaction. -/
def IsFreeText (field : Field) : Prop :=
  field.type = .property ∨ (field.type = .message ∧ field.data ≠ []) ∨
    (field.type = .text ∧ field.id ≠ .unknownMosaic ∧ field.id ≠ .rootNamespace)

/-- The bytes of free text that are written together: both digits of a byte in a message of
digits. -/
def piece (field : Field) : Nat :=
  if field.type = .message ∧ field.data.head? = some hexMarker then 2 else 1

theorem value_of_run_error {field : Field} {error : DecodeError}
    (h : (field.print network).run buffer = .error error) :
    field.value network buffer = .error error := by
  rw [value, h]
  rfl

/-! ### Values that are shown whole -/

theorem steady_printRead {α : Type} {reading : Cursor.Reading α} {print : α → Printer}
    (h : ∀ value, Steady (print value)) (data : Bytes) : Steady (printRead data reading print) := by
  unfold printRead
  split
  · next value _ => exact h value
  · next error _ => exact Printer.steady_fail error

theorem steady_printWhole (data : Bytes) : Steady (printWhole data) := by
  have hrun (buffer : Bytes) : (printWhole data).run buffer =
      if data.length ≤ buffer.length then .ok (Printer.cleaned data)
      else .error .notEnoughData := by
    rw [Printer.run, printWhole]
    by_cases hroom : data.length ≤ buffer.length
    · have hlength : (Printer.cleaned data).length ≤ data.length :=
        Printer.length_cleanedAfter_le false data
      have hshown := (Printer.sanitised_cuts data).run buffer
      rw [List.take_of_length_le (Nat.le_trans hlength hroom)] at hshown
      rw [if_neg (Nat.not_lt_of_le hroom), if_pos hroom]
      exact hshown
    · rw [if_pos (Nat.lt_of_not_le hroom), if_neg hroom]
      rfl
  exact Printer.steady_of_run hrun

theorem steady_printAddress (field : Field) (network : Network) :
    Steady (printAddress field network) := by
  rw [printAddress]
  split
  · exact Printer.steady_text _
  · exact steady_printWhole _

/-- A message without any data has a text of its own. -/
theorem steady_printMessage_nil (id : FieldId) : Steady (printMessage id []) := by
  rw [printMessage]
  split
  · exact Printer.steady_text _
  · exact Printer.steady_text _

theorem steady_print {field : Field} (h : ¬field.IsFreeText) (network : Network) :
    Steady (field.print network) := by
  obtain ⟨id, type, data⟩ := field
  cases type with
  | int8 | publicKey | mosaicCount => exact Printer.steady_text _
  | uint8 | mosaicQuantity => exact steady_printRead (fun _ => Printer.steady_text _) data
  | uint16 => exact steady_printRead Printer.steady_hexNumeral data
  | uint32 => exact steady_printRead (fun _ => Printer.steady_text _) data
  | uint64 =>
    cases id with
    | duration => exact steady_printRead (fun _ => Printer.steady_text _) data
    | _ => exact Printer.steady_hex .upper true data
  | hash256 => exact Printer.steady_hex .upper false data
  | address => exact steady_printAddress ⟨id, .address, data⟩ network
  | xem => exact steady_printRead (fun _ => Printer.steady_token _ _ _) data
  | message =>
    cases data with
    | nil => exact steady_printMessage_nil id
    | cons byte rest => exact absurd (.inr (.inl ⟨rfl, List.cons_ne_nil byte rest⟩)) h
  | text =>
    by_cases hunknown : id = .unknownMosaic
    · rw [hunknown]
      exact Printer.steady_text _
    · by_cases hroot : id = .rootNamespace
      · rw [hroot]
        exact Printer.steady_text _
      · exact absurd (.inr (.inr ⟨rfl, hunknown, hroot⟩)) h
  | property => exact absurd (.inl rfl) h

/-! ### Free text -/

theorem printRead_trims {α : Type} {reading : Cursor.Reading α} {print : α → Printer} {piece : Nat}
    (h : ∀ value, Trims piece (print value)) (data : Bytes) :
    Trims piece (printRead data reading print) := by
  unfold printRead
  split
  · next value _ => exact h value
  · next error _ => exact Printer.trims_fail piece error

theorem sanitised_trims (data : Bytes) : Trims 1 (Printer.sanitised data) :=
  (Printer.sanitised_cuts data).trims

theorem printText_trims {id : FieldId} (hunknown : id ≠ .unknownMosaic)
    (hroot : id ≠ .rootNamespace) (data : Bytes) : Trims 1 (printText id data) := by
  unfold printText
  split
  · exact absurd rfl hunknown
  · exact absurd rfl hroot
  · exact printRead_trims (fun names : Bytes × Bytes => (names_cuts names.1 names.2).trims) data
  · exact printRead_trims (fun names : Bytes × Bytes => (names_cuts names.1 names.2).trims) data
  · exact sanitised_trims data

theorem print_trims {field : Field} (h : field.IsFreeText) (network : Network) :
    Trims field.piece (field.print network) := by
  obtain ⟨id, type, data⟩ := field
  rcases h with htype | ⟨htype, hdata⟩ | ⟨htype, hunknown, hroot⟩
  · obtain rfl : type = .property := htype
    exact printRead_trims (fun names : Bytes × Bytes => sanitised_trims names.2) data
  · obtain rfl : type = .message := htype
    cases data with
    | nil => exact absurd rfl hdata
    | cons first rest =>
      change Trims _ (printMessage id (first :: rest))
      rw [printMessage]
      by_cases hmarker : first = hexMarker
      · have hpiece : piece ⟨id, .message, first :: rest⟩ = 2 :=
          if_pos ⟨rfl, congrArg some hmarker⟩
        rw [if_pos hmarker, hpiece]
        exact Printer.hexTruncated_trims rest
      · have hpiece : piece ⟨id, .message, first :: rest⟩ = 1 :=
          if_neg fun h => hmarker (Option.some.inj h.2)
        rw [if_neg hmarker, hpiece]
        exact sanitised_trims (first :: rest)
  · obtain rfl : type = .text := htype
    exact printText_trims hunknown hroot data

/-! ### Two buffers -/

/-- The routine that writes piece by piece comes to the same value. -/
theorem checkedValue_eq_ok {field : Field} {shown : Bytes} :
    field.checkedValue network buffer = .ok shown ↔ field.value network buffer = .ok shown := by
  rcases field.checkedValue_eq network buffer with
    ⟨hchecked, hvalue⟩ | ⟨shown', hchecked, hvalue, -⟩
  · rw [hchecked, hvalue]
    exact ⟨nofun, nofun⟩
  · rw [hchecked, hvalue, Except.ok.injEq, Except.ok.injEq]

/-- The size of a buffer never changes a value. What a buffer shows whole is shown by every larger
one, and free text is shown in both or in neither, cut to as many of its bytes as the smaller has
room for. A message of digits is cut to an even number of them. So it is also where the value is
written piece by piece, and all positions are looked at. -/
theorem value_resized (field : Field) (network : Network) {buffer buffer' : Bytes}
    (hsize : buffer.length ≤ buffer'.length) :
    (¬field.IsFreeText → ∀ shown, field.value network buffer = .ok shown →
      field.value network buffer' = .ok shown) ∧
    (field.IsFreeText →
      ((∃ shown, field.value network buffer = .ok shown) ↔
        ∃ shown, field.value network buffer' = .ok shown) ∧
      ∀ written, (field.print network).run buffer' = .ok written →
        (field.print network).run buffer = .ok (fitting field.piece buffer.length written) ∧
        field.value network buffer' = .ok (spaced written) ∧
        field.value network buffer = .ok (spaced (fitting field.piece buffer.length written))) ∧
    (∀ cells shown, field.checkedValue network cells = .ok shown ↔
      field.value network cells = .ok shown) := by
  refine ⟨fun hwhole shown hvalue => ?_, fun hfree => ?_, fun cells shown => checkedValue_eq_ok⟩
  · cases hrun : (field.print network).run buffer with
    | error error =>
      rw [value_of_run_error hrun] at hvalue
      cases hvalue
    | ok written =>
      rw [value_of_run hrun] at hvalue
      rw [value_of_run (steady_print hwhole network _ _ _ hsize hrun), hvalue]
  · rcases print_trims hfree network buffer buffer' hsize with
      ⟨error, hrun, hrun'⟩ | ⟨written, hrun', hrun⟩
    · rw [value_of_run_error hrun, value_of_run_error hrun', hrun']
      exact ⟨Iff.rfl, nofun⟩
    · refine ⟨⟨fun _ => ⟨_, value_of_run hrun'⟩, fun _ => ⟨_, value_of_run hrun⟩⟩, ?_⟩
      intro other hother
      obtain rfl : written = other := Except.ok.inj (hrun'.symm.trans hother)
      exact ⟨hrun, value_of_run hrun', value_of_run hrun⟩

/-- An amount that five bytes have room for, and a message of digits in three bytes, of which an
even number is used. -/
theorem value_resized_amount_message :
    value ⟨.fee, .xem, Bytes.ofNatLE 8 5000000⟩ .testnet (List.replicate 64 0) =
      .ok [0x35, 0x20, 0x58, 0x45, 0x4d] ∧
    value ⟨.plainMessage, .message, [hexMarker, 0xab, 0xcd]⟩ .testnet (List.replicate 3 0) =
      .ok [0x61, 0x62] := by
  have hfive : (List.replicate 5 0 : Bytes).length ≤ (List.replicate 64 0 : Bytes).length := by
    decide
  have hthree : (List.replicate 3 0 : Bytes).length ≤ (List.replicate 64 0 : Bytes).length := by
    decide
  constructor
  · exact (value_resized _ .testnet hfive).1 (by simp [IsFreeText]) _ rfl
  · have hfree : IsFreeText ⟨.plainMessage, .message, [hexMarker, 0xab, 0xcd]⟩ :=
      .inr (.inl ⟨rfl, List.cons_ne_nil _ _⟩)
    obtain ⟨-, -, hvalue⟩ := ((value_resized _ .testnet hthree).2.1 hfree).2 _ rfl
    exact hvalue

end Field

end NemSigner
