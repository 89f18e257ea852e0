import NemSigner.Field.Value
import NemSigner.Proofs.Bytes.Base32
import NemSigner.Proofs.Checked.Data
import NemSigner.Proofs.Checked.Decimal
import NemSigner.Proofs.Checked.Reading

/-!
# Rendering

A routine renders a printer when it leaves what the printer leaves, a screen can show that, and the
only refusal is for want of cells or of bytes. The routines for texts, digits and sanitised text
each render their printer.

## Main definitions

- `Pen.Renders` — a routine does what a printer does, and a screen can show it

## Main statements

- `Bytes.Printable.isSome_toText?` — bytes that a screen can show are text
- `Pen.Writes.renders`, `Pen.Cuts.renders` — what is written, or cut, is rendered
- `Pen.renders_printRead` — and so is what is read first
-/

namespace NemSigner

theorem Bytes.utf8EncodeChar_ofNat :
    ∀ code < 0x7f, String.utf8EncodeChar (Char.ofNat code) = [code.toUInt8] := by
  decide +kernel

/-- Bytes that a screen can show are the UTF-8 form of as many characters. -/
theorem Bytes.Printable.isSome_toText? {text : Bytes} (h : text.Printable) :
    (Bytes.toText? text).isSome = true := by
  have hbyte (byte : UInt8) (hmem : byte ∈ text) :
      String.utf8EncodeChar (Char.ofNat byte.toNat) = [byte] := by
    have hrange := Bytes.isPrintable_iff.mp (h byte hmem)
    rw [Bytes.utf8EncodeChar_ofNat _ (Nat.lt_succ_of_le hrange.2)]
    simp
  have hflat : text.flatMap (fun byte => String.utf8EncodeChar (Char.ofNat byte.toNat)) = text := by
    rw [List.flatMap_def, List.map_congr_left hbyte, ← List.flatMap_def]
    exact List.flatMap_singleton' text
  have hencode : (⟨text.toArray⟩ : ByteArray) =
      (text.map fun byte => Char.ofNat byte.toNat).utf8Encode := by
    rw [List.utf8Encode, List.flatMap_map, hflat]
    exact ByteArray.ext (by simp)
  have hvalid : (⟨text.toArray⟩ : ByteArray).IsValidUTF8 := ⟨_, hencode⟩
  rw [Bytes.toText?, String.fromUTF8?, dif_pos hvalid]
  rfl

namespace Base32

theorem symbol_printable : ∀ value < 32, Bytes.isPrintable (symbol value) = true := by
  decide

theorem encode_printable (data : Bytes) : (encode data).Printable := by
  intro byte hbyte
  obtain ⟨digit, hdigit, rfl⟩ := List.mem_map.mp hbyte
  exact symbol_printable digit (lt_of_mem_digits (List.mem_reverse.mp hdigit))

end Base32

namespace Pen

variable {α : Type} {content : Bytes} {pen : Pen Nat} {printer : Printer}

/-- The routine writes what the printer prints, and a screen can show it, or both refuse for want of
cells. -/
def Renders (pen : Pen Nat) (printer : Printer) : Prop :=
  ∀ cells : Bytes,
    (pen cells = .error (.refused .notEnoughData) ∧ printer.run cells = .error .notEnoughData) ∨
      ∃ shown left : Bytes, shown.Printable ∧ shown.length ≤ cells.length ∧
        printer.run cells = .ok shown ∧ pen cells = .ok (shown.length, shown ++ left)

theorem Writes.renders (h : Writes [] pen content) (hprintable : content.Printable) :
    Renders pen (Printer.text content) := by
  intro cells
  have hpen := h cells
  have hrun := Printer.run_text content cells
  by_cases hroom : content.length ≤ cells.length
  · rw [if_pos hroom] at hpen hrun
    exact .inr ⟨content, _, hprintable, hroom, hrun, hpen⟩
  · rw [if_neg hroom] at hpen hrun
    exact .inl ⟨hpen, hrun⟩

theorem str_renders (hprintable : content.Printable) :
    Renders (str content) (Printer.text content) :=
  (str_writes content).renders hprintable

theorem Cuts.renders (h : Cuts [] pen content) (hprinter : Printer.Cuts printer content)
    (hprintable : content.Printable) : Renders pen printer := by
  intro cells
  exact .inr ⟨content.take cells.length, _, hprintable.take _, List.length_take_le _ _,
    hprinter.run cells, h cells⟩

theorem ascii_renders (data : Bytes) : Renders (ascii data) (Printer.sanitised data) :=
  (ascii_cuts data).renders (Printer.sanitised_cuts data) (Printer.cleaned_printable data)

theorem hex_renders (letters : Hex.LetterCase) (backwards : Bool) (data : Bytes) :
    Renders (hex letters backwards data) (Printer.hex letters backwards data) := by
  cases data with
  | nil => exact fun cells => .inl ⟨hex_nil letters backwards cells, rfl⟩
  | cons byte rest =>
    exact (hex_writes letters backwards (List.cons_ne_nil byte rest)).renders
      (Hex.encode_printable letters _)

theorem withoutZero_printable {digits : Bytes} (h : digits.Printable) :
    (withoutZero digits).Printable := by
  unfold withoutZero
  split
  · exact (List.forall_mem_cons.mp h).2
  · exact h

theorem hexNumeral_renders {n : Nat} (h : n < 256 ^ 8) :
    Renders (hexNumeral n) (Printer.hexNumeral n) := by
  intro cells
  have hpen := hexNumeral_eq h cells
  have hrun := run_hexNumeral n cells
  rw [printed_hexNumeral] at hpen
  by_cases hroom : (numeralDigits n).length ≤ cells.length
  · rw [if_pos hroom] at hpen hrun
    have hfits := Nat.le_trans (length_withoutZero_le (numeralDigits n)) hroom
    exact .inr ⟨_, _, withoutZero_printable (Hex.encode_printable _ _), hfits, hrun, hpen⟩
  · rw [if_neg hroom] at hpen hrun
    exact .inl ⟨hpen, hrun⟩

theorem hexTruncated_renders (data : Bytes) :
    Renders (hexTruncated data) (Printer.hexTruncated data) := by
  intro cells
  let digits := Hex.encode .lower (data.take (cells.length / 2))
  have hroom : digits.length ≤ cells.length := by
    rw [Hex.length_encode, List.length_take]
    omega
  have hrun : (Printer.hexTruncated data).run cells = .ok digits :=
    (Printer.run_text digits cells).trans (if_pos hroom)
  exact .inr ⟨digits, _, Hex.encode_printable _ _, hroom, hrun, hexTruncated_eq data cells⟩

/-- A value that is read first is rendered, or reading it fails for want of bytes. -/
theorem renders_printRead {taking : Cursor.Taking α} {reading : Cursor.Reading α}
    {next : α → Pen Nat} {print : α → Printer} {data : Bytes}
    (h : Cursor.Follows taking reading)
    (hnext : ∀ value, Cursor.readAll reading data = .ok value →
      Renders (next value) (print value)) :
    Renders (read data taking >>= next) (Field.printRead data reading print) := by
  intro cells
  rcases read_of_follows h data with ⟨value, hread, htake⟩ | ⟨hread, htake⟩
  · rw [bind_of_ok (htake cells), Field.printRead, hread]
    exact hnext value hread cells
  · rw [bind_of_error (htake cells), Field.printRead, hread]
    exact .inl ⟨rfl, rfl⟩

end Pen

end NemSigner
