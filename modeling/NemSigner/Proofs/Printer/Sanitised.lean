import NemSigner.Printer.Hex
import NemSigner.Printer.Sanitised

/-!
# Printers that cut their text

Text that comes from a transaction is cut where the buffer ends. What such a printer leaves is the
front of one text, which does not depend on the buffer.

## Main definitions

- `Bytes.Printable`, `Bytes.Legible` — a screen can show all bytes as they are, and there are some
- `Printer.Cuts` — a printer writes as much of a text as fits
- `Printer.cleaned` — what sanitising makes of a whole text

## Main statements

- `Printer.Cuts.append` — two such printers in a row cut the two texts in a row
- `Printer.sanitised_cuts` — sanitised text is cut
- `Printer.cleaned_printable` — and it can be shown
-/

namespace NemSigner

/-- A screen can show all bytes as they are. -/
def Bytes.Printable (text : Bytes) : Prop :=
  ∀ byte ∈ text, Bytes.isPrintable byte = true

instance (text : Bytes) : Decidable text.Printable :=
  List.decidableBAll (fun byte => Bytes.isPrintable byte = true) text

/-- There is something to be shown, and a screen can show all of it. -/
def Bytes.Legible (text : Bytes) : Prop :=
  text ≠ [] ∧ text.Printable

instance (text : Bytes) : Decidable text.Legible :=
  inferInstanceAs (Decidable (text ≠ [] ∧ text.Printable))

theorem Bytes.isPrintable_iff {byte : UInt8} :
    isPrintable byte = true ↔ 0x20 ≤ byte.toNat ∧ byte.toNat ≤ 0x7e := by
  simp only [isPrintable, Bool.and_eq_true, decide_eq_true_eq, UInt8.le_iff_toNat_le]
  exact Iff.rfl

namespace Bytes.Printable

variable {text text' : Bytes}

theorem nil : Printable [] := nofun

theorem cons {byte : UInt8} (hbyte : isPrintable byte = true) (h : Printable text) :
    Printable (byte :: text) :=
  List.forall_mem_cons.mpr ⟨hbyte, h⟩

theorem append (h : Printable text) (h' : Printable text') : Printable (text ++ text') :=
  List.forall_mem_append.mpr ⟨h, h'⟩

theorem take (h : Printable text) (count : Nat) : Printable (text.take count) :=
  fun byte hbyte => h byte (List.mem_of_mem_take hbyte)

end Bytes.Printable

namespace Printer

/-- Writes as much of a text as fits, and leaves the rest of the buffer as it was. -/
def Cuts (printer : Printer) (text : Bytes) : Prop :=
  ∀ buffer, printer buffer =
    ⟨.ok (text.take buffer.length).length,
      text.take buffer.length ++ buffer.drop (text.take buffer.length).length⟩

section Cuts

variable {first second printer : Printer} {text text' : Bytes}

theorem Cuts.run (h : Cuts printer text) (buffer : Bytes) :
    printer.run buffer = .ok (text.take buffer.length) := by
  rw [Printer.run, h buffer]
  simp only [Except.map, List.take_left]

/-- The second printer finds what the first left free. -/
theorem Cuts.append (h : Cuts first text) (h' : Cuts second text') :
    Cuts (first ++ second) (text ++ text') := by
  intro buffer
  change Printer.append first second buffer = _
  have hroom : (buffer.drop (text.take buffer.length).length).length =
      buffer.length - text.length := by
    simp only [List.length_drop, List.length_take]
    omega
  have hshown : (text ++ text').take buffer.length =
      text.take buffer.length ++ text'.take (buffer.length - text.length) := List.take_append
  rw [hshown, Printer.append, h buffer]
  simp only [List.drop_left, List.take_left, h' _, hroom, Except.map, List.length_append,
    List.drop_drop, List.append_assoc]

end Cuts

/-- What sanitising makes of a whole text; `paired` says that a replaced byte stands before it. -/
def cleanedAfter (paired : Bool) : Bytes → Bytes
  | [] => []
  | byte :: rest =>
    if Bytes.isPrintable byte then byte :: cleanedAfter false rest
    else if paired then cleanedAfter false rest
    else questionMark :: cleanedAfter true rest

/-- What sanitising makes of a whole text. -/
def cleaned (text : Bytes) : Bytes :=
  cleanedAfter false text

theorem fillSanitised_eq (paired : Bool) (data cells : Bytes) :
    fillSanitised paired data cells =
      (((cleanedAfter paired data).take cells.length).length,
        (cleanedAfter paired data).take cells.length ++
          cells.drop ((cleanedAfter paired data).take cells.length).length) := by
  -- Each step writes one cell, or passes over the second byte of a pair.
  induction data generalizing paired cells with
  | nil => simp [fillSanitised, cleanedAfter]
  | cons byte rest ih =>
    cases cells with
    | nil => simp [fillSanitised]
    | cons cell cells =>
      rw [fillSanitised, cleanedAfter]
      by_cases hshown : Bytes.isPrintable byte = true
      · simp [hshown, ih]
      · cases paired with
        | true => simp [hshown, ih]
        | false => simp [hshown, ih]

theorem sanitised_cuts (data : Bytes) : Cuts (sanitised data) (cleaned data) := by
  intro buffer
  rw [sanitised, fillSanitised_eq]
  rfl

theorem cleanedAfter_printable (paired : Bool) (data : Bytes) :
    Bytes.Printable (cleanedAfter paired data) := by
  induction data generalizing paired with
  | nil => exact .nil
  | cons byte rest ih =>
    rw [cleanedAfter]
    split
    · next hshown => exact .cons hshown (ih false)
    · split
      · exact ih false
      · exact .cons rfl (ih true)

theorem cleaned_printable (data : Bytes) : Bytes.Printable (cleaned data) :=
  cleanedAfter_printable false data

/-- Sanitising makes no text longer. -/
theorem length_cleanedAfter_le (paired : Bool) (data : Bytes) :
    (cleanedAfter paired data).length ≤ data.length := by
  induction data generalizing paired with
  | nil => exact Nat.le_refl 0
  | cons byte rest ih =>
    rw [cleanedAfter]
    split
    · exact Nat.succ_le_succ (ih false)
    · split
      · exact Nat.le_trans (ih false) (Nat.le_succ _)
      · exact Nat.succ_le_succ (ih true)

/-- Something of every text but the empty one is left. -/
theorem cleaned_eq_nil {data : Bytes} : cleaned data = [] ↔ data = [] := by
  cases data with
  | nil => exact ⟨fun _ => rfl, fun _ => rfl⟩
  | cons byte rest =>
    rw [cleaned, cleanedAfter]
    split <;> simp

end Printer

end NemSigner
