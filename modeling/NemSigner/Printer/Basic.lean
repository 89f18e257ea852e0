import NemSigner.Bytes.Basic
import NemSigner.DecodeError

/-!
# Printers

A printer writes at the front of a buffer of fixed size and says how many bytes it wrote. Most
printers write a text whole or not at all; the others cut a text where the buffer ends.

## Main definitions

- `Printer` — what a buffer becomes, with the number of bytes written or the reason for stopping
- `Printer.text` — writes a text whole or fails
- `Printer.append` — writes a second text behind a first one
- `Printer.run` — the bytes that were written
-/

namespace NemSigner

/-- What a printer leaves: the number of bytes written at the front, or why it stopped, and the
buffer. -/
structure Printed where
  outcome : Except DecodeError Nat
  buffer : Bytes

/-- A way of filling the front of a buffer. -/
def Printer : Type :=
  Bytes → Printed

namespace Printer

/-- Writes nothing and fails. -/
def fail (error : DecodeError) : Printer := fun buffer =>
  ⟨.error error, buffer⟩

/-- Writes a text whole, or fails and writes nothing when the buffer is shorter. -/
def text (content : Bytes) : Printer := fun buffer =>
  if content.length ≤ buffer.length then
    ⟨.ok content.length, content ++ buffer.drop content.length⟩
  else ⟨.error .notEnoughData, buffer⟩

/-- Runs the first printer, then the second on what the first left free. -/
def append (first second : Printer) : Printer := fun buffer =>
  match first buffer with
  | ⟨.error error, left⟩ => ⟨.error error, left⟩
  | ⟨.ok count, left⟩ =>
    let tail := second (left.drop count)
    ⟨tail.outcome.map (count + ·), left.take count ++ tail.buffer⟩

instance : Append Printer where
  append := append

/-- The bytes that a printer writes into a buffer. -/
def run (printer : Printer) (buffer : Bytes) : Except DecodeError Bytes :=
  let printed := printer buffer
  printed.outcome.map fun count => printed.buffer.take count

theorem run_text (content buffer : Bytes) :
    (text content).run buffer =
      if content.length ≤ buffer.length then .ok content else .error .notEnoughData := by
  by_cases fits : content.length ≤ buffer.length <;> simp [run, text, fits, Except.map]

end Printer

end NemSigner
