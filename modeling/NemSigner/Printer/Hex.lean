import NemSigner.Bytes.Hex
import NemSigner.Bytes.Integer
import NemSigner.Printer.Basic

/-!
# Hexadecimal printers

## Main definitions

- `Printer.hex` — all digits of a byte string, or failure
- `Printer.hexTruncated` — the digits of as many whole bytes as fit
- `Printer.hexNumeral` — a number without leading zeros
-/

namespace NemSigner

namespace Printer

/-- Writes the digits of a byte string, which must not be empty, from its front or from its back. -/
def hex (letters : Hex.LetterCase) (backwards : Bool) (data : Bytes) : Printer :=
  if data.isEmpty then fail .notEnoughData
  else text (Hex.encode letters (if backwards then data.reverse else data))

/-- Writes the digits of the first bytes, as many as fit. -/
def hexTruncated (data : Bytes) : Printer := fun buffer =>
  text (Hex.encode .lower (data.take (buffer.length / 2))) buffer

/-- A number's bytes, highest first, without the zeros in front; one zero byte for zero. -/
def significantBytes : Bytes → Bytes
  | [] => []
  | [byte] => [byte]
  | byte :: rest => if byte = 0 then significantBytes rest else byte :: rest

/-- Writes a number of sixty-four bits without leading zeros. The buffer has to hold both digits of
the highest byte, also when the first of them is a zero. Such a zero is written too, and then the
others move to the front, so that the last of them stands a second time behind the number. -/
def hexNumeral (n : Nat) : Printer := fun buffer =>
  let digits := Hex.encode .lower (significantBytes (Bytes.ofNatBE 8 n))
  let written := digits ++ buffer.drop digits.length
  if buffer.length < digits.length then ⟨.error .notEnoughData, buffer⟩
  else match digits with
    | 0x30 :: rest => ⟨.ok rest.length, rest ++ written.drop rest.length⟩
    | _ => ⟨.ok digits.length, written⟩

end Printer

end NemSigner
