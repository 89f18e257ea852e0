import NemSigner.Printer.Basic

/-!
# Sanitised text

Text that comes from a transaction is shown without the bytes a screen cannot show. Each run of such
bytes becomes question marks, one for every two bytes, so that a character of two bytes becomes a
single one. The text is cut where the buffer ends.
-/

namespace NemSigner

namespace Printer

def questionMark : UInt8 := 0x3f

/-- Fills the cells of a buffer one by one and counts them. When `paired` holds, the byte before was
replaced, and a byte that cannot be shown belongs to the same question mark. -/
def fillSanitised (paired : Bool) : Bytes → Bytes → Nat × Bytes
  | [], cells => (0, cells)
  | _ :: _, [] => (0, [])
  | byte :: rest, cell :: cells =>
    if Bytes.isPrintable byte then
      let (count, left) := fillSanitised false rest cells
      (count + 1, byte :: left)
    else if paired then fillSanitised false rest (cell :: cells)
    else
      let (count, left) := fillSanitised true rest cells
      (count + 1, questionMark :: left)

/-- Writes as much of a sanitised text as fits. -/
def sanitised (data : Bytes) : Printer := fun buffer =>
  let (count, left) := fillSanitised false data buffer
  ⟨.ok count, left⟩

end Printer

end NemSigner
