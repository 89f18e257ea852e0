/-!
# Byte strings

Everything that crosses a boundary of the signer is a finite string of bytes: transactions, messages
between host and device, and the text put on the screen.

## Main definitions

- `Bytes` — a string of bytes
- `Bytes.ofText`, `Bytes.toText?` — the UTF-8 form of a text, and back
- `Bytes.isPrintable` — the bytes a screen can show as they are
-/

namespace NemSigner

/-- A string of bytes. -/
abbrev Bytes := List UInt8

namespace Bytes

/-- The UTF-8 bytes of a text. -/
def ofText (text : String) : Bytes :=
  text.toUTF8.data.toList

/-- The text spelled by UTF-8 bytes; other byte strings spell none. -/
def toText? (bytes : Bytes) : Option String :=
  String.fromUTF8? ⟨bytes.toArray⟩

/-- The space, and the visible characters of ASCII. -/
def isPrintable (byte : UInt8) : Bool :=
  0x20 ≤ byte && byte ≤ 0x7e

end Bytes

end NemSigner
