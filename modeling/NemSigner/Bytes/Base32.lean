import NemSigner.Bytes.Integer

/-!
# Base 32 text

Five bytes and eight symbols both hold forty bits. A byte string of whole five byte blocks is read
as one number, highest byte first, and that number is written in base 32, highest digit first, with
the symbols `A` to `Z` and `2` to `7`.

## Main definitions

- `Base32.encode` — the symbols of a byte string
- `Base32.decode` — the bytes that symbols spell
-/

namespace NemSigner

namespace Base32

def symbol (value : Nat) : UInt8 :=
  if value < 26 then (0x41 + value).toUInt8 else (0x32 + (value - 26)).toUInt8

def value? (character : UInt8) : Option Nat :=
  if 0x41 ≤ character && character ≤ 0x5a then some (character.toNat - 0x41)
  else if 0x32 ≤ character && character ≤ 0x37 then some (character.toNat - 0x32 + 26)
  else none

/-- The `count` lowest digits in base 32, lowest first. -/
def digits : Nat → Nat → List Nat
  | 0, _ => []
  | count + 1, n => n % 32 :: digits count (n / 32)

/-- The number whose digits in base 32 are given lowest first. -/
def ofDigits : List Nat → Nat
  | [] => 0
  | digit :: rest => digit + 32 * ofDigits rest

/-- The symbols of a string of whole five byte blocks, eight to a block. -/
def encode (data : Bytes) : Bytes :=
  (digits (data.length / 5 * 8) (Bytes.toNatBE data)).reverse.map symbol

/-- The bytes that whole blocks of eight symbols spell. -/
def decode (text : Bytes) : Option Bytes :=
  if text.length % 8 = 0 then
    (text.mapM value?).map fun values =>
      Bytes.ofNatBE (text.length / 8 * 5) (ofDigits values.reverse)
  else none

@[simp] theorem length_digits (count n : Nat) : (digits count n).length = count := by
  induction count generalizing n with
  | zero => rfl
  | succ count ih => simp [digits, ih]

@[simp] theorem length_encode (data : Bytes) : (encode data).length = data.length / 5 * 8 := by
  simp [encode]

end Base32

end NemSigner
