import NemSigner.Bytes.Basic

/-!
# Integers as byte strings

An unsigned integer of a fixed width is written as that many bytes. Transactions write the lowest
byte first, messages between host and device write the highest byte first.

## Main definitions

- `Bytes.ofNatLE`, `Bytes.toNatLE` — lowest byte first
- `Bytes.ofNatBE`, `Bytes.toNatBE` — highest byte first
- `Bytes.bound` — how many numbers a width has room for
- `Bytes.prefixed` — a byte string with its length in front
- `Bytes.uintAt` — the integer that stands at a position

## Main statements

- `Bytes.toNatLE_ofNatLE` — reading gives back what was written, reduced to the width
- `Bytes.ofNatLE_toNatLE` — every byte string is the written form of its own value
-/

namespace NemSigner

namespace Bytes

/-- The `width` lowest bytes of a number, lowest first. -/
def ofNatLE : Nat → Nat → Bytes
  | 0, _ => []
  | width + 1, n => n.toUInt8 :: ofNatLE width (n / 256)

/-- How many numbers can be written in `width` bytes. -/
def bound : Nat → Nat
  | 0 => 1
  | width + 1 => 256 * bound width

/-- The number whose bytes are given lowest first. -/
def toNatLE : Bytes → Nat
  | [] => 0
  | byte :: rest => byte.toNat + 256 * toNatLE rest

/-- The `width` lowest bytes of a number, highest first. -/
def ofNatBE (width n : Nat) : Bytes :=
  (ofNatLE width n).reverse

/-- The number whose bytes are given highest first. -/
def toNatBE (bytes : Bytes) : Nat :=
  toNatLE bytes.reverse

/-- A byte string with its length in four bytes in front. -/
def prefixed (data : Bytes) : Bytes :=
  ofNatLE 4 data.length ++ data

/-- The integer of `width` bytes, lowest first, that stands at `offset`. -/
def uintAt (width offset : Nat) (data : Bytes) : Nat :=
  toNatLE ((data.drop offset).take width)

@[simp] theorem length_ofNatLE (width n : Nat) : (ofNatLE width n).length = width := by
  induction width generalizing n with
  | zero => rfl
  | succ width ih => simp [ofNatLE, ih]

@[simp] theorem length_ofNatBE (width n : Nat) : (ofNatBE width n).length = width := by
  simp [ofNatBE]

@[simp] theorem length_prefixed (data : Bytes) : (prefixed data).length = 4 + data.length := by
  simp [prefixed]

theorem toNatLE_lt (bytes : Bytes) : toNatLE bytes < bound bytes.length := by
  induction bytes with
  | nil => simp [toNatLE, bound]
  | cons byte rest ih =>
    have hb := byte.toNat_lt
    simp only [toNatLE, List.length_cons, bound]
    omega

theorem toNatLE_ofNatLE (width n : Nat) : toNatLE (ofNatLE width n) = n % bound width := by
  induction width generalizing n with
  | zero => simp [ofNatLE, toNatLE, bound, Nat.mod_one]
  | succ width ih =>
    simp only [ofNatLE, toNatLE, ih, bound, Nat.mod_mul]
    simp

theorem ofNatLE_toNatLE (bytes : Bytes) : ofNatLE bytes.length (toNatLE bytes) = bytes := by
  induction bytes with
  | nil => rfl
  | cons byte rest ih =>
    have hb := byte.toNat_lt
    have hd : (byte.toNat + 256 * toNatLE rest) / 256 = toNatLE rest := by omega
    simp only [List.length_cons, ofNatLE, toNatLE, hd, ih, List.cons.injEq, and_true]
    apply UInt8.toNat_inj.mp
    simp

end Bytes

end NemSigner
