import NemSigner.Address
import NemSigner.Limits
import NemSigner.Proofs.Checked.Data
import NemSigner.Proofs.Checked.Decimal

/-!
# Addresses, checked

The bytes of an address are put into cells of their own, each part in its place, and the checksum is
that of the cells in front of it. The places and the lengths of the parts agree.

## Main definitions

- `Pen.filled` — cells of its own that a routine has filled
- `Pen.fillRaw` — the bytes an address stands for
- `Pen.address` — the address of a public key

## Main statements

- `Pen.address_writes` — an address is written as one text
-/

namespace NemSigner

namespace Pen

/-- Reads some of the cells. -/
def part (start stop : Nat) : Pen Bytes := fun cells =>
  slice cells start stop cells

/-- Cells of its own that a routine has filled. -/
def filled (size : Nat) (pen : Pen Unit) : Pen Bytes := fun cells => do
  let ((), left) ← pen (List.replicate size 0)
  return (left, cells)

/-- Puts the network, the digest of a key and the checksum of both in their places. -/
def fillRaw (network : Network) (key : Bytes) : Pen Unit := do
  put 0 network.byte
  behind 1 (within 20 (copy (Ripemd160.digest (network.algorithm.digest key))))
  let payload ← part 0 21
  let checksum ← slice (network.algorithm.digest payload) 0 4
  behind 21 (copy checksum)

/-- Writes the address of a key, which must have the length of one. -/
def address (network : Network) (data : Bytes) : Pen Nat := do
  let key ← filled Limits.publicKeyLength (copy data)
  let raw ← filled Limits.rawAddressLength (fillRaw network key)
  let text ← filled Limits.addressLength (copy (Base32.encode raw))
  str text

variable {pen : Pen Unit} {front content data : Bytes}

theorem filled_of_ok {size : Nat} (h : pen (List.replicate size 0) = .ok ((), content))
    (cells : Bytes) : filled size pen cells = .ok (content, cells) := by
  rw [filled, h]
  rfl

theorem filled_copy {size : Nat} (h : content.length = size) (cells : Bytes) :
    filled size (copy content) cells = .ok (content, cells) :=
  filled_of_ok (copy_eq (h.trans List.length_replicate.symm)) cells

/-- Each part of an address fits the cells in its place. -/
theorem fillRaw_eq (network : Network) (key : Bytes) :
    fillRaw network key (List.replicate Limits.rawAddressLength 0) =
      .ok ((), Address.raw network key) := by
  let digest := Ripemd160.digest (network.algorithm.digest key)
  let payload := Address.payload network key
  let checksum := (network.algorithm.digest payload).take 4
  let zeros (count : Nat) : Bytes := List.replicate count 0
  have hdigest : digest.length = (zeros 20).length := Ripemd160.length_digest _
  have hpayload : payload.length = 21 := congrArg (· + 1) hdigest
  have hlength : (network.algorithm.digest payload).length = 32 := Algorithm.length_digest _ _
  have hchecksum : checksum.length = (zeros 4).length := by
    rw [List.length_take, hlength]
    rfl
  have hnetwork : put 0 network.byte (List.replicate Limits.rawAddressLength 0) =
      .ok ((), [network.byte] ++ (zeros 20 ++ zeros 4)) := rfl
  have hkey : behind 1 (within 20 (copy digest)) ([network.byte] ++ (zeros 20 ++ zeros 4)) =
      .ok ((), payload ++ zeros 4) := by
    have hwithin := within_append (show (zeros 20).length = 20 from rfl) (copy digest) (zeros 4)
    rw [copy_eq hdigest] at hwithin
    change behind [network.byte].length _ _ = _
    rw [behind_append, hwithin]
    rfl
  have hpart : part 0 21 (payload ++ zeros 4) = .ok (payload, payload ++ zeros 4) := by
    have hroom : 21 ≤ (payload ++ zeros 4).length := by
      rw [List.length_append, hpayload]
      exact Nat.le_add_right _ _
    rw [part, slice_of_le (Nat.zero_le _) hroom, List.take_left' hpayload]
    rfl
  have hslice : slice (network.algorithm.digest payload) 0 4 (payload ++ zeros 4) =
      .ok (checksum, payload ++ zeros 4) :=
    slice_of_le (Nat.zero_le _) (hlength ▸ by decide) _
  have hend : behind 21 (copy checksum) (payload ++ zeros 4) = .ok ((), payload ++ checksum) := by
    rw [← hpayload, behind_append, copy_eq hchecksum]
    rfl
  rw [fillRaw, bind_of_ok hnetwork, bind_of_ok hkey, bind_of_ok hpart, bind_of_ok hslice]
  exact hend

/-- An address is written as one text. -/
theorem address_writes (network : Network) (hdata : data.length = Limits.publicKeyLength) :
    Writes [] (address network data) (Address.ofPublicKey network data) :=
  Writes.silent (filled_copy hdata) <|
    Writes.silent (filled_of_ok (fillRaw_eq network data)) <|
      Writes.silent (filled_copy (Address.length_ofPublicKey network data)) (str_writes _)

end Pen

end NemSigner
