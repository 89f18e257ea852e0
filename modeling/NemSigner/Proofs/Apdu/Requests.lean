import NemSigner.Proofs.Bytes.Written
import NemSigner.Session.Event

/-!
# Written requests

A path that names a key, and a request to sign with it, are read back from what is written of them.

## Main definitions

- `SignRequest.WellFormed` — requests that can be written and read

## Main statements

- `DerivationPath.decode_cases` — what bytes are read as a path
- `DerivationPath.decode_toBytes` — a path is read back, whatever follows it
- `SignRequest.decode_toBytes` — a request is read back from its whole payload
- `Event.ofCommand_toBytes` — the device understands a written request
-/

namespace NemSigner

namespace DerivationPath

theorem length_flatMap_ofNatBE (elements : List UInt32) :
    (elements.flatMap fun element => Bytes.ofNatBE 4 element.toNat).length =
      4 * elements.length := by
  induction elements with
  | nil => rfl
  | cons element elements ih =>
    rw [List.flatMap_cons, List.length_append, ih, Bytes.length_ofNatBE, List.length_cons]
    omega

@[simp] theorem length_toBytes (path : DerivationPath) :
    path.toBytes.length = path.encodedLength := by
  rw [toBytes, List.length_cons, length_flatMap_ofNatBE, encodedLength, depth]
  omega

/-- Elements are read back from the front of what they are written to. -/
theorem elementsOf_append (elements : List UInt32) (rest : Bytes) :
    elementsOf elements.length
        ((elements.flatMap fun element => Bytes.ofNatBE 4 element.toNat) ++ rest) = elements := by
  induction elements with
  | nil => rfl
  | cons element elements ih =>
    have hwidth : (Bytes.ofNatBE 4 element.toNat).length = 4 := Bytes.length_ofNatBE _ _
    rw [List.flatMap_cons, List.append_assoc, List.length_cons, elementsOf,
      List.take_left' hwidth, List.drop_left' hwidth, ih, Bytes.toNatBE_ofNatBE_uint32]
    simp

/-- What is read as a path is a depth that a path can have, and all of its elements. -/
theorem decode_cases {data : Bytes} {path : DerivationPath} {count : Nat}
    (h : decode data = .ok (path, count)) :
    ∃ first rest, data = first :: rest ∧ first.toNat ≠ 0 ∧ first.toNat ≤ Limits.maxPathDepth ∧
      4 * first.toNat ≤ rest.length ∧ path.elements = elementsOf first.toNat rest ∧
      count = 1 + 4 * first.toNat := by
  cases data with
  | nil => cases h
  | cons first rest =>
    rw [decode] at h
    split at h
    · cases h
    · next hzero =>
      split at h
      · next hdepth =>
        split at h
        · cases h
        · next hroom =>
          obtain ⟨rfl, rfl⟩ := Prod.mk.inj (Except.ok.inj h)
          exact ⟨first, rest, rfl, hzero, hdepth, Nat.le_of_not_lt hroom, rfl, rfl⟩
      · cases h

/-- A path that names a key is read back, whatever follows it. -/
theorem decode_toBytes {path : DerivationPath} (hnamed : path.elements ≠ []) (rest : Bytes) :
    decode (path.toBytes ++ rest) = .ok (path, path.encodedLength) := by
  obtain ⟨elements, hdepth⟩ := path
  have hpositive : 0 < elements.length := List.length_pos_iff.mpr hnamed
  have hbyte : elements.length.toUInt8.toNat = elements.length :=
    UInt8.toNat_ofNat_of_lt' (Nat.lt_of_le_of_lt hdepth (by decide))
  have hroom : ¬((elements.flatMap fun element => Bytes.ofNatBE 4 element.toNat) ++ rest).length <
      4 * elements.length := by
    rw [List.length_append, length_flatMap_ofNatBE]
    omega
  simp only [toBytes, depth, List.cons_append, decode, hbyte, if_neg (Nat.ne_of_gt hpositive),
    dif_pos hdepth, if_neg hroom, elementsOf_append, encodedLength]

end DerivationPath

/-- The byte of some flags gives them back. -/
@[simp] theorem SignFlags.ofByte_toByte (flags : SignFlags) : ofByte flags.toByte = flags := by
  obtain ⟨_ | _, _ | _⟩ := flags <;> rfl

namespace Apdu

/-- A message that there is room for is placed whole. -/
theorem place_of_le {capacity : Nat} {message : Bytes} (h : message.length ≤ capacity) :
    place capacity message = .ok message :=
  if_pos h

end Apdu

namespace SignRequest

variable {request : SignRequest}

/-- A path is there exactly when the chunk is the first, and then it names a key. -/
structure WellFormed (request : SignRequest) : Prop where
  consistent : request.isConsistent = true
  named : ∀ path, request.path = some path → path.elements ≠ []

theorem first_wellFormed {path : DerivationPath} (hnamed : path.elements ≠ []) (data : Bytes)
    (more : Bool) : (first path data more).WellFormed where
  consistent := rfl
  named := by
    rintro _ ⟨⟩
    exact hnamed

theorem next_wellFormed (data : Bytes) (more : Bool) : (next data more).WellFormed where
  consistent := rfl
  named := nofun

@[simp] theorem length_toBytes (request : SignRequest) :
    request.toBytes.length = request.encodedLength := by
  rw [toBytes, encodedLength, List.length_append, Nat.add_comm]
  cases request.path with
  | none => rfl
  | some path => rw [path.length_toBytes]

/-- A request without contradiction is written whenever there is room for it. -/
theorem encode_of_le {capacity : Nat} (h : request.WellFormed)
    (hroom : request.encodedLength ≤ capacity) : request.encode capacity = .ok request.toBytes := by
  rw [encode, if_pos h.consistent]
  exact Apdu.place_of_le (request.length_toBytes ▸ hroom)

/-- A request is read back from its whole payload. -/
theorem decode_toBytes (h : request.WellFormed) :
    decode request.flags.toByte request.toBytes = .ok (request, request.toBytes.length) := by
  obtain ⟨flags, path?, data⟩ := request
  have hfirst : path?.isSome = flags.isFirst := beq_iff_eq.mp h.consistent
  rw [decode]
  simp only [SignFlags.ofByte_toByte, ← hfirst]
  cases path? with
  | none => rfl
  | some path =>
    have hdecode := DerivationPath.decode_toBytes (h.named path rfl) data
    have hbehind : (path.toBytes ++ data).drop path.encodedLength = data :=
      List.drop_left' path.length_toBytes
    simp only [toBytes, Option.isSome_some, if_true, hdecode, bind, Except.bind, hbehind]
    rfl

end SignRequest

/-- The device understands a written request. -/
theorem Event.ofCommand_toBytes {request : SignRequest} (h : request.WellFormed) :
    ofCommand (Coded.code Instruction.sign).toUInt8 request.flags.toByte request.toBytes =
      .ok (ofSignRequest request) := by
  have hsign : (Coded.ofCode? (Coded.code Instruction.sign).toUInt8.toNat : Option Instruction) =
      some .sign := rfl
  rw [ofCommand, hsign]
  dsimp only
  rw [SignRequest.decode_toBytes h]

end NemSigner
