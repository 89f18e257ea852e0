import NemSigner.Apdu.Response
import NemSigner.Proofs.Apdu.Requests

/-!
# Messages are written and read without loss

What the two sides send each other is written whole into any buffer that is long enough, and into no
other. It is read back from what is written, and what can be read is written again as it was.

## Main definitions

- `Apdu.RoundTrips` — a format that writes and reads without loss
- `AppConfig.known` — a written configuration without the bits that mean nothing

## Main statements

- `DerivationPath.roundTrips`, `Signature.roundTrips`, `AppConfig.roundTrips` — the formats with a
  length that can be told from their first byte, or is fixed
- `SignRequest.decode_sound` — a payload that is read as a request is written again
- `Apdu.codecs_round_trip` — all formats together
-/

namespace NemSigner

namespace Apdu

variable {α : Type} {valid : α → Prop} {length : α → Nat} {known : Bytes → Bytes}
  {encode : Nat → α → Except ApduError Bytes} {decode : Bytes → Except ApduError (α × Nat)}

/-- A format writes its valid values whole wherever there is room for them, and reads them back
whatever follows. What it reads it writes again, apart from what it does not know. -/
structure RoundTrips (valid : α → Prop) (length : α → Nat)
    (encode : Nat → α → Except ApduError Bytes) (decode : Bytes → Except ApduError (α × Nat))
    (known : Bytes → Bytes) : Prop where
  written : ∀ value, valid value → ∃ message, message.length = length value ∧
    (∀ capacity, encode capacity value =
      if length value ≤ capacity then .ok message else .error .invalidLength) ∧
    ∀ rest, decode (message ++ rest) = .ok (value, length value)
  read : ∀ data value count, decode data = .ok (value, count) →
    valid value ∧ count = length value ∧ count ≤ data.length ∧
      encode count value = .ok (known (data.take count))

/-- A format that places one text for every value. -/
theorem RoundTrips.of_place {toBytes : α → Bytes}
    (hplace : ∀ capacity value, encode capacity value = place capacity (toBytes value))
    (hlength : ∀ value, (toBytes value).length = length value)
    (hdecode : ∀ value, valid value → ∀ rest, decode (toBytes value ++ rest) =
      .ok (value, length value))
    (hread : ∀ data value count, decode data = .ok (value, count) →
      valid value ∧ count = length value ∧ count ≤ data.length ∧
        toBytes value = known (data.take count)) :
    RoundTrips valid length encode decode known where
  written value hvalid :=
    ⟨toBytes value, hlength value, fun capacity => by rw [hplace, place, hlength],
      hdecode value hvalid⟩
  read data value count h := by
    obtain ⟨hvalid, hcount, hle, hbytes⟩ := hread data value count h
    have hroom : (toBytes value).length ≤ count := Nat.le_of_eq ((hlength value).trans hcount.symm)
    exact ⟨hvalid, hcount, hle, by rw [hplace, place_of_le hroom, hbytes]⟩

end Apdu

namespace DerivationPath

/-- The elements that are read are written again. -/
theorem flatMap_elementsOf {count : Nat} {data : Bytes} (h : 4 * count ≤ data.length) :
    ((elementsOf count data).flatMap fun element => Bytes.ofNatBE 4 element.toNat) =
      data.take (4 * count) := by
  induction count generalizing data with
  | zero => rfl
  | succ count ih =>
    have hfront : (data.take 4).length = 4 := List.length_take_of_le (by omega)
    have hrest : 4 * count ≤ (data.drop 4).length := by
      rw [List.length_drop]
      omega
    rw [elementsOf, List.flatMap_cons, Bytes.ofNatBE_toUInt32 hfront, ih hrest, ← List.take_add,
      Nat.mul_succ, Nat.add_comm]

/-- What is read as a path is the written form of the path. -/
theorem decode_sound {data : Bytes} {path : DerivationPath} {count : Nat}
    (h : decode data = .ok (path, count)) :
    path.elements ≠ [] ∧ count = path.encodedLength ∧ count ≤ data.length ∧
      path.toBytes = data.take count := by
  obtain ⟨first, rest, rfl, hzero, -, hroom, helements, rfl⟩ := decode_cases h
  have hdepth : path.depth = first.toNat := by rw [depth, helements, length_elementsOf]
  refine ⟨fun hnil => hzero ?_, ?_, ?_, ?_⟩
  · rw [← hdepth, depth, hnil]
    rfl
  · rw [encodedLength, hdepth]
  · rw [List.length_cons]
    omega
  · rw [toBytes, hdepth, helements, flatMap_elementsOf hroom, Nat.add_comm, List.take_succ_cons]
    simp

theorem roundTrips :
    Apdu.RoundTrips (fun path => path.elements ≠ []) encodedLength encode decode id :=
  .of_place (fun _ _ => rfl) length_toBytes (fun _ hnamed => decode_toBytes hnamed)
    fun _ _ _ => decode_sound

end DerivationPath

namespace Signature

theorem ofBytes?_bytes (signature : Signature) : ofBytes? signature.bytes = some signature :=
  dif_pos signature.length_eq

theorem decode_bytes (signature : Signature) (rest : Bytes) :
    decode (signature.bytes ++ rest) = .ok (signature, Limits.signatureLength) := by
  rw [decode, List.take_left' signature.length_eq, ofBytes?_bytes]

/-- What is read as a signature is its bytes. -/
theorem decode_sound {data : Bytes} {signature : Signature} {count : Nat}
    (h : decode data = .ok (signature, count)) :
    count = Limits.signatureLength ∧ count ≤ data.length ∧ signature.bytes = data.take count := by
  rw [decode, ofBytes?] at h
  split at h
  · next fits hfits =>
    split at hfits
    · next hlength =>
      obtain ⟨rfl, rfl⟩ := Prod.mk.inj (Except.ok.inj h)
      cases hfits
      rw [List.length_take] at hlength
      exact ⟨rfl, by omega, rfl⟩
    · cases hfits
  · cases h

theorem roundTrips :
    Apdu.RoundTrips (fun _ => True) (fun _ => Limits.signatureLength) encode decode id :=
  .of_place (fun _ _ => rfl) length_eq (fun signature _ => decode_bytes signature)
    fun _ _ _ h => ⟨trivial, decode_sound h⟩

end Signature

namespace AppFlags

/-- Only the known bit of a byte is kept. -/
theorem toByte_ofByte (byte : UInt8) : (ofByte byte).toByte = byte &&& blindSigningBit := by
  revert byte
  exact forall_byte (by decide +kernel)

theorem ofByte_toByte (flags : AppFlags) : ofByte flags.toByte = flags := by
  obtain ⟨_ | _⟩ := flags <;> rfl

end AppFlags

namespace AppConfig

/-- A written configuration without the bits of its flags that mean nothing. -/
def known : Bytes → Bytes
  | [] => []
  | flags :: rest => (flags &&& AppFlags.blindSigningBit) :: rest

theorem decode_toBytes (config : AppConfig) (rest : Bytes) :
    decode (config.toBytes ++ rest) = .ok (config, 4) := by
  simp only [toBytes, List.cons_append, decode, AppFlags.ofByte_toByte]

/-- What is read as a configuration is the written form of it, but for some of its flags. -/
theorem decode_sound {data : Bytes} {config : AppConfig} {count : Nat}
    (h : decode data = .ok (config, count)) :
    count = 4 ∧ count ≤ data.length ∧ config.toBytes = known (data.take count) := by
  unfold decode at h
  split at h
  · next flags major minor patch rest =>
    obtain ⟨rfl, rfl⟩ := Prod.mk.inj (Except.ok.inj h)
    refine ⟨rfl, ?_, ?_⟩
    · simp only [List.length_cons]
      omega
    · simp only [toBytes, AppFlags.toByte_ofByte, List.take_succ_cons, List.take_zero, known]
  · cases h

theorem roundTrips : Apdu.RoundTrips (fun _ => True) (fun _ => 4) encode decode known :=
  .of_place (fun _ _ => rfl) (fun _ => rfl) (fun config _ => decode_toBytes config)
    fun _ _ _ h => ⟨trivial, decode_sound h⟩

end AppConfig

namespace SignFlags

/-- The bits of a parameter that mean something. -/
def knownBits : UInt8 := continuationBit ||| moreBit

/-- Only the known bits of a parameter are kept. -/
theorem toByte_ofByte (parameter : UInt8) :
    (ofByte parameter).toByte = parameter &&& knownBits := by
  revert parameter
  exact forall_byte (by decide +kernel)

end SignFlags

namespace SignRequest

variable {request : SignRequest}

/-- A request without contradiction is written into every buffer that has room for it. -/
theorem encode_eq (h : request.WellFormed) (capacity : Nat) :
    request.encode capacity =
      if request.encodedLength ≤ capacity then .ok request.toBytes else .error .invalidLength := by
  rw [encode, if_pos h.consistent, Apdu.place, length_toBytes]

/-- What is read as a request is the whole written form of it. -/
theorem decode_sound {parameter : UInt8} {data : Bytes} {count : Nat}
    (h : decode parameter data = .ok (request, count)) :
    request.WellFormed ∧ request.flags.toByte = parameter &&& SignFlags.knownBits ∧
      count = data.length ∧ request.toBytes = data := by
  have hflags := SignFlags.toByte_ofByte parameter
  rw [decode] at h
  dsimp only at h
  by_cases hfirst : (SignFlags.ofByte parameter).isFirst = true
  · rw [if_pos hfirst] at h
    cases hpath : DerivationPath.decode data with
    | error error =>
      rw [hpath] at h
      cases h
    | ok result =>
      obtain ⟨path, taken⟩ := result
      obtain ⟨hnamed, htaken, hle, hbytes⟩ := DerivationPath.decode_sound hpath
      rw [hpath] at h
      obtain ⟨rfl, rfl⟩ := Prod.mk.inj (Except.ok.inj h)
      refine ⟨⟨beq_iff_eq.mpr hfirst.symm, ?_⟩, hflags, rfl, ?_⟩
      · rintro _ ⟨⟩
        exact hnamed
      · change path.toBytes ++ data.drop taken = data
        rw [hbytes, List.take_append_drop]
  · rw [if_neg hfirst] at h
    obtain ⟨rfl, rfl⟩ := Prod.mk.inj (Except.ok.inj h)
    have hconsistent : false = (SignFlags.ofByte parameter).isFirst :=
      (eq_false_of_ne_true hfirst).symm
    refine ⟨⟨beq_iff_eq.mpr hconsistent, ?_⟩, hflags, rfl, rfl⟩
    rintro _ ⟨⟩

end SignRequest

namespace Apdu

/-- The formats of messages lose nothing. A path, a signature and a configuration are written whole
into any buffer that is long enough and into no other, are read back whatever follows them, and are
written again as they were read, but for the flags that mean nothing. So it is with a request, whose
payload has no end of its own and whose flags stand in the parameter of its command. A request that
has a path where its flags say that there is none, or none where there should be one, is not written
anywhere. -/
theorem codecs_round_trip :
    RoundTrips (fun path => path.elements ≠ []) DerivationPath.encodedLength DerivationPath.encode
      DerivationPath.decode id ∧
    RoundTrips (fun _ => True) (fun _ => Limits.signatureLength) Signature.encode Signature.decode
      id ∧
    RoundTrips (fun _ => True) (fun _ => 4) AppConfig.encode AppConfig.decode AppConfig.known ∧
    (∀ request : SignRequest, request.WellFormed → ∃ message : Bytes,
      message.length = request.encodedLength ∧
      (∀ capacity, request.encode capacity =
        if request.encodedLength ≤ capacity then .ok message else .error .invalidLength) ∧
      SignRequest.decode request.flags.toByte message = .ok (request, request.encodedLength)) ∧
    (∀ parameter data request count, SignRequest.decode parameter data = .ok (request, count) →
      request.WellFormed ∧ request.flags.toByte = parameter &&& SignFlags.knownBits ∧
        count = request.encodedLength ∧ count = data.length ∧ request.encode count = .ok data) ∧
    ∀ request : SignRequest, request.path.isSome ≠ request.flags.isFirst →
      ∀ capacity, request.encode capacity = .error .invalidEncoding := by
  refine ⟨DerivationPath.roundTrips, Signature.roundTrips, AppConfig.roundTrips, ?_, ?_, ?_⟩
  · intro request hvalid
    refine ⟨request.toBytes, request.length_toBytes, SignRequest.encode_eq hvalid, ?_⟩
    rw [SignRequest.decode_toBytes hvalid, SignRequest.length_toBytes]
  · intro parameter data request count h
    obtain ⟨hvalid, hflags, hcount, hbytes⟩ := SignRequest.decode_sound h
    have hlength : count = request.encodedLength := by
      rw [hcount, ← hbytes, SignRequest.length_toBytes]
    refine ⟨hvalid, hflags, hlength, hcount, ?_⟩
    rw [SignRequest.encode_of_le hvalid (Nat.le_of_eq hlength.symm), hbytes]
  · intro request hcontradiction capacity
    have hinconsistent : ¬request.isConsistent = true := fun h => hcontradiction (beq_iff_eq.mp h)
    rw [SignRequest.encode, if_neg hinconsistent]

/-- A first chunk for a path of one element, a chunk that has the path and says that it continues,
and a configuration with flags that mean nothing. -/
theorem codecs_round_trip_first :
    SignRequest.decode 0x80 [1, 0, 0, 0, 7, 1, 2] =
      .ok (SignRequest.first ⟨[7], by decide⟩ [1, 2] true, 7) ∧
    (SignRequest.first ⟨[7], by decide⟩ [1, 2] true).encode 7 = .ok [1, 0, 0, 0, 7, 1, 2] ∧
    SignRequest.encode 100 ⟨⟨true, false⟩, some ⟨[7], by decide⟩, [1, 2]⟩ =
      .error .invalidEncoding ∧
    AppConfig.encode 4 ⟨⟨true⟩, 1, 2, 3⟩ = .ok [0x01, 1, 2, 3] := by
  obtain ⟨-, -, hconfig, hwritten, hread, hcontradiction⟩ := codecs_round_trip
  have hvalid : (SignRequest.first ⟨[7], by decide⟩ [1, 2] true).WellFormed :=
    SignRequest.first_wellFormed (List.cons_ne_nil 7 []) [1, 2] true
  have hdecode : SignRequest.decode 0x80 [1, 0, 0, 0, 7, 1, 2] =
      .ok (SignRequest.first ⟨[7], by decide⟩ [1, 2] true, 7) := by
    obtain ⟨message, -, hencode, hdecode⟩ := hwritten _ hvalid
    obtain rfl : message = [1, 0, 0, 0, 7, 1, 2] := (Except.ok.inj (hencode 7)).symm
    exact hdecode
  exact ⟨hdecode, (hread _ _ _ _ hdecode).2.2.2.2, hcontradiction _ (by decide) 100,
    (hconfig.read [0xff, 1, 2, 3, 4] _ _ rfl).2.2.2⟩

end Apdu

end NemSigner
