import NemSigner.Proofs.Decoder.Decodes
import NemSigner.Transaction.Header

/-!
# Headers and their sixty bytes

## Main statements

- `Header.read_inverts` — reading a header inverts writing it
- `Header.encode_append_inj` — a header can be told from what is written behind it
-/

namespace NemSigner

theorem Limits.publicKeyLength_lt : Limits.publicKeyLength < UInt32.size := by decide

theorem Limits.addressLength_lt : Limits.addressLength < UInt32.size := by decide

/-- A public key has the size of a hash. -/
theorem Field.fits_hash {id : FieldId} {key : Bytes} (h : key.length = 32) :
    (Field.mk id .hash256 key).fits = true := by
  simp [Field.fits, DataType.fixedLength, h]

namespace Header

open Cursor (readUInt_inverts readLength_inverts readBytes_inverts gives_append)

/-- The version is in use and the key has the size of a key. -/
def Valid (header : Header) : Prop :=
  (header.version = 1 ∨ header.version = 2) ∧ header.signer.length = Limits.publicKeyLength

theorem read_inverts : Cursor.Inverts read Valid encode := by
  intro cursor header next
  simp only [read, (readUInt_inverts _).bind_iff, readLength_inverts.bind_iff,
    (readBytes_inverts _).bind_iff]
  constructor
  · rintro ⟨typeNumber, c1, ⟨ltType, g1⟩, version, c2, ⟨ltVersion, g2⟩, reserved, c3,
      ⟨ltReserved, g3⟩, network, c4, ⟨ltNetwork, g4⟩, timestamp, c5, ⟨ltTimestamp, g5⟩, keyLength,
      c6, ⟨-, g6⟩, signer, c7, ⟨hsigner, g7⟩, fee, c8, ⟨ltFee, g8⟩, deadline, c9, ⟨ltDeadline, g9⟩,
      h⟩
    -- Only after the last byte are the length of the key and the version looked at.
    split at h
    · exact absurd h Cursor.throw_bind_ne_ok
    · next hkey =>
      split at h
      · exact absurd h Cursor.throw_bind_ne_ok
      · next hversion =>
        obtain ⟨rfl, rfl⟩ := Cursor.pure_eq_ok.mp h
        have hkey : keyLength = signer.length := by omega
        have hversion : version = 1 ∨ version = 2 := by omega
        refine ⟨⟨?_, hsigner⟩, ?_⟩
        · rcases hversion with rfl | rfl
          · exact .inl rfl
          · exact .inr rfl
        · simp only [encode, typeBytes, feeBytes, UInt32.toNat_ofNat_of_lt' ltType,
            UInt8.toNat_ofNat_of_lt' ltVersion, UInt16.toNat_ofNat_of_lt' ltReserved,
            UInt8.toNat_ofNat_of_lt' ltNetwork, UInt32.toNat_ofNat_of_lt' ltTimestamp,
            UInt64.toNat_ofNat_of_lt' ltFee, UInt32.toNat_ofNat_of_lt' ltDeadline, ← hkey]
          have hfront := (((g1.trans g2).trans g3).trans g4).trans g5
          exact (((hfront.trans g6).trans g7).trans g8).trans g9
  · rintro ⟨⟨hversion, hsigner⟩, hgives⟩
    -- The written form is put together from the left, so it comes apart from the right.
    obtain ⟨c8, hgives, g9⟩ := gives_append.mp hgives
    obtain ⟨c7, hgives, g8⟩ := gives_append.mp hgives
    obtain ⟨c6, hgives, g7⟩ := gives_append.mp hgives
    obtain ⟨c5, hgives, g6⟩ := gives_append.mp hgives
    obtain ⟨c4, hgives, g5⟩ := gives_append.mp hgives
    obtain ⟨c3, hgives, g4⟩ := gives_append.mp hgives
    obtain ⟨c2, hgives, g3⟩ := gives_append.mp hgives
    obtain ⟨c1, g1, g2⟩ := gives_append.mp hgives
    have ltKey : header.signer.length < UInt32.size := by
      rw [hsigner]
      decide
    refine ⟨_, c1, ⟨header.typeNumber.toNat_lt, g1⟩, _, c2, ⟨header.version.toNat_lt, g2⟩, _, c3,
      ⟨header.reserved.toNat_lt, g3⟩, _, c4, ⟨header.network.toNat_lt, g4⟩, _, c5,
      ⟨header.timestamp.toNat_lt, g5⟩, _, c6, ⟨ltKey, g6⟩, _, c7, ⟨hsigner, g7⟩, _, c8,
      ⟨header.fee.toNat_lt, g8⟩, _, next, ⟨header.deadline.toNat_lt, g9⟩, ?_⟩
    have hnumber : ¬(header.version.toNat ≠ 1 ∧ header.version.toNat ≠ 2) := by
      rcases hversion with h | h <;> simp [h]
    rw [if_neg (not_not_intro hsigner), if_neg hnumber]
    simp [Cursor.pure_eq_ok]

/-- A header has sixty bytes. -/
theorem length_encode {header : Header} (h : header.Valid) :
    header.encode.length = Limits.headerLength := by
  simp only [encode, typeBytes, feeBytes, List.length_append, Bytes.length_ofNatLE, h.2]
  rfl

/-- A header can be told from what is written behind it. -/
theorem encode_append_inj {header header' : Header} {rest rest' : Bytes}
    (hvalid : header.Valid) (hvalid' : header'.Valid)
    (h : header.encode ++ rest = header'.encode ++ rest') : header = header' ∧ rest = rest' :=
  read_inverts.append_inj hvalid hvalid' h

end Header

end NemSigner
