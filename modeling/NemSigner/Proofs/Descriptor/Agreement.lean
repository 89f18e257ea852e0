import NemSigner.Proofs.Descriptor.Resolution
import NemSigner.Proofs.Transaction.Grammar

/-!
# Descriptors agree with the decoder

A descriptor whose versions and types are in use is encoded as a transaction of the wire format, so
decoding gives back the fields that can be read off it.

## Main statements

- `Descriptor.encode_spec` — an encoded descriptor is the written form of a transaction
- `Descriptor.decode_of_encode` — decoding an encoded descriptor shows what it describes
-/

namespace NemSigner

namespace Descriptor

variable {descriptor : Descriptor} {data : Bytes}

/-- A descriptor that carries nothing is encoded as a transaction that can be carried. -/
theorem encode_action_spec {header : HeaderDescriptor} {content : ActionDescriptor}
    (h : (action header content).encode = .ok data) (hlength : data.length < UInt32.size)
    (hinuse : (action header content).InUse) :
    ∃ transaction : ActionTransaction, transaction.WellFormed ∧ transaction.encode = data ∧
      ∀ typeId, transaction.fields typeId = (action header content).carriedFields typeId := by
  obtain ⟨resolved, hresolved, h⟩ := bind_eq_ok.mp h
  obtain ⟨action, haction, h⟩ := bind_eq_ok.mp h
  cases h
  obtain ⟨hheader, hversion, htype, hfee⟩ := HeaderDescriptor.resolve_spec hinuse.1 hresolved
  have hshort : action.encode.length < UInt32.size := by
    rw [List.length_append] at hlength
    omega
  obtain ⟨hkind, hvalid, hfields⟩ :=
    ActionDescriptor.resolve_spec hinuse.1 haction hinuse.2 hshort
  refine ⟨⟨resolved, action⟩, ⟨hkind ▸ hheader, hversion ▸ hvalid⟩, rfl, fun typeId => ?_⟩
  rw [ActionTransaction.fields, hfields, htype, Header.feeField, hfee]
  rfl

/-- What is carried resolves to one transaction that can be. -/
theorem encode_carried_spec (h : descriptor.encode = .ok data)
    (hlength : data.length < UInt32.size) (hnone : descriptor.CarriesNone)
    (hinuse : descriptor.InUse) :
    ∃ transaction : ActionTransaction, ActionTransaction.AllWellFormed [transaction] ∧
      ActionTransaction.encodeAll [transaction] = data ∧
      ∀ typeId, transaction.fields typeId = descriptor.carriedFields typeId := by
  cases descriptor with
  | action header content =>
    obtain ⟨transaction, hvalid, hencode, hfields⟩ := encode_action_spec h hlength hinuse
    have hall : ActionTransaction.encodeAll [transaction] = data := by
      rw [← hencode]
      exact List.append_nil _
    refine ⟨transaction, ⟨List.cons_ne_nil _ _, ?_, hall ▸ hlength⟩, hall, hfields⟩
    intro transaction' hmem
    rwa [List.mem_singleton.mp hmem]
  | multisig header carried => exact absurd hnone id
  | cosigned header content carried => exact absurd hnone id

/-- An encoded descriptor is the written form of a transaction, and its fields are those that are
read off the descriptor. -/
theorem encode_spec (h : descriptor.encode = .ok data) (hlength : data.length < UInt32.size)
    (hinuse : descriptor.InUse) :
    ∃ transaction : Transaction, transaction.WellFormed ∧ transaction.encode = data ∧
      transaction.fields = descriptor.fields := by
  cases descriptor with
  | action header content =>
    obtain ⟨transaction, hvalid, hencode, hfields⟩ := encode_action_spec h hlength hinuse
    exact ⟨⟨transaction.header, .action transaction.action⟩, hvalid, hencode,
      hfields .transactionType⟩
  | multisig header carried =>
    obtain ⟨hversion, hnone, hcarried⟩ := hinuse
    obtain ⟨resolved, hresolved, h⟩ := bind_eq_ok.mp h
    obtain ⟨inner, hinner, h⟩ := bind_eq_ok.mp h
    cases h
    rw [List.length_append, Bytes.length_prefixed] at hlength
    obtain ⟨hheader, -, htype, hfee⟩ := HeaderDescriptor.resolve_spec hversion hresolved
    obtain ⟨transaction, hvalid, rfl, hfields⟩ :=
      encode_carried_spec hinner (by omega) hnone hcarried
    refine ⟨⟨resolved, .multisig [transaction]⟩, ⟨hheader, hvalid⟩, rfl, ?_⟩
    simp only [Transaction.fields, Content.fields, List.flatMap_singleton, hfields, htype, hfee]
    rfl
  | cosigned header content carried =>
    obtain ⟨hversion, hnone, hcarried⟩ := hinuse
    obtain ⟨resolved, hresolved, h⟩ := bind_eq_ok.mp h
    obtain ⟨cosignature, hcosignature, h⟩ := bind_eq_ok.mp h
    obtain ⟨detail, hdetail, h⟩ := bind_eq_ok.mp h
    cases h
    rw [List.length_append, Bytes.length_prefixed] at hlength
    obtain ⟨hheader, -, htype, hfee⟩ := HeaderDescriptor.resolve_spec hversion hresolved
    obtain ⟨hvalid, hshown⟩ := CosignatureDescriptor.resolve_spec hcosignature
    obtain ⟨transaction, hall, rfl, hfields⟩ :=
      encode_carried_spec hdetail (by omega) hnone hcarried
    refine ⟨⟨resolved, .cosigned cosignature [transaction]⟩, ⟨hheader, hvalid, hall⟩, ?_, ?_⟩
    · simp only [Transaction.encode, Content.encode, List.append_assoc]
    · simp only [Transaction.fields, Content.fields, List.flatMap_singleton, hfields, hshown, htype,
        hfee]
      rfl

/-- Decoding an encoded descriptor shows exactly the fields that are read off the descriptor, or
refuses them for their number. -/
theorem decode_of_encode (h : descriptor.encode = .ok data) (hlength : data.length < UInt32.size)
    (hinuse : descriptor.InUse) :
    (descriptor.fields.length ≤ Limits.maxFieldCount →
      ∃ table, Transaction.decode data = .ok table ∧ table.toList = descriptor.fields) ∧
    (Limits.maxFieldCount < descriptor.fields.length →
      Transaction.decode data = .error .tooManyFields) := by
  obtain ⟨transaction, hvalid, rfl, hfields⟩ := encode_spec h hlength hinuse
  rw [Transaction.decode_encode hvalid, hfields, FieldTable.ofFields]
  constructor
  · intro hroom
    exact ⟨⟨descriptor.fields, hroom⟩, dif_pos hroom, rfl⟩
  · intro hmany
    exact dif_neg (Nat.not_le_of_lt hmany)

/-- A multisig transaction that carries a transfer of the second version with a text. -/
def carriedTransfer : Descriptor :=
  .multisig (.ofFee 6) (.action { HeaderDescriptor.ofFee 3 with version := 2 }
    (.transfer ⟨"NBT3WHA2YXG2IR4PWKFFMO772JWOITTD2V4PECSB", 5, some ⟨1, some "hi", none⟩,
      [⟨"nem", "xem", 7⟩]⟩))

theorem decode_of_encode_carriedTransfer :
    ∃ data table, carriedTransfer.encode = .ok data ∧ Transaction.decode data = .ok table ∧
      table.toList = carriedTransfer.fields := by
  have hsize : carriedTransfer.encode.toOption.map List.length = some 224 := by decide +kernel
  cases hencode : carriedTransfer.encode with
  | error error =>
    rw [hencode] at hsize
    cases hsize
  | ok data =>
    rw [hencode] at hsize
    have hlength : data.length = 224 := Option.some.inj hsize
    have hshort : data.length < UInt32.size := by
      rw [hlength]
      decide
    have hinuse : carriedTransfer.InUse := ⟨.inl rfl, trivial, .inr rfl, trivial⟩
    obtain ⟨table, hdecode, htable⟩ :=
      (decode_of_encode hencode hshort hinuse).1 (by decide +kernel)
    exact ⟨data, table, rfl, hdecode, htable⟩

end Descriptor

end NemSigner
