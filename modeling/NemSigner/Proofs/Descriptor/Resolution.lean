import NemSigner.Proofs.Descriptor.Fields
import NemSigner.Proofs.Transaction.Transfer
import NemSigner.Proofs.Transaction.Accounts
import NemSigner.Proofs.Transaction.Namespaces
import NemSigner.Proofs.Transaction.MosaicDefinition

/-!
# What descriptors resolve to

Resolving a content leaves its numbers and texts as they are and spells out the keys. The result has
the sizes of the wire format as long as its written form can be declared at all, and its review
fields are those that are read off the descriptor.

## Main statements

- `ActionDescriptor.resolve_spec` — an action that is resolved is well formed, and its fields are
  those of its descriptor
- `HeaderDescriptor.resolve_spec` — a header that is resolved names its kind
-/

namespace NemSigner

namespace Descriptor

variable {α β : Type}

theorem bind_eq_ok {resolution : Resolution α} {continuation : α → Resolution β} {value : β} :
    (resolution >>= continuation) = .ok value ↔
      ∃ resolved, resolution = .ok resolved ∧ continuation resolved = .ok value := by
  cases resolution with
  | error error =>
    constructor
    · intro h
      cases h
    · rintro ⟨resolved, h, -⟩
      cases h
  | ok resolved =>
    constructor
    · intro h
      exact ⟨resolved, rfl, h⟩
    · rintro ⟨resolved', h, hvalue⟩
      cases h
      exact hvalue

/-- When every item that is resolved is what it has to be, so is the list. -/
theorem mapM_eq_ok {resolve : α → Resolution β} {value : α → β} {valid : β → Prop}
    (hresolve : ∀ item resolved, resolve item = .ok resolved →
      resolved = value item ∧ valid resolved)
    {items : List α} {resolved : List β} (h : items.mapM resolve = .ok resolved) :
    resolved = items.map value ∧ ∀ item ∈ resolved, valid item := by
  induction items generalizing resolved with
  | nil =>
    cases h
    exact ⟨rfl, by simp⟩
  | cons item items ih =>
    rw [List.mapM_cons] at h
    obtain ⟨head, hhead, h⟩ := bind_eq_ok.mp h
    obtain ⟨tail, htail, h⟩ := bind_eq_ok.mp h
    cases h
    obtain ⟨rfl, hvalid⟩ := hresolve _ _ hhead
    obtain ⟨rfl, hothers⟩ := ih htail
    exact ⟨rfl, List.forall_mem_cons.mpr ⟨hvalid, hothers⟩⟩

/-- What may be left out is left out, or resolved. -/
theorem optionMapM_eq_ok {resolve : α → Resolution β} {item : Option α} {resolved : Option β}
    (h : item.mapM resolve = .ok resolved) :
    (item = none ∧ resolved = none) ∨
      ∃ given part, item = some given ∧ resolved = some part ∧ resolve given = .ok part := by
  cases item with
  | none =>
    cases h
    exact .inl ⟨rfl, rfl⟩
  | some given =>
    -- To traverse an item that is given is to map over its resolution.
    change (some <$> resolve given) = _ at h
    cases hgiven : resolve given with
    | error error =>
      rw [hgiven] at h
      cases h
    | ok part =>
      rw [hgiven] at h
      cases h
      exact .inr ⟨given, part, rfl, rfl, hgiven⟩

theorem sized_eq_ok {part : SizedPart} {length : Nat} {bytes resolved : Bytes}
    (h : sized part length bytes = .ok resolved) : resolved = bytes ∧ bytes.length = length := by
  rw [sized] at h
  split at h
  · next hlength =>
    cases h
    exact ⟨rfl, hlength⟩
  · cases h

theorem hexBytes_eq_ok {text : String} {bytes : Bytes} (h : hexBytes text = .ok bytes) :
    bytes = spelled text := by
  rw [hexBytes] at h
  rw [spelled]
  cases hdecode : Hex.decode (Bytes.ofText text) with
  | ok digits =>
    rw [hdecode] at h
    cases h
    rfl
  | error error =>
    rw [hdecode] at h
    cases h

theorem fixedBytes_eq_ok {part : SizedPart} {length : Nat} {text : String} {bytes : Bytes}
    (h : fixedBytes part length text = .ok bytes) :
    bytes = spelled text ∧ bytes.length = length := by
  obtain ⟨digits, hdigits, hsized⟩ := bind_eq_ok.mp h
  obtain ⟨rfl, hlength⟩ := sized_eq_ok hsized
  exact ⟨hexBytes_eq_ok hdigits, hlength⟩

theorem addressBytes_eq_ok {text : String} {bytes : Bytes} (h : addressBytes text = .ok bytes) :
    bytes = Bytes.ofText text ∧ bytes.length = Limits.addressLength := by
  obtain ⟨rfl, hlength⟩ := sized_eq_ok h
  exact ⟨rfl, hlength⟩

theorem ofText_inj {text text' : String} :
    Bytes.ofText text = Bytes.ofText text' ↔ text = text' := by
  constructor
  · intro h
    have hdata : text.toUTF8 = text'.toUTF8 := by
      apply ByteArray.ext
      exact Array.toList_inj.mp h
    exact String.toByteArray_inj.mp hdata
  · rintro rfl
    rfl

/-- The native currency is known by its two names. -/
theorem mosaicId_eq_xem {space name : String} :
    mosaicId space name = MosaicId.xem ↔ space = "nem" ∧ name = "xem" := by
  simp only [mosaicId, MosaicId.xem, MosaicId.mk.injEq, ofText_inj]

end Descriptor

open Descriptor (Resolution bind_eq_ok mapM_eq_ok optionMapM_eq_ok hexBytes_eq_ok fixedBytes_eq_ok
  addressBytes_eq_ok mosaicId_eq_xem spelled)

theorem MessageDescriptor.payload_eq_ok {message : MessageDescriptor} {payload : Bytes}
    (h : message.payload = .ok payload) : payload = message.spelledPayload := by
  obtain ⟨payloadType, text, hex⟩ := message
  cases text with
  | some text =>
    cases h
    rfl
  | none =>
    cases hex with
    | some hex => exact hexBytes_eq_ok h
    | none =>
      cases h
      rfl

theorem MosaicDescriptor.resolve_fields (mosaic : MosaicDescriptor) :
    mosaic.resolve.fields = mosaic.fields := by
  by_cases hxem : mosaic.space = "nem" ∧ mosaic.name = "xem"
  · rw [AttachedMosaic.fields_xem (mosaicId_eq_xem.mpr hxem), MosaicDescriptor.fields, if_pos hxem]
    rfl
  · have hother : mosaic.resolve.id ≠ MosaicId.xem := fun h => hxem (mosaicId_eq_xem.mp h)
    rw [AttachedMosaic.fields_of_ne_xem hother, MosaicDescriptor.fields, if_neg hxem]
    rfl

namespace TransferDescriptor

variable {version : UInt8} {transfer : TransferDescriptor} {content : Transfer}

theorem resolve_eq_ok (h : transfer.resolve version = .ok content) :
    content.recipient = Bytes.ofText transfer.recipient ∧
      content.recipient.length = Limits.addressLength ∧ content.amount = transfer.amount ∧
      Message.shown content.message = transfer.messageField ∧
      content.mosaics =
        if version = 2 then some (transfer.mosaics.map MosaicDescriptor.resolve) else none := by
  obtain ⟨recipient, hrecipient, h⟩ := bind_eq_ok.mp h
  obtain ⟨message, hmessage, h⟩ := bind_eq_ok.mp h
  cases h
  obtain ⟨rfl, hlength⟩ := addressBytes_eq_ok hrecipient
  refine ⟨rfl, hlength, rfl, ?_, rfl⟩
  obtain ⟨hnone, rfl⟩ | ⟨given, part, hgiven, rfl, hpart⟩ := optionMapM_eq_ok hmessage
  · rw [messageField, hnone]
    rfl
  · obtain ⟨payload, hpayload, hpart⟩ := bind_eq_ok.mp hpart
    cases hpart
    obtain rfl := MessageDescriptor.payload_eq_ok hpayload
    rw [messageField, hgiven]
    rfl

theorem resolve_fields (hversion : version = 1 ∨ version = 2)
    (h : transfer.resolve version = .ok content) (fee : Field) :
    content.fields fee = transfer.fields version fee := by
  obtain ⟨hrecipient, -, hamount, hmessage, hmosaics⟩ := resolve_eq_ok h
  rcases hversion with rfl | rfl
  · rw [if_neg (by decide)] at hmosaics
    rw [Transfer.fields_first hmosaics, hrecipient, hamount, hmessage]
    rfl
  · rw [if_pos rfl] at hmosaics
    rw [Transfer.fields_second hmosaics, hrecipient, hamount, hmessage, TransferDescriptor.fields]
    cases hlist : transfer.mosaics with
    | nil => rfl
    | cons mosaic mosaics =>
      have hitems : (List.map MosaicDescriptor.resolve (mosaic :: mosaics)).flatMap
          AttachedMosaic.fields = (mosaic :: mosaics).flatMap MosaicDescriptor.fields := by
        rw [List.flatMap_map]
        exact congrArg (List.flatMap · _) (funext MosaicDescriptor.resolve_fields)
      have hsome : List.map MosaicDescriptor.resolve (mosaic :: mosaics) ≠ [] :=
        List.cons_ne_nil _ _
      rw [Transfer.shownMosaics_of_ne_nil _ hsome, hitems, List.length_map]
      rfl

theorem resolve_wellFormed (h : transfer.resolve version = .ok content)
    (hlength : content.encode.length < UInt32.size) : content.WellFormed version := by
  obtain ⟨-, hrecipient, -, -, hmosaics⟩ := resolve_eq_ok h
  refine Transfer.wellFormed_of_length hrecipient ?_ hlength
  rw [hmosaics]
  by_cases hversion : version = 2
  · simp [hversion]
  · simp [hversion]

end TransferDescriptor

theorem ImportanceDescriptor.resolve_spec {transfer : ImportanceDescriptor}
    {content : ImportanceTransfer} (h : transfer.resolve = .ok content) :
    content.WellFormed ∧ ∀ fee, content.fields fee = transfer.fields fee := by
  obtain ⟨remote, hremote, h⟩ := bind_eq_ok.mp h
  cases h
  obtain ⟨rfl, hlength⟩ := fixedBytes_eq_ok hremote
  exact ⟨hlength, fun _ => rfl⟩

/-- The modification with its key spelled out. -/
def ModificationDescriptor.spelledOut (modification : ModificationDescriptor) : Modification :=
  ⟨modification.type, spelled modification.cosignatory⟩

theorem ModificationDescriptor.resolve_eq_ok (modification : ModificationDescriptor)
    (resolved : Modification) (h : modification.resolve = .ok resolved) :
    resolved = modification.spelledOut ∧ resolved.WellFormed := by
  obtain ⟨key, hkey, h⟩ := bind_eq_ok.mp h
  cases h
  obtain ⟨rfl, hlength⟩ := fixedBytes_eq_ok hkey
  exact ⟨rfl, hlength⟩

namespace AggregateDescriptor

variable {version : UInt8} {aggregate : AggregateDescriptor} {content : AggregateModification}

theorem resolve_wellFormed (h : aggregate.resolve version = .ok content)
    (hlength : content.encode.length < UInt32.size) : content.WellFormed version := by
  obtain ⟨modifications, hmodifications, h⟩ := bind_eq_ok.mp h
  cases h
  obtain ⟨-, hvalid⟩ := mapM_eq_ok ModificationDescriptor.resolve_eq_ok hmodifications
  refine AggregateModification.wellFormed_of_length hvalid ?_ hlength
  by_cases hversion : version = 2
  · simp only [relativeChange, hversion]
    cases aggregate.change <;> simp
  · simp [relativeChange, hversion]

theorem resolve_fields (h : aggregate.resolve version = .ok content) (fee : Field) :
    content.fields fee = aggregate.fields version fee := by
  obtain ⟨modifications, hmodifications, h⟩ := bind_eq_ok.mp h
  cases h
  obtain ⟨rfl, -⟩ := mapM_eq_ok ModificationDescriptor.resolve_eq_ok hmodifications
  simp only [AggregateModification.fields, List.length_map, List.flatMap_map]
  by_cases hversion : version = 2
  · simp only [relativeChange, AggregateDescriptor.fields, if_pos hversion]
    cases aggregate.change <;> simp [RelativeChange.fields] <;> rfl
  · simp only [relativeChange, AggregateDescriptor.fields, if_neg hversion, RelativeChange.fields]
    simp
    rfl

end AggregateDescriptor

theorem CosignatureDescriptor.resolve_spec {cosignature : CosignatureDescriptor}
    {content : Cosignature} (h : cosignature.resolve = .ok content) :
    content.WellFormed ∧ content.fields = cosignature.fields := by
  obtain ⟨hash, hhash, h⟩ := bind_eq_ok.mp h
  obtain ⟨account, haccount, h⟩ := bind_eq_ok.mp h
  cases h
  obtain ⟨rfl, hlength⟩ := fixedBytes_eq_ok hhash
  obtain ⟨rfl, hlength'⟩ := addressBytes_eq_ok haccount
  exact ⟨⟨hlength, hlength'⟩, rfl⟩

theorem ProvisionDescriptor.resolve_spec {provision : ProvisionDescriptor}
    {content : NamespaceProvision} (h : provision.resolve = .ok content)
    (hlength : content.encode.length < UInt32.size) :
    content.WellFormed ∧ ∀ fee, content.fields fee = provision.fields fee := by
  obtain ⟨sink, hsink, h⟩ := bind_eq_ok.mp h
  cases h
  obtain ⟨rfl, haddress⟩ := addressBytes_eq_ok hsink
  refine ⟨NamespaceProvision.wellFormed_of_length haddress hlength, fun fee => ?_⟩
  rw [NamespaceProvision.fields_eq, ProvisionDescriptor.fields]
  cases provision.parent <;> rfl

theorem LevyDescriptor.resolve_spec {levy : LevyDescriptor} {content : Levy}
    (h : levy.resolve = .ok content) (htype : levy.type = 1 ∨ levy.type = 2) :
    content.WellFormed ∧ content.fields = levy.fields := by
  obtain ⟨recipient, hrecipient, h⟩ := bind_eq_ok.mp h
  cases h
  obtain ⟨rfl, hlength⟩ := addressBytes_eq_ok hrecipient
  exact ⟨⟨htype, hlength⟩, rfl⟩

theorem DefinitionDescriptor.resolve_spec {definition : DefinitionDescriptor}
    {content : MosaicDefinition} (h : definition.resolve = .ok content)
    (htype : ∀ levy ∈ definition.levy, levy.type = 1 ∨ levy.type = 2)
    (hlength : content.encode.length < UInt32.size) :
    content.WellFormed ∧ ∀ fee, content.fields fee = definition.fields fee := by
  obtain ⟨creator, hcreator, h⟩ := bind_eq_ok.mp h
  obtain ⟨levy, hlevy, h⟩ := bind_eq_ok.mp h
  obtain ⟨sink, hsink, h⟩ := bind_eq_ok.mp h
  cases h
  obtain ⟨rfl, hkey⟩ := fixedBytes_eq_ok hcreator
  obtain ⟨rfl, haddress⟩ := addressBytes_eq_ok hsink
  have hproperties : (definition.properties.map PropertyDescriptor.resolve).map
      MosaicProperty.field = definition.properties.map PropertyDescriptor.field := by
    rw [List.map_map]
    rfl
  obtain ⟨hnone, rfl⟩ | ⟨given, part, hgiven, rfl, hpart⟩ := optionMapM_eq_ok hlevy
  · refine ⟨MosaicDefinition.wellFormed_of_length hkey (by simp) haddress hlength, fun fee => ?_⟩
    simp only [MosaicDefinition.fields, DefinitionDescriptor.fields, hproperties, hnone]
    rfl
  · obtain ⟨hvalid, hfields⟩ := LevyDescriptor.resolve_spec hpart (htype given hgiven)
    have hlevies : ∀ levy ∈ some part, levy.WellFormed := by
      intro levy hmem
      cases hmem
      exact hvalid
    refine ⟨MosaicDefinition.wellFormed_of_length hkey hlevies haddress hlength, fun fee => ?_⟩
    simp only [MosaicDefinition.fields, DefinitionDescriptor.fields, hproperties, hgiven, hfields]
    rfl

/-- An action that is resolved is of the kind that was described, well formed when its types are
known, and has the fields that are read off its descriptor. -/
theorem ActionDescriptor.resolve_spec {version : UInt8} {descriptor : ActionDescriptor}
    {action : Action} (hversion : version = 1 ∨ version = 2)
    (h : descriptor.resolve version = .ok action) (htypes : descriptor.InUse)
    (hlength : action.encode.length < UInt32.size) :
    action.kind = descriptor.kind ∧ action.WellFormed version ∧
      ∀ fee, action.fields fee = descriptor.fields version fee := by
  cases descriptor with
  | transfer descriptor =>
    obtain ⟨content, hcontent, h⟩ := bind_eq_ok.mp h
    cases h
    exact ⟨rfl, TransferDescriptor.resolve_wellFormed hcontent hlength,
      TransferDescriptor.resolve_fields hversion hcontent⟩
  | importanceTransfer descriptor =>
    obtain ⟨content, hcontent, h⟩ := bind_eq_ok.mp h
    cases h
    exact ⟨rfl, ImportanceDescriptor.resolve_spec hcontent⟩
  | aggregateModification descriptor =>
    obtain ⟨content, hcontent, h⟩ := bind_eq_ok.mp h
    cases h
    exact ⟨rfl, AggregateDescriptor.resolve_wellFormed hcontent hlength,
      AggregateDescriptor.resolve_fields hcontent⟩
  | cosignature descriptor =>
    obtain ⟨content, hcontent, h⟩ := bind_eq_ok.mp h
    cases h
    obtain ⟨hvalid, hfields⟩ := CosignatureDescriptor.resolve_spec hcontent
    exact ⟨rfl, hvalid, fun fee => congrArg (· ++ [fee]) hfields⟩
  | namespaceProvision descriptor =>
    obtain ⟨content, hcontent, h⟩ := bind_eq_ok.mp h
    cases h
    exact ⟨rfl, ProvisionDescriptor.resolve_spec hcontent hlength⟩
  | mosaicDefinition descriptor =>
    obtain ⟨content, hcontent, h⟩ := bind_eq_ok.mp h
    cases h
    exact ⟨rfl, DefinitionDescriptor.resolve_spec hcontent htypes hlength⟩
  | supplyChange descriptor =>
    cases h
    exact ⟨rfl, SupplyChange.wellFormed_of_length htypes hlength, fun _ => rfl⟩

/-- A header that is resolved names its kind, and keeps version and fee. -/
theorem HeaderDescriptor.resolve_spec {descriptor : HeaderDescriptor} {kind : TransactionKind}
    {header : Header} (hversion : descriptor.version = 1 ∨ descriptor.version = 2)
    (h : descriptor.resolve kind = .ok header) :
    header.WellFormed kind ∧ header.version = descriptor.version ∧
      header.typeBytes = Bytes.ofNatLE 4 (Coded.code kind) ∧
      header.feeBytes = Bytes.ofNatLE 8 descriptor.fee.toNat := by
  obtain ⟨signer, hsigner, h⟩ := bind_eq_ok.mp h
  cases h
  obtain ⟨-, hlength⟩ := fixedBytes_eq_ok hsigner
  have hcode : (Coded.code kind).toUInt32.toNat = Coded.code kind := by
    cases kind <;> rfl
  refine ⟨⟨hcode, hversion, hlength⟩, rfl, ?_, rfl⟩
  rw [Header.typeBytes, hcode]

end NemSigner
