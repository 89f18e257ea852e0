import NemSigner.Proofs.Transaction.Grammar

/-!
# The fields that decoding gives

A table that is decoded holds fields of a few shapes only: each data type comes with some
identifiers, and the bytes are those that the type asks for.

## Main definitions

- `Field.Reviewable` — the shapes

## Main statements

- `Transaction.fields_reviewable` — the fields of a transaction have such a shape
- `Transaction.reviewable_of_decode` — so have the fields of a decoded table
-/

namespace NemSigner

namespace Field

/-- The identifiers under which the kind of a transaction is shown. -/
def kindIds : List FieldId :=
  [.transactionType, .innerTransactionType, .detailTransactionType]

/-- The identifiers of words that can be any number. -/
def wordIds : List FieldId :=
  [.modificationType, .relativeChange, .cosignatoryCount, .importanceMode, .mosaicCount]

/-- The identifiers of amounts of XEM. -/
def xemIds : List FieldId :=
  [.fee, .multisigFee, .rentalFee, .levyFee, .mosaicAmount]

/-- The identifiers of amounts of other mosaics. -/
def quantityIds : List FieldId :=
  [.mosaicUnits, .supplyCreated, .supplyDeleted]

def hashIds : List FieldId :=
  [.transactionHash, .remoteKey, .cosignatoryKey]

def addressIds : List FieldId :=
  [.recipient, .multisigAddress, .sinkAddress, .levyAddress]

def messageIds : List FieldId :=
  [.plainMessage, .encryptedMessage]

/-- The identifiers of the names of mosaics, of which both parts are shown in one field. -/
def mosaicIds : List FieldId :=
  [.levyMosaic, .transferMosaic]

def textIds : List FieldId :=
  [.unknownMosaic, .namespaceName, .parentNamespace, .rootNamespace, .mosaicName, .description]

/-- The shapes of the fields of a transaction. -/
inductive Reviewable : Field → Prop
  | kind {id : FieldId} (hid : id ∈ kindIds) (kind : TransactionKind) :
      Reviewable ⟨id, .uint32, Bytes.ofNatLE 4 (Coded.code kind)⟩
  | levyType {type : UInt32} (htype : type = Levy.absolute ∨ type = Levy.percentile) :
      Reviewable ⟨.levyFeeType, .uint32, Bytes.ofNatLE 4 type.toNat⟩
  | word {id : FieldId} (hid : id ∈ wordIds) (number : UInt32) :
      Reviewable ⟨id, .uint32, Bytes.ofNatLE 4 number.toNat⟩
  | xem {id : FieldId} (hid : id ∈ xemIds) (amount : UInt64) :
      Reviewable ⟨id, .xem, Bytes.ofNatLE 8 amount.toNat⟩
  | quantity {id : FieldId} (hid : id ∈ quantityIds) (amount : UInt64) :
      Reviewable ⟨id, .mosaicQuantity, Bytes.ofNatLE 8 amount.toNat⟩
  | hash {id : FieldId} (hid : id ∈ hashIds) {data : Bytes} (hlength : data.length = 32) :
      Reviewable ⟨id, .hash256, data⟩
  | address {id : FieldId} (hid : id ∈ addressIds) {data : Bytes}
      (hlength : data.length = Limits.addressLength) : Reviewable ⟨id, .address, data⟩
  | message {id : FieldId} (hid : id ∈ messageIds) (data : Bytes) : Reviewable ⟨id, .message, data⟩
  | mosaic {id : FieldId} (hid : id ∈ mosaicIds) {mosaic : MosaicId} (hvalid : mosaic.WellFormed) :
      Reviewable ⟨id, .text, mosaic.encode⟩
  | text {id : FieldId} (hid : id ∈ textIds) (data : Bytes) : Reviewable ⟨id, .text, data⟩
  | property {property : MosaicProperty} (hlength : property.encode.length < UInt32.size) :
      Reviewable property.field

/-- All fields of a list have such a shape. -/
def AllReviewable (fields : List Field) : Prop :=
  ∀ field ∈ fields, field.Reviewable

theorem allReviewable_nil : AllReviewable [] := nofun

theorem allReviewable_cons {field : Field} {fields : List Field} :
    AllReviewable (field :: fields) ↔ field.Reviewable ∧ AllReviewable fields :=
  List.forall_mem_cons

theorem allReviewable_singleton {field : Field} :
    AllReviewable [field] ↔ field.Reviewable :=
  List.forall_mem_singleton

theorem allReviewable_append {fields fields' : List Field} :
    AllReviewable (fields ++ fields') ↔ AllReviewable fields ∧ AllReviewable fields' :=
  List.forall_mem_append

theorem allReviewable_flatMap {α : Type} {write : α → List Field} {values : List α} :
    AllReviewable (values.flatMap write) ↔ ∀ value ∈ values, AllReviewable (write value) :=
  List.forall_mem_flatMap

end Field

open NemSigner.Field (AllReviewable Reviewable allReviewable_nil allReviewable_cons
  allReviewable_singleton allReviewable_append allReviewable_flatMap)

variable {version : UInt8} {fee : Field}

theorem Header.feeField_reviewable (header : Header) : header.feeField.Reviewable :=
  .xem (by decide) header.fee

theorem TransactionKind.code_lt (kind : TransactionKind) : Coded.code kind < UInt32.size := by
  cases kind <;> decide

/-- The type of a header is shown as the kind that it stands for. -/
theorem Header.WellFormed.typeField_reviewable {header : Header} {kind : TransactionKind}
    (h : header.WellFormed kind) {typeId : FieldId} (hid : typeId ∈ Field.kindIds) :
    Reviewable ⟨typeId, .uint32, header.typeBytes⟩ := by
  rw [Header.typeBytes, h.1]
  exact .kind hid kind

theorem Message.shown_reviewable (message : Option Message) : (shown message).Reviewable := by
  cases message with
  | none => exact .message (by decide) []
  | some message =>
    by_cases hplain : message.payloadType = plain
    · rw [shown, field_plain hplain]
      exact .message (by decide) _
    · rw [shown, field_of_ne_plain hplain]
      exact .message (by decide) []

theorem AttachedMosaic.fields_reviewable {mosaic : AttachedMosaic} (h : mosaic.WellFormed) :
    AllReviewable mosaic.fields := by
  by_cases hxem : mosaic.id = MosaicId.xem
  · rw [fields_xem hxem, allReviewable_singleton]
    exact .xem (by decide) mosaic.quantity
  · rw [fields_of_ne_xem hxem]
    simp only [allReviewable_cons]
    have hid : mosaic.id.WellFormed := h.parts.1
    exact ⟨.text (by decide) [], .mosaic (by decide) hid, .quantity (by decide) mosaic.quantity,
      allReviewable_nil⟩

theorem Transfer.fields_reviewable {transfer : Transfer} (hvalid : transfer.WellFormed version)
    (hfee : fee.Reviewable) : AllReviewable (transfer.fields fee) := by
  obtain ⟨hrecipient, -, -, hmosaics⟩ := hvalid
  have hfirst : Reviewable ⟨.recipient, .address, transfer.recipient⟩ :=
    .address (by decide) hrecipient
  have hamount : Reviewable ⟨.mosaicAmount, .xem, Bytes.ofNatLE 8 transfer.amount.toNat⟩ :=
    .xem (by decide) transfer.amount
  have hmessage := Message.shown_reviewable transfer.message
  cases hlist : transfer.mosaics with
  | none =>
    rw [fields_first hlist]
    simp only [allReviewable_cons]
    exact ⟨hfirst, hamount, hmessage, hfee, allReviewable_nil⟩
  | some mosaics =>
    rw [fields_second hlist]
    simp only [allReviewable_cons]
    refine ⟨hfirst, hmessage, hfee, ?_⟩
    cases mosaics with
    | nil => exact allReviewable_singleton.mpr hamount
    | cons mosaic others =>
      obtain ⟨hcount, hvalid⟩ := hmosaics _ hlist
      obtain ⟨count, hnumber⟩ := Bytes.exists_word hcount
      rw [shownMosaics_of_ne_nil _ (List.cons_ne_nil _ _), allReviewable_cons, hnumber]
      refine ⟨.word (by decide) count, allReviewable_flatMap.mpr fun mosaic hmosaic => ?_⟩
      exact AttachedMosaic.fields_reviewable (hvalid mosaic hmosaic)

theorem ImportanceTransfer.fields_reviewable {transfer : ImportanceTransfer}
    (hvalid : transfer.WellFormed) (hfee : fee.Reviewable) :
    AllReviewable (transfer.fields fee) := by
  simp only [fields, allReviewable_cons]
  exact ⟨.word (by decide) transfer.mode, .hash (by decide) hvalid, hfee, allReviewable_nil⟩

theorem RelativeChange.fields_reviewable (change : RelativeChange) :
    AllReviewable change.fields := by
  cases change with
  | absent => exact allReviewable_nil
  | unspecified => exact allReviewable_singleton.mpr (.word (by decide) 0)
  | delta amount => exact allReviewable_singleton.mpr (.word (by decide) amount)

theorem AggregateModification.fields_reviewable {aggregate : AggregateModification}
    (hvalid : aggregate.WellFormed version) (hfee : fee.Reviewable) :
    AllReviewable (aggregate.fields fee) := by
  obtain ⟨hcount, hmodifications, -⟩ := hvalid
  obtain ⟨count, hnumber⟩ := Bytes.exists_word hcount
  simp only [fields, allReviewable_append, allReviewable_cons, allReviewable_flatMap, hnumber]
  refine ⟨⟨⟨⟨.word (by decide) count, allReviewable_nil⟩, fun modification hmem => ?_⟩,
    aggregate.change.fields_reviewable⟩, hfee, allReviewable_nil⟩
  simp only [Modification.fields, allReviewable_cons]
  exact ⟨.word (by decide) modification.type, .hash (by decide) (hmodifications modification hmem),
    allReviewable_nil⟩

theorem Cosignature.fields_reviewable {cosignature : Cosignature}
    (hvalid : cosignature.WellFormed) : AllReviewable cosignature.fields := by
  simp only [fields, allReviewable_cons]
  exact ⟨.hash (by decide) hvalid.1, .address (by decide) hvalid.2, allReviewable_nil⟩

theorem NamespaceProvision.fields_reviewable {provision : NamespaceProvision}
    (hvalid : provision.WellFormed) (hfee : fee.Reviewable) :
    AllReviewable (provision.fields fee) := by
  have hparent : (shownParent provision.parent).Reviewable := by
    cases provision.parent with
    | none => exact .text (by decide) _
    | some parent => exact .text (by decide) parent
  simp only [fields_eq, allReviewable_cons]
  exact ⟨.text (by decide) provision.name, hparent, .address (by decide) hvalid.1,
    .xem (by decide) provision.rentalFee, hfee, allReviewable_nil⟩

theorem Levy.fields_reviewable {levy : Levy} (hvalid : levy.WellFormed)
    (hid : levy.id.WellFormed) : AllReviewable levy.fields := by
  simp only [fields, allReviewable_cons]
  exact ⟨.mosaic (by decide) hid, .address (by decide) hvalid.2, .levyType hvalid.1,
    .xem (by decide) levy.fee, allReviewable_nil⟩

theorem MosaicDefinition.fields_reviewable {definition : MosaicDefinition}
    (hvalid : definition.WellFormed) (hfee : fee.Reviewable) :
    AllReviewable (definition.fields fee) := by
  obtain ⟨-, hlevy, hlength, hsink⟩ := hvalid
  obtain ⟨-, -, -, hproperties, hlast⟩ := parts_fit hlength
  have hshown : AllReviewable (definition.levy.elim [] Levy.fields) := by
    cases hsome : definition.levy with
    | none => exact allReviewable_nil
    | some levy =>
      rw [hsome] at hlast
      exact Levy.fields_reviewable (hlevy levy hsome) (Nat.lt_trans levy.length_id_lt hlast)
  have hshownProperties :
      AllReviewable (definition.properties.flatMap fun property => [property.field]) :=
    allReviewable_flatMap.mpr fun property hmem =>
      allReviewable_singleton.mpr (.property (hproperties property hmem))
  simp only [fields_eq, properFields, allReviewable_append, allReviewable_cons]
  exact ⟨⟨.text (by decide) definition.id.space, .text (by decide) definition.id.name,
    .text (by decide) definition.description, hshownProperties, hshown⟩,
    .address (by decide) hsink, .xem (by decide) definition.rentalFee, hfee, allReviewable_nil⟩

theorem SupplyChange.fields_reviewable {change : SupplyChange} (hfee : fee.Reviewable) :
    AllReviewable (change.fields fee) := by
  have hdelta : Reviewable
      ⟨if change.type = create then .supplyCreated else .supplyDeleted, .mosaicQuantity,
        Bytes.ofNatLE 8 change.delta.toNat⟩ := by
    split
    · exact .quantity (by decide) change.delta
    · exact .quantity (by decide) change.delta
  simp only [fields, allReviewable_cons]
  exact ⟨.text (by decide) change.id.space, .text (by decide) change.id.name, hdelta, hfee,
    allReviewable_nil⟩

theorem Action.fields_reviewable {action : Action} (hvalid : action.WellFormed version)
    (hfee : fee.Reviewable) : AllReviewable (action.fields fee) := by
  cases action with
  | transfer content => exact Transfer.fields_reviewable hvalid hfee
  | importanceTransfer content => exact ImportanceTransfer.fields_reviewable hvalid hfee
  | aggregateModification content => exact AggregateModification.fields_reviewable hvalid hfee
  | cosignature content =>
    exact allReviewable_append.mpr ⟨Cosignature.fields_reviewable hvalid,
      allReviewable_singleton.mpr hfee⟩
  | namespaceProvision content => exact NamespaceProvision.fields_reviewable hvalid hfee
  | mosaicDefinition content => exact MosaicDefinition.fields_reviewable hvalid hfee
  | supplyChange content => exact SupplyChange.fields_reviewable hfee

namespace ActionTransaction

theorem fields_reviewable {transaction : ActionTransaction} (hvalid : transaction.WellFormed)
    {typeId : FieldId} (hid : typeId ∈ Field.kindIds) :
    AllReviewable (transaction.fields typeId) :=
  allReviewable_cons.mpr ⟨hvalid.1.typeField_reviewable hid,
    Action.fields_reviewable hvalid.2 transaction.header.feeField_reviewable⟩

theorem flatMap_fields_reviewable {carried : List ActionTransaction}
    (hvalid : AllWellFormed carried) {typeId : FieldId} (hid : typeId ∈ Field.kindIds) :
    AllReviewable (carried.flatMap (fields typeId)) :=
  allReviewable_flatMap.mpr fun transaction hmem =>
    fields_reviewable (hvalid.2.1 transaction hmem) hid

end ActionTransaction

theorem Content.fields_reviewable {header : Header} {content : Content}
    (hvalid : content.WellFormed version) : AllReviewable (content.fields header) := by
  have hfee : Reviewable ⟨.multisigFee, .xem, header.feeBytes⟩ := .xem (by decide) header.fee
  cases content with
  | action action => exact Action.fields_reviewable hvalid header.feeField_reviewable
  | multisig carried =>
    exact allReviewable_cons.mpr
      ⟨hfee, ActionTransaction.flatMap_fields_reviewable hvalid (by decide)⟩
  | cosigned cosignature carried =>
    refine allReviewable_append.mpr ⟨Cosignature.fields_reviewable hvalid.1, ?_⟩
    exact allReviewable_cons.mpr
      ⟨hfee, ActionTransaction.flatMap_fields_reviewable hvalid.2 (by decide)⟩

namespace Transaction

theorem fields_reviewable {transaction : Transaction} (hvalid : transaction.WellFormed) :
    AllReviewable transaction.fields :=
  allReviewable_cons.mpr ⟨hvalid.1.typeField_reviewable (by decide),
    Content.fields_reviewable hvalid.2⟩

/-- The fields of a decoded table have one of the shapes. -/
theorem reviewable_of_decode {data : Bytes} {table : FieldTable}
    (h : decode data = .ok table) : AllReviewable table.toList := by
  obtain ⟨transaction, hvalid, -, htable⟩ := decode_sound h
  rw [htable]
  exact fields_reviewable hvalid

end Transaction

end NemSigner
