import NemSigner.Proofs.Transaction.Visible

/-!
# What a review fixes

The review fields of a content, read from front to back, fix everything about the content that is
visible, and the fee, whatever fields follow behind them.

## Main statements

- `Action.fields_inj` — the fields of an action fix its visible part and its fee
-/

namespace NemSigner

variable {fee fee' : Bytes} {rest rest' : List Field}

/-- Fields in front of others are equal when the lists are. -/
theorem Field.cons_inj {id id' : FieldId} {type type' : DataType} {data data' : Bytes}
    (h : (⟨id, type, data⟩ : Field) :: rest = ⟨id', type', data'⟩ :: rest') :
    id = id' ∧ data = data' ∧ rest = rest' := by
  cases h
  exact ⟨rfl, rfl, rfl⟩

namespace Message

/-- The visible part of a message can be read off its field. -/
theorem visible_eq_of_shown {message message' : Option Message}
    (h : shown message = shown message') : visible message = visible message' := by
  have hread (message : Option Message) : visible message =
      if (shown message).id = .plainMessage then
        if (shown message).data = [] then none else some ⟨plain, (shown message).data⟩
      else some ⟨0, []⟩ := by
    cases message with
    | none => rfl
    | some message =>
      obtain ⟨payloadType, payload⟩ := message
      by_cases hplain : payloadType = plain
      · subst hplain
        rfl
      · rw [visible, if_neg hplain, shown, field_of_ne_plain hplain]
        rfl
  rw [hread, hread, h]

theorem shown_id_ne (message : Option Message) : (shown message).id ≠ .mosaicAmount := by
  cases message with
  | none => decide
  | some message =>
    by_cases hplain : message.payloadType = plain
    · rw [shown, field_plain hplain]
      exact FieldId.noConfusion
    · rw [shown, field_of_ne_plain hplain]
      exact FieldId.noConfusion

end Message

/-- An amount of XEM is one field, and any other mosaic is three. -/
theorem AttachedMosaic.fields_delimits : Delimits WellFormed fields fun mosaic => mosaic := by
  intro mosaic mosaic' rest rest' hvalid hvalid' h
  have hsame : mosaic.id = mosaic'.id ∧ mosaic.quantity = mosaic'.quantity ∧ rest = rest' := by
    -- The first identifier tells which of the two forms stands there.
    by_cases hxem : mosaic.id = MosaicId.xem
    · rw [fields_xem hxem] at h
      by_cases hxem' : mosaic'.id = MosaicId.xem
      · rw [fields_xem hxem'] at h
        obtain ⟨-, hquantity, hrest⟩ := Field.cons_inj h
        exact ⟨hxem.trans hxem'.symm, Bytes.ofNatLE_uint64_inj.mp hquantity, hrest⟩
      · rw [fields_of_ne_xem hxem'] at h
        cases (Field.cons_inj h).1
    · rw [fields_of_ne_xem hxem] at h
      by_cases hxem' : mosaic'.id = MosaicId.xem
      · rw [fields_xem hxem'] at h
        cases (Field.cons_inj h).1
      · rw [fields_of_ne_xem hxem'] at h
        obtain ⟨-, -, h⟩ := Field.cons_inj h
        obtain ⟨-, hencode, h⟩ := Field.cons_inj h
        obtain ⟨-, hquantity, hrest⟩ := Field.cons_inj h
        exact ⟨MosaicId.encode_inj hvalid.parts.1 hvalid'.parts.1 hencode,
          Bytes.ofNatLE_uint64_inj.mp hquantity, hrest⟩
  cases mosaic
  cases mosaic'
  simp only at hsame
  rw [hsame.1, hsame.2.1]
  exact ⟨rfl, hsame.2.2⟩

namespace Transfer

variable {version version' : UInt8} {transfer transfer' : Transfer}

/-- The number of mosaics is shown first, and the amount only when there are none. -/
theorem shownMosaics_inj {amount amount' : Bytes} {mosaics mosaics' : List AttachedMosaic}
    (hvalid : mosaics.length < UInt32.size ∧ ∀ mosaic ∈ mosaics, mosaic.WellFormed)
    (hvalid' : mosaics'.length < UInt32.size ∧ ∀ mosaic ∈ mosaics', mosaic.WellFormed)
    (h : shownMosaics amount mosaics ++ rest = shownMosaics amount' mosaics' ++ rest') :
    mosaics = mosaics' ∧ (mosaics = [] → amount = amount') ∧ rest = rest' := by
  by_cases hnone : mosaics = []
  · subst hnone
    by_cases hnone' : mosaics' = []
    · subst hnone'
      obtain ⟨-, hamount, hrest⟩ := Field.cons_inj h
      exact ⟨rfl, fun _ => hamount, hrest⟩
    · rw [shownMosaics_of_ne_nil amount' hnone'] at h
      cases (Field.cons_inj h).1
  · rw [shownMosaics_of_ne_nil amount hnone] at h
    by_cases hnone' : mosaics' = []
    · subst hnone'
      cases (Field.cons_inj h).1
    · rw [shownMosaics_of_ne_nil amount' hnone'] at h
      obtain ⟨-, hcount, h⟩ := Field.cons_inj h
      obtain ⟨hsame, hrest⟩ := AttachedMosaic.fields_delimits.flatMap_eq
        ((Bytes.ofNatLE_inj hvalid.1 hvalid'.1).mp hcount) hvalid.2 hvalid'.2 h
      exact ⟨hsame, fun hnil => absurd hnil hnone, hrest⟩

/-- The place of the amount tells the version. -/
theorem fields_inj (hvalid : transfer.WellFormed version) (hvalid' : transfer'.WellFormed version')
    (h : transfer.fields ⟨.fee, .xem, fee⟩ ++ rest = transfer'.fields ⟨.fee, .xem, fee'⟩ ++ rest') :
    transfer.visible = transfer'.visible ∧ fee = fee' ∧ rest = rest' := by
  obtain ⟨-, -, -, hmosaics⟩ := hvalid
  obtain ⟨-, -, -, hmosaics'⟩ := hvalid'
  -- Behind the recipient stands an amount or a message, and no message is shown as an amount.
  obtain ⟨recipient, amount, message, mosaics⟩ := transfer
  obtain ⟨recipient', amount', message', mosaics'⟩ := transfer'
  cases mosaics with
  | none =>
    rw [fields_first rfl] at h
    cases mosaics' with
    | none =>
      rw [fields_first rfl] at h
      simp only [List.cons_append, List.nil_append, List.cons.injEq, Field.mk.injEq, true_and,
        Bytes.ofNatLE_uint64_inj] at h
      obtain ⟨rfl, rfl, hmessage, rfl, rfl⟩ := h
      simp only [visible, Message.visible_eq_of_shown hmessage, and_self]
    | some mosaics' =>
      rw [fields_second rfl] at h
      exact absurd (congrArg Field.id (List.cons.inj (Field.cons_inj h).2.2).1).symm
        (Message.shown_id_ne message')
  | some mosaics =>
    rw [fields_second rfl] at h
    cases mosaics' with
    | none =>
      rw [fields_first rfl] at h
      exact absurd (congrArg Field.id (List.cons.inj (Field.cons_inj h).2.2).1)
        (Message.shown_id_ne message)
    | some mosaics' =>
      rw [fields_second rfl] at h
      simp only [List.cons_append, List.cons.injEq, Field.mk.injEq, true_and] at h
      obtain ⟨rfl, hmessage, rfl, hlist⟩ := h
      obtain ⟨rfl, hamount, rfl⟩ := shownMosaics_inj (hmosaics _ rfl) (hmosaics' _ rfl) hlist
      cases mosaics with
      | nil =>
        obtain rfl := Bytes.ofNatLE_uint64_inj.mp (hamount rfl)
        simp only [visible, Message.visible_eq_of_shown hmessage, and_self]
      | cons mosaic mosaics =>
        simp only [visible, Message.visible_eq_of_shown hmessage, and_self]

end Transfer

theorem ImportanceTransfer.fields_inj {transfer transfer' : ImportanceTransfer}
    (h : transfer.fields ⟨.fee, .xem, fee⟩ ++ rest = transfer'.fields ⟨.fee, .xem, fee'⟩ ++ rest') :
    transfer = transfer' ∧ fee = fee' ∧ rest = rest' := by
  cases transfer
  cases transfer'
  simpa [ImportanceTransfer.fields, and_assoc] using h

theorem Modification.fields_delimits :
    Delimits WellFormed fields fun modification => modification := by
  intro modification modification' rest rest' hvalid hvalid' h
  cases modification
  cases modification'
  simpa [Modification.fields, and_assoc] using h

namespace AggregateModification

/-- Something is said about the change exactly when there is a field between the modifications and
the fee. -/
theorem change_fields_inj {change change' : RelativeChange}
    (h : change.fields ++ (⟨.fee, .xem, fee⟩ :: rest) =
      change'.fields ++ (⟨.fee, .xem, fee'⟩ :: rest')) :
    change.visible = change'.visible ∧ fee = fee' ∧ rest = rest' := by
  have hread (change : RelativeChange) : (change.visible = .absent ∧ change.fields = []) ∨
      ∃ amount, change.visible = .delta amount ∧
        change.fields = [⟨.relativeChange, .uint32, Bytes.ofNatLE 4 amount.toNat⟩] := by
    cases change with
    | absent => exact .inl ⟨rfl, rfl⟩
    | unspecified => exact .inr ⟨0, rfl, rfl⟩
    | delta amount => exact .inr ⟨amount, rfl, rfl⟩
  obtain ⟨hvisible, hfields⟩ | ⟨amount, hvisible, hfields⟩ := hread change
  · obtain ⟨hvisible', hfields'⟩ | ⟨amount', hvisible', hfields'⟩ := hread change'
    · rw [hfields, hfields'] at h
      obtain ⟨-, hfee, hrest⟩ := Field.cons_inj h
      exact ⟨hvisible.trans hvisible'.symm, hfee, hrest⟩
    · rw [hfields, hfields'] at h
      cases (Field.cons_inj h).1
  · obtain ⟨hvisible', hfields'⟩ | ⟨amount', hvisible', hfields'⟩ := hread change'
    · rw [hfields, hfields'] at h
      cases (Field.cons_inj h).1
    · rw [hfields, hfields'] at h
      obtain ⟨-, hamount, h⟩ := Field.cons_inj h
      obtain ⟨-, hfee, hrest⟩ := Field.cons_inj h
      rw [hvisible, hvisible', Bytes.ofNatLE_uint32_inj.mp hamount]
      exact ⟨rfl, hfee, hrest⟩

/-- The modifications are counted, and the second version shows a change behind them. -/
theorem fields_inj {version version' : UInt8} {aggregate aggregate' : AggregateModification}
    (hvalid : aggregate.WellFormed version) (hvalid' : aggregate'.WellFormed version')
    (h : aggregate.fields ⟨.fee, .xem, fee⟩ ++ rest =
      aggregate'.fields ⟨.fee, .xem, fee'⟩ ++ rest') :
    aggregate.visible = aggregate'.visible ∧ fee = fee' ∧ rest = rest' := by
  obtain ⟨modifications, change⟩ := aggregate
  obtain ⟨modifications', change'⟩ := aggregate'
  simp only [fields, List.append_assoc] at h
  obtain ⟨-, hcount, hlist⟩ := Field.cons_inj h
  obtain ⟨hsame, hchange⟩ := Modification.fields_delimits.flatMap_eq
    ((Bytes.ofNatLE_inj hvalid.1 hvalid'.1).mp hcount) hvalid.2.1 hvalid'.2.1 hlist
  obtain ⟨hvisible, hfee, hrest⟩ := change_fields_inj hchange
  refine ⟨?_, hfee, hrest⟩
  simp only [visible, hsame, hvisible]

end AggregateModification

theorem Cosignature.fields_inj {cosignature cosignature' : Cosignature}
    (h : cosignature.fields ++ rest = cosignature'.fields ++ rest') :
    cosignature = cosignature' ∧ rest = rest' := by
  cases cosignature
  cases cosignature'
  simpa [Cosignature.fields, and_assoc] using h

/-- A root namespace is shown under an identifier of its own. -/
theorem NamespaceProvision.fields_inj {provision provision' : NamespaceProvision}
    (h : provision.fields ⟨.fee, .xem, fee⟩ ++ rest =
      provision'.fields ⟨.fee, .xem, fee'⟩ ++ rest') :
    provision = provision' ∧ fee = fee' ∧ rest = rest' := by
  obtain ⟨sink, rentalFee, name, parent⟩ := provision
  obtain ⟨sink', rentalFee', name', parent'⟩ := provision'
  simp only [fields_eq, List.cons_append, List.nil_append, List.cons.injEq, Field.mk.injEq,
    true_and, Bytes.ofNatLE_uint64_inj] at h
  obtain ⟨rfl, hparent, rfl, rfl, rfl, rfl⟩ := h
  have hsame : parent = parent' := by
    cases parent <;> cases parent' <;> simp_all [shownParent]
  rw [hsame]
  exact ⟨rfl, rfl, rfl⟩

/-- Created and deleted units are shown under different identifiers. -/
theorem SupplyChange.fields_inj {change change' : SupplyChange} (hvalid : change.WellFormed)
    (hvalid' : change'.WellFormed)
    (h : change.fields ⟨.fee, .xem, fee⟩ ++ rest = change'.fields ⟨.fee, .xem, fee'⟩ ++ rest') :
    change = change' ∧ fee = fee' ∧ rest = rest' := by
  have hneither : FieldId.supplyCreated ≠ .supplyDeleted := FieldId.noConfusion
  obtain ⟨⟨space, name⟩, type, delta⟩ := change
  obtain ⟨⟨space', name'⟩, type', delta'⟩ := change'
  obtain ⟨htype, -⟩ := hvalid
  obtain ⟨htype', -⟩ := hvalid'
  dsimp only at htype htype'
  simp only [SupplyChange.fields, List.cons_append, List.nil_append, List.cons.injEq,
    Field.mk.injEq, true_and, Bytes.ofNatLE_uint64_inj] at h
  obtain ⟨rfl, rfl, ⟨hid, rfl⟩, rfl, rfl⟩ := h
  -- Deleting is the only other type, or two types would share an identifier.
  have hsame : type = type' := by
    by_cases hcreate : type = create
    · rw [if_pos hcreate] at hid
      by_cases hcreate' : type' = create
      · exact hcreate.trans hcreate'.symm
      · rw [if_neg hcreate'] at hid
        exact absurd hid hneither
    · rw [if_neg hcreate] at hid
      by_cases hcreate' : type' = create
      · rw [if_pos hcreate'] at hid
        exact absurd hid.symm hneither
      · exact (htype.resolve_left hcreate).trans (htype'.resolve_left hcreate').symm
  rw [hsame]
  exact ⟨rfl, rfl, rfl⟩

/-- Properties are shown one by one, and nothing else is shown as a property. -/
theorem MosaicProperty.map_field_inj {properties properties' : List MosaicProperty}
    (hvalid : ∀ property ∈ properties, property.encode.length < UInt32.size)
    (hvalid' : ∀ property ∈ properties', property.encode.length < UInt32.size)
    (hrest : ∀ field ∈ rest.head?, field.id ≠ .property)
    (hrest' : ∀ field ∈ rest'.head?, field.id ≠ .property)
    (h : properties.flatMap (fun property => [property.field]) ++ rest =
      properties'.flatMap (fun property => [property.field]) ++ rest') :
    properties = properties' ∧ rest = rest' := by
  -- Their number is not shown: the list ends where something else than a property stands.
  induction properties generalizing properties' with
  | nil =>
    cases properties' with
    | nil => exact ⟨rfl, h⟩
    | cons property' properties' =>
      rw [List.flatMap_nil, List.nil_append] at h
      exact absurd rfl (hrest property'.field (by rw [h]; rfl))
  | cons property properties ih =>
    cases properties' with
    | nil =>
      rw [List.flatMap_nil, List.nil_append] at h
      exact absurd rfl (hrest' property.field (by rw [← h]; rfl))
    | cons property' properties' =>
      obtain ⟨hproperty, hproperties⟩ := List.forall_mem_cons.mp hvalid
      obtain ⟨hproperty', hproperties'⟩ := List.forall_mem_cons.mp hvalid'
      obtain ⟨-, hencode, htail⟩ := Field.cons_inj h
      have hnames : MosaicId.WellFormed ⟨property.name, property.value⟩ := hproperty
      have hnames' : MosaicId.WellFormed ⟨property'.name, property'.value⟩ := hproperty'
      have hsame := MosaicId.encode_inj hnames hnames' hencode
      obtain ⟨rfl, hend⟩ := ih hproperties hproperties' htail
      cases property
      cases property'
      cases hsame
      exact ⟨rfl, hend⟩

namespace MosaicDefinition

theorem levy_fields_inj {levy levy' : Option Levy} (hvalid : ∀ levy₁ ∈ levy, levy₁.id.WellFormed)
    (hvalid' : ∀ levy₁ ∈ levy', levy₁.id.WellFormed) {sink sink' : Bytes}
    (h : levy.elim [] Levy.fields ++ (⟨.sinkAddress, .address, sink⟩ :: rest) =
      levy'.elim [] Levy.fields ++ (⟨.sinkAddress, .address, sink'⟩ :: rest')) :
    levy = levy' ∧ sink = sink' ∧ rest = rest' := by
  cases levy with
  | none =>
    cases levy' with
    | none =>
      obtain ⟨-, hsink, hrest⟩ := Field.cons_inj h
      exact ⟨rfl, hsink, hrest⟩
    | some levy' => cases (Field.cons_inj h).1
  | some levy =>
    cases levy' with
    | none => cases (Field.cons_inj h).1
    | some levy' =>
      obtain ⟨type, recipient, id, fee⟩ := levy
      obtain ⟨type', recipient', id', fee'⟩ := levy'
      simp only [Option.elim, Levy.fields, List.cons_append, List.nil_append, List.cons.injEq,
        Field.mk.injEq, true_and, Bytes.ofNatLE_uint32_inj, Bytes.ofNatLE_uint64_inj] at h
      obtain ⟨hencode, rfl, rfl, rfl, rfl, rfl⟩ := h
      have hsame : id = id' := MosaicId.encode_inj (hvalid _ rfl) (hvalid' _ rfl) hencode
      rw [hsame]
      exact ⟨rfl, rfl, rfl⟩

/-- The identifier of a levy fits the definition that the levy is part of. -/
theorem levy_id_wellFormed {definition : MosaicDefinition} (hvalid : definition.WellFormed) :
    ∀ levy ∈ definition.levy, levy.id.WellFormed := by
  obtain ⟨-, -, -, -, hlast⟩ := parts_fit hvalid.2.2.1
  intro levy hlevy
  rw [Option.mem_def.mp hlevy] at hlast
  exact Nat.lt_trans levy.length_id_lt hlast

/-- Behind the properties stands a levy or the sink. -/
theorem levy_head_ne (levy : Option Levy) (sink : Bytes) (rest : List Field) :
    ∀ field ∈ (levy.elim [] Levy.fields ++ (⟨.sinkAddress, .address, sink⟩ :: rest)).head?,
      field.id ≠ .property := by
  intro field hfield
  cases levy <;> cases hfield <;> exact FieldId.noConfusion

/-- Everything but the creator is shown. -/
theorem fields_inj {definition definition' : MosaicDefinition} (hvalid : definition.WellFormed)
    (hvalid' : definition'.WellFormed)
    (h : definition.fields ⟨.fee, .xem, fee⟩ ++ rest =
      definition'.fields ⟨.fee, .xem, fee'⟩ ++ rest') :
    definition.visible = definition'.visible ∧ fee = fee' ∧ rest = rest' := by
  obtain ⟨-, -, -, hproperties, -⟩ := parts_fit hvalid.2.2.1
  obtain ⟨-, -, -, hproperties', -⟩ := parts_fit hvalid'.2.2.1
  have hlevy := levy_id_wellFormed hvalid
  have hlevy' := levy_id_wellFormed hvalid'
  obtain ⟨creator, ⟨space, name⟩, description, properties, levy, sink, rentalFee⟩ := definition
  obtain ⟨creator', ⟨space', name'⟩, description', properties', levy', sink', rentalFee'⟩ :=
    definition'
  simp only [fields_eq, properFields, List.append_assoc, List.cons_append, List.nil_append,
    List.cons.injEq, Field.mk.injEq, true_and] at h
  obtain ⟨rfl, rfl, rfl, h⟩ := h
  obtain ⟨rfl, hlast⟩ := MosaicProperty.map_field_inj hproperties hproperties'
    (levy_head_ne _ _ _) (levy_head_ne _ _ _) h
  obtain ⟨rfl, rfl, hend⟩ := levy_fields_inj hlevy hlevy' hlast
  simp only [List.cons.injEq, Field.mk.injEq, true_and, Bytes.ofNatLE_uint64_inj] at hend
  obtain ⟨rfl, rfl, rfl⟩ := hend
  exact ⟨rfl, rfl, rfl⟩

end MosaicDefinition

/-- Within one kind the fields of an action fix its visible part and its fee, whatever stands
behind them. -/
theorem Action.fields_inj {version version' : UInt8} {action action' : Action}
    (hkind : action.kind = action'.kind) (hvalid : action.WellFormed version)
    (hvalid' : action'.WellFormed version')
    (h : action.fields ⟨.fee, .xem, fee⟩ ++ rest = action'.fields ⟨.fee, .xem, fee'⟩ ++ rest') :
    action.visible = action'.visible ∧ fee = fee' ∧ rest = rest' := by
  cases action with
  | transfer content =>
    cases action' with
    | transfer content' =>
      obtain ⟨hvisible, hothers⟩ := Transfer.fields_inj hvalid hvalid' h
      exact ⟨congrArg transfer hvisible, hothers⟩
    | _ => cases hkind
  | importanceTransfer content =>
    cases action' with
    | importanceTransfer content' =>
      obtain ⟨rfl, hothers⟩ := ImportanceTransfer.fields_inj h
      exact ⟨rfl, hothers⟩
    | _ => cases hkind
  | aggregateModification content =>
    cases action' with
    | aggregateModification content' =>
      obtain ⟨hvisible, hothers⟩ := AggregateModification.fields_inj hvalid hvalid' h
      exact ⟨congrArg aggregateModification hvisible, hothers⟩
    | _ => cases hkind
  | cosignature content =>
    cases action' with
    | cosignature content' =>
      simp only [fields, List.append_assoc] at h
      obtain ⟨rfl, hlast⟩ := Cosignature.fields_inj h
      obtain ⟨-, hothers⟩ := Field.cons_inj hlast
      exact ⟨rfl, hothers⟩
    | _ => cases hkind
  | namespaceProvision content =>
    cases action' with
    | namespaceProvision content' =>
      obtain ⟨rfl, hothers⟩ := NamespaceProvision.fields_inj h
      exact ⟨rfl, hothers⟩
    | _ => cases hkind
  | mosaicDefinition content =>
    cases action' with
    | mosaicDefinition content' =>
      obtain ⟨hvisible, hothers⟩ := MosaicDefinition.fields_inj hvalid hvalid' h
      exact ⟨congrArg mosaicDefinition hvisible, hothers⟩
    | _ => cases hkind
  | supplyChange content =>
    cases action' with
    | supplyChange content' =>
      obtain ⟨rfl, hothers⟩ := SupplyChange.fields_inj hvalid hvalid' h
      exact ⟨rfl, hothers⟩
    | _ => cases hkind

end NemSigner
