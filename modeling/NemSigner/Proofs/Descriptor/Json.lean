import NemSigner.Proofs.Descriptor.Nesting
import NemSigner.Proofs.Json.Fields

/-!
# Descriptors are read as they are written

Every descriptor is read back from its value, however deeply it carries others. What can be left out
of a value is read as what is usual.

## Main definitions

- `TransactionKind.contentNames`, `TransactionKind.usual` — the fields of a body of each kind, and
  those that can be left out
- `Descriptor.ofTagged` — the reading of a body together with its tag

## Main statements

- `Descriptor.restores` — descriptors are read back
- `Descriptor.tolerates_ofJson`, `Descriptor.tolerates_ofTagged` — what can be left out
-/

namespace NemSigner

open Json (Value Record Restores Tolerates restores_int32 restores_record restores_text
  restores_uint8 restores_uint32 restores_uint64 tolerates_record)
open Json.Value (ofRecord_eq plain_ofRecord plain_ofRecord_cons plain_ofText record?_ofRecord)

/-! ## Parts -/

namespace MessageDescriptor

/-- The fields that can be left out. -/
def usual : Record := [("payload_type", .ofInt 1), ("text", .null), ("hex", .null)]

theorem restores : Restores toJson ofJson := by
  refine restores_record (by decide) (fun _ => rfl) (fun message => ?_) fun message => ?_
  · refine restores_uint32.withDefault rfl ?_
    refine restores_text.optional rfl ?_
    exact restores_text.optional rfl rfl
  · have htext := restores_text.plain_option message.text
    have hhex := restores_text.plain_option message.hex
    simp [htext, hhex]

theorem tolerates : Tolerates fieldNames usual ofJson :=
  tolerates_record (by decide) fun member hmember record record' h => by
    have hpayload : Value.uint32? (.ofInt 1) = some 1 := rfl
    simp only [usual, List.mem_cons, List.not_mem_nil, or_false] at hmember
    obtain rfl | rfl | rfl := hmember <;> simp [h.withDefault, h.optional, hpayload]

end MessageDescriptor

theorem MosaicDescriptor.restores : Restores MosaicDescriptor.toJson MosaicDescriptor.ofJson := by
  refine restores_record (by decide) (fun _ => rfl) (fun mosaic => ?_) fun mosaic => by simp
  refine restores_text.required rfl ?_
  refine restores_text.required rfl ?_
  exact restores_uint64.required rfl rfl

theorem MosaicDescriptor.tolerates :
    Tolerates MosaicDescriptor.fieldNames [] MosaicDescriptor.ofJson :=
  tolerates_record (List.forall_mem_nil _) (List.forall_mem_nil _)

theorem ModificationDescriptor.restores :
    Restores ModificationDescriptor.toJson ModificationDescriptor.ofJson := by
  refine restores_record (by decide) (fun _ => rfl) (fun modification => ?_)
    fun modification => by simp
  refine restores_uint32.required rfl ?_
  exact restores_text.required rfl rfl

theorem ModificationDescriptor.tolerates :
    Tolerates ModificationDescriptor.fieldNames [] ModificationDescriptor.ofJson :=
  tolerates_record (List.forall_mem_nil _) (List.forall_mem_nil _)

theorem PropertyDescriptor.restores :
    Restores PropertyDescriptor.toJson PropertyDescriptor.ofJson := by
  refine restores_record (by decide) (fun _ => rfl) (fun property => ?_) fun property => by simp
  refine restores_text.required rfl ?_
  exact restores_text.required rfl rfl

theorem PropertyDescriptor.tolerates :
    Tolerates PropertyDescriptor.fieldNames [] PropertyDescriptor.ofJson :=
  tolerates_record (List.forall_mem_nil _) (List.forall_mem_nil _)

theorem LevyDescriptor.restores : Restores LevyDescriptor.toJson LevyDescriptor.ofJson := by
  refine restores_record (by decide) (fun _ => rfl) (fun levy => ?_) fun levy => by simp
  refine restores_uint32.required rfl ?_
  refine restores_text.required rfl ?_
  refine restores_text.required rfl ?_
  refine restores_text.required rfl ?_
  exact restores_uint64.required rfl rfl

theorem LevyDescriptor.tolerates :
    Tolerates LevyDescriptor.fieldNames [] LevyDescriptor.ofJson :=
  tolerates_record (List.forall_mem_nil _) (List.forall_mem_nil _)

/-! ## Contents -/

namespace TransferDescriptor

theorem restores : Restores (fun transfer => .ofRecord (toRecord transfer)) ofJson := by
  refine restores_record (by decide) (fun _ => rfl) (fun transfer => ?_) fun transfer => ?_
  · refine restores_text.required rfl ?_
    refine restores_uint64.required rfl ?_
    refine MessageDescriptor.restores.optional rfl ?_
    exact MosaicDescriptor.restores.list.withDefault rfl rfl
  · have hmessage := MessageDescriptor.restores.plain_option transfer.message
    have hmosaics := MosaicDescriptor.restores.list.plain transfer.mosaics
    simp [toRecord, hmessage, hmosaics]

/-- The fields that can be left out. -/
def usual : Record := [("message", .null), ("mosaics", .array [])]

theorem tolerates : Tolerates fieldNames usual ofJson :=
  tolerates_record (by decide) fun member hmember record record' h => by
    have hmosaics : Value.list? MosaicDescriptor.ofJson (.array []) = some [] := rfl
    simp only [usual, List.mem_cons, List.not_mem_nil, or_false] at hmember
    obtain rfl | rfl := hmember <;> simp [h.required, h.withDefault, h.optional, hmosaics]

end TransferDescriptor

namespace ImportanceDescriptor

theorem restores : Restores (fun transfer => .ofRecord (toRecord transfer)) ofJson := by
  refine restores_record (by decide) (fun _ => rfl) (fun transfer => ?_)
    fun transfer => by simp [toRecord]
  refine restores_uint32.required rfl ?_
  exact restores_text.required rfl rfl

theorem tolerates : Tolerates fieldNames [] ofJson :=
  tolerates_record (List.forall_mem_nil _) (List.forall_mem_nil _)

end ImportanceDescriptor

namespace AggregateDescriptor

theorem restores : Restores (fun aggregate => .ofRecord (toRecord aggregate)) ofJson := by
  refine restores_record (by decide) (fun _ => rfl) (fun aggregate => ?_) fun aggregate => ?_
  · refine ModificationDescriptor.restores.list.required rfl ?_
    exact restores_int32.optional rfl rfl
  · have hmodifications := ModificationDescriptor.restores.list.plain aggregate.modifications
    have hchange := restores_int32.plain_option aggregate.change
    simp [toRecord, hmodifications, hchange]

/-- The field that can be left out. -/
def usual : Record := [("min_cosignatories", .null)]

theorem tolerates : Tolerates fieldNames usual ofJson :=
  tolerates_record (by decide) fun member hmember record record' h => by
    obtain rfl := List.mem_singleton.mp hmember
    simp [h.required, h.optional]

end AggregateDescriptor

theorem CosignatureDescriptor.ofRecord_toRecord (cosignature : CosignatureDescriptor)
    (carried : Value) : ofRecord (cosignature.toRecord carried) = some cosignature := by
  refine restores_text.required rfl ?_
  exact restores_text.required rfl rfl

namespace ProvisionDescriptor

theorem restores : Restores (fun provision => .ofRecord (toRecord provision)) ofJson := by
  refine restores_record (by decide) (fun _ => rfl) (fun provision => ?_) fun provision => ?_
  · refine restores_text.required rfl ?_
    refine restores_uint64.required rfl ?_
    refine restores_text.required rfl ?_
    exact restores_text.optional rfl rfl
  · have hparent := restores_text.plain_option provision.parent
    simp [toRecord, hparent]

/-- The field that can be left out. -/
def usual : Record := [("parent", .null)]

theorem tolerates : Tolerates fieldNames usual ofJson :=
  tolerates_record (by decide) fun member hmember record record' h => by
    obtain rfl := List.mem_singleton.mp hmember
    simp [h.required, h.optional]

end ProvisionDescriptor

namespace DefinitionDescriptor

theorem restores : Restores (fun definition => .ofRecord (toRecord definition)) ofJson := by
  refine restores_record (by decide) (fun _ => rfl) (fun definition => ?_) fun definition => ?_
  · refine restores_text.required rfl ?_
    refine restores_text.required rfl ?_
    refine restores_text.required rfl ?_
    refine restores_text.required rfl ?_
    refine PropertyDescriptor.restores.list.withDefault rfl ?_
    refine LevyDescriptor.restores.optional rfl ?_
    refine restores_text.required rfl ?_
    exact restores_uint64.required rfl rfl
  · have hproperties := PropertyDescriptor.restores.list.plain definition.properties
    have hlevy := LevyDescriptor.restores.plain_option definition.levy
    simp [toRecord, hproperties, hlevy]

/-- The fields that can be left out. -/
def usual : Record := [("properties", .array []), ("levy", .null)]

theorem tolerates : Tolerates fieldNames usual ofJson :=
  tolerates_record (by decide) fun member hmember record record' h => by
    have hproperties : Value.list? PropertyDescriptor.ofJson (.array []) = some [] := rfl
    simp only [usual, List.mem_cons, List.not_mem_nil, or_false] at hmember
    obtain rfl | rfl := hmember <;> simp [h.required, h.withDefault, h.optional, hproperties]

end DefinitionDescriptor

namespace SupplyDescriptor

theorem restores : Restores (fun change => .ofRecord (toRecord change)) ofJson := by
  refine restores_record (by decide) (fun _ => rfl) (fun change => ?_)
    fun change => by simp [toRecord]
  refine restores_text.required rfl ?_
  refine restores_text.required rfl ?_
  refine restores_uint32.required rfl ?_
  exact restores_uint64.required rfl rfl

theorem tolerates : Tolerates fieldNames [] ofJson :=
  tolerates_record (List.forall_mem_nil _) (List.forall_mem_nil _)

end SupplyDescriptor

/-! ## Headers and bodies -/

namespace TransactionKind

theorem ofJson_tag (kind : TransactionKind) : ofJson (.ofText kind.tag) = some kind := by
  cases kind <;> decide

theorem ofJsonOrNumber_tag (kind : TransactionKind) :
    ofJsonOrNumber (.ofText kind.tag) = some kind :=
  ofJson_tag kind

/-- The fields of a body of a kind. -/
def contentNames : TransactionKind → List String
  | transfer => TransferDescriptor.fieldNames
  | importanceTransfer => ImportanceDescriptor.fieldNames
  | aggregateModification => AggregateDescriptor.fieldNames
  | multisigSignature => CosignatureDescriptor.fieldNames
  | multisig => ["inner"]
  | provisionNamespace => ProvisionDescriptor.fieldNames
  | mosaicDefinition => DefinitionDescriptor.fieldNames
  | mosaicSupplyChange => SupplyDescriptor.fieldNames

theorem tagName_notMem_contentNames (kind : TransactionKind) :
    Descriptor.tagName ∉ kind.contentNames := by
  cases kind <;> decide

/-- The fields that can be left out of a body of a kind. -/
def usual : TransactionKind → Record
  | transfer => TransferDescriptor.usual
  | aggregateModification => AggregateDescriptor.usual
  | multisigSignature => [("cosigned", .null)]
  | provisionNamespace => ProvisionDescriptor.usual
  | mosaicDefinition => DefinitionDescriptor.usual
  | importanceTransfer | multisig | mosaicSupplyChange => []

theorem mem_contentNames_of_usual (kind : TransactionKind) :
    ∀ member ∈ kind.usual, member.1 ∈ kind.contentNames := by
  cases kind <;> decide

end TransactionKind

namespace HeaderDescriptor

/-- The fields of a header that can be left out. -/
def usual : Record := [
  ("version", .ofInt usualVersion.toNat),
  ("network", .ofInt usualNetwork.toNat),
  ("timestamp", .ofInt 0),
  ("signer", .ofText usualSigner),
  ("deadline", .ofInt 0)]

end HeaderDescriptor

namespace ActionDescriptor

theorem map_fst_toRecord (action : ActionDescriptor) :
    action.toRecord.map Prod.fst = action.kind.contentNames := by
  cases action <;> rfl

theorem plain_toRecord (action : ActionDescriptor) : (Value.ofRecord action.toRecord).Plain := by
  cases action with
  | transfer content => exact TransferDescriptor.restores.plain content
  | importanceTransfer content => exact ImportanceDescriptor.restores.plain content
  | aggregateModification content => exact AggregateDescriptor.restores.plain content
  | cosignature content =>
    exact plain_ofRecord (by simp [toRecord, CosignatureDescriptor.toRecord])
  | namespaceProvision content => exact ProvisionDescriptor.restores.plain content
  | mosaicDefinition content => exact DefinitionDescriptor.restores.plain content
  | supplyChange content => exact SupplyDescriptor.restores.plain content

end ActionDescriptor

namespace Descriptor

variable {kinds : Value → Option TransactionKind} {read : Value → Option Descriptor}

/-- Whether a member of a body is a tag. -/
def isTag (member : Option String × Value) : Bool :=
  member.1 == some tagName

theorem isTag_named {name : String} {value : Value} (h : name ≠ tagName) :
    isTag (some name, value) = false :=
  beq_eq_false_iff_ne.mpr fun heq => h (Option.some.inj heq)

/-- An object has a tag when exactly one of its members is one, and the others are its content. -/
theorem untag_object {members : List (Option String × Value)} {key : Option String} {tag : Value}
    (h : members.filter isTag = [(key, tag)]) :
    untag (.object members) = some (tag, .object (members.filter fun member => !isTag member)) := by
  have hpartition : members.partition isTag =
      ([(key, tag)], members.filter fun member => !isTag member) := by
    rw [List.partition_eq_filter_filter, h]
    rfl
  unfold isTag at hpartition
  rw [untag, hpartition]
  rfl

theorem untag_object_of_ne {members : List (Option String × Value)}
    (h : ∀ member, members.filter isTag ≠ [member]) : untag (.object members) = none := by
  rw [untag, List.partition_eq_filter_filter]
  split
  · next heq => exact absurd (Prod.mk.inj heq).1 (h _)
  · rfl

theorem untag_taggedJson {record : Record} (kind : TransactionKind)
    (h : tagName ∉ record.map Prod.fst) :
    untag (taggedJson kind record) = some (.ofText kind.tag, .ofRecord record) := by
  have hother : ∀ member ∈ record.map fun member => (some member.1, member.2),
      isTag member = false := by
    refine List.forall_mem_map.mpr fun member hmember => isTag_named ?_
    rintro heq
    rw [← heq] at h
    exact h (List.mem_map_of_mem hmember)
  have htag : ((some tagName, Value.ofText kind.tag) ::
      record.map fun member => (some member.1, member.2)).filter isTag =
        [(some tagName, Value.ofText kind.tag)] := by
    rw [List.filter_cons_of_pos rfl, List.filter_eq_nil_iff.mpr (by simpa using hother)]
  rw [taggedJson, ofRecord_eq, List.map_cons, untag_object htag,
    List.filter_cons_of_neg (by simp [isTag]), List.filter_eq_self.mpr (by simpa using hother)]
  rfl

/-- The reading of a written descriptor goes on with its body. -/
theorem ofValue_recordJson (hkinds : ∀ kind : TransactionKind, kinds (.ofText kind.tag) = some kind)
    {record : Record} {kind : TransactionKind} (header : HeaderDescriptor)
    (h : record.map Prod.fst = kind.contentNames) :
    ofValue kinds read (recordJson header (taggedJson kind record)) =
      ofBody read header kind (.ofRecord record) := by
  have huntag : untag (taggedJson kind record) = some (.ofText kind.tag, .ofRecord record) := by
    refine untag_taggedJson kind ?_
    rw [h]
    exact kind.tagName_notMem_contentNames
  have hbody : ((kinds (.ofText kind.tag)).bind fun kind =>
      ofBody read header kind (.ofRecord record)) = ofBody read header kind (.ofRecord record) := by
    rw [hkinds]
    rfl
  rw [ofValue, recordJson, record?_ofRecord]
  · -- The header is read field by field, and then the body.
    simp only [headerOfRecord, Option.bind_eq_bind, Option.bind_some, Option.bind_assoc]
    refine restores_uint8.withDefault rfl ?_
    refine restores_uint8.withDefault rfl ?_
    refine restores_uint32.withDefault rfl ?_
    refine restores_text.withDefault rfl ?_
    refine restores_uint64.required rfl ?_
    refine restores_uint32.withDefault rfl ?_
    exact Record.required_bind rfl huntag hbody
  · rfl
  · decide

theorem ofBody_action (header : HeaderDescriptor) (action : ActionDescriptor) :
    ofBody read header action.kind (.ofRecord action.toRecord) = some (.action header action) := by
  cases action with
  | transfer content =>
    exact congrArg (Option.bind · _) (TransferDescriptor.restores.read_write content)
  | importanceTransfer content =>
    exact congrArg (Option.bind · _) (ImportanceDescriptor.restores.read_write content)
  | aggregateModification content =>
    exact congrArg (Option.bind · _) (AggregateDescriptor.restores.read_write content)
  | cosignature content =>
    have hcontent := CosignatureDescriptor.ofRecord_toRecord content .null
    rw [ActionDescriptor.kind, ofBody, ActionDescriptor.toRecord, record?_ofRecord]
    · simp only [Option.bind_eq_bind, Option.bind_some, hcontent]
      exact Record.withDefault_bind rfl rfl rfl
    · rfl
    · decide
  | namespaceProvision content =>
    exact congrArg (Option.bind · _) (ProvisionDescriptor.restores.read_write content)
  | mosaicDefinition content =>
    exact congrArg (Option.bind · _) (DefinitionDescriptor.restores.read_write content)
  | supplyChange content =>
    exact congrArg (Option.bind · _) (SupplyDescriptor.restores.read_write content)

theorem ofBody_multisig (header : HeaderDescriptor) {carried : Value} {descriptor : Descriptor}
    (h : read carried = some descriptor) :
    ofBody read header .multisig (.ofRecord [("inner", carried)]) =
      some (.multisig header descriptor) := by
  rw [ofBody, record?_ofRecord]
  · exact Record.required_bind rfl h rfl
  · rfl
  · decide

theorem ofBody_cosigned (header : HeaderDescriptor) (content : CosignatureDescriptor)
    {carried : Value} {descriptor : Descriptor} (h : read carried = some descriptor)
    (hnull : carried ≠ .null) :
    ofBody read header .multisigSignature (.ofRecord (content.toRecord carried)) =
      some (.cosigned header content descriptor) := by
  have hcontent := CosignatureDescriptor.ofRecord_toRecord content carried
  have hread : Value.nullable? read carried = some (some descriptor) := by
    rw [Value.nullable?_of_ne_null hnull, h]
    rfl
  rw [ofBody, record?_ofRecord]
  · simp only [Option.bind_eq_bind, Option.bind_some, hcontent]
    exact Record.withDefault_bind rfl hread rfl
  · rfl
  · decide

theorem toJson_ne_null (descriptor : Descriptor) : descriptor.toJson ≠ .null := by
  cases descriptor <;> exact nofun

/-- The fields of the body of a descriptor as they are written. -/
def contentRecord : Descriptor → Record
  | action _ content => content.toRecord
  | multisig _ carried => [("inner", carried.toJson)]
  | cosigned _ content carried => content.toRecord carried.toJson

/-- The value of the body of a descriptor. -/
def bodyJson (descriptor : Descriptor) : Value :=
  taggedJson descriptor.kind descriptor.contentRecord

theorem toJson_eq (descriptor : Descriptor) :
    descriptor.toJson = recordJson descriptor.header descriptor.bodyJson := by
  cases descriptor <;> rfl

/-- A body is written with all of its fields. -/
theorem map_fst_contentRecord (descriptor : Descriptor) :
    descriptor.contentRecord.map Prod.fst = descriptor.kind.contentNames := by
  cases descriptor with
  | action header content => exact content.map_fst_toRecord
  | multisig header carried => rfl
  | cosigned header content carried => rfl

/-- A descriptor is read back as soon as kinds are read by their tags: the same holds of those that
it carries. -/
theorem ofValue_toJson (hkinds : ∀ kind : TransactionKind, kinds (.ofText kind.tag) = some kind)
    (descriptor : Descriptor) : ofValue kinds ofCarried descriptor.toJson = some descriptor := by
  induction descriptor generalizing kinds with
  | action header content =>
    rw [toJson_eq, bodyJson, ofValue_recordJson hkinds _ (map_fst_contentRecord _)]
    exact ofBody_action header content
  | multisig header carried ih =>
    have hcarried := (ofCarried_eq carried.toJson).trans (ih TransactionKind.ofJsonOrNumber_tag)
    rw [toJson_eq, bodyJson, ofValue_recordJson hkinds _ (map_fst_contentRecord _)]
    exact ofBody_multisig header hcarried
  | cosigned header content carried ih =>
    have hcarried := (ofCarried_eq carried.toJson).trans (ih TransactionKind.ofJsonOrNumber_tag)
    rw [toJson_eq, bodyJson, ofValue_recordJson hkinds _ (map_fst_contentRecord _)]
    exact ofBody_cosigned header content hcarried carried.toJson_ne_null

theorem plain_bodyJson_of_content {descriptor : Descriptor}
    (h : (Value.ofRecord descriptor.contentRecord).Plain) : descriptor.bodyJson.Plain :=
  plain_ofRecord_cons (plain_ofText descriptor.kind.tag) h

theorem plain_toJson_of_bodyJson {descriptor : Descriptor} (h : descriptor.bodyJson.Plain) :
    descriptor.toJson.Plain := by
  rw [toJson_eq]
  exact plain_ofRecord (by simp [h])

theorem plain_bodyJson (descriptor : Descriptor) : descriptor.bodyJson.Plain := by
  refine plain_bodyJson_of_content ?_
  induction descriptor with
  | action header content => exact content.plain_toRecord
  | multisig header carried ih =>
    have hcarried := plain_toJson_of_bodyJson (plain_bodyJson_of_content ih)
    exact plain_ofRecord (by simp [contentRecord, hcarried])
  | cosigned header content carried ih =>
    have hcarried := plain_toJson_of_bodyJson (plain_bodyJson_of_content ih)
    exact plain_ofRecord (by simp [contentRecord, CosignatureDescriptor.toRecord, hcarried])

/-- Descriptors are read back, however deeply they carry others. -/
theorem restores : Restores toJson ofJson where
  read_write descriptor := by
    rw [ofJson_eq]
    exact ofValue_toJson TransactionKind.ofJson_tag descriptor
  ne_null := toJson_ne_null
  plain descriptor := plain_toJson_of_bodyJson descriptor.plain_bodyJson

theorem tolerates_ofBody (header : HeaderDescriptor) (kind : TransactionKind) :
    Tolerates kind.contentNames kind.usual (ofBody read header kind) := by
  cases kind with
  | transfer => exact TransferDescriptor.tolerates.bind _
  | importanceTransfer => exact ImportanceDescriptor.tolerates.bind _
  | aggregateModification => exact AggregateDescriptor.tolerates.bind _
  | multisigSignature =>
    refine tolerates_record (by decide) fun member hmember record record' h => ?_
    obtain rfl := List.mem_singleton.mp hmember
    simp [CosignatureDescriptor.ofRecord, h.required, h.optional]
  | multisig => exact tolerates_record (List.forall_mem_nil _) (List.forall_mem_nil _)
  | provisionNamespace => exact ProvisionDescriptor.tolerates.bind _
  | mosaicDefinition => exact DefinitionDescriptor.tolerates.bind _
  | mosaicSupplyChange => exact SupplyDescriptor.tolerates.bind _

/-- The tag of a body, and the descriptor that its content gives as that of a kind. -/
def ofTagged (read : Value → Option Descriptor) (header : HeaderDescriptor) (kind : TransactionKind)
    (body : Value) : Option (Value × Descriptor) :=
  (untag body).bind fun tagged =>
    (ofBody read header kind tagged.2).map fun descriptor => (tagged.1, descriptor)

theorem tolerates_ofTagged (header : HeaderDescriptor) (kind : TransactionKind) :
    Tolerates (tagName :: kind.contentNames) kind.usual (ofTagged read header kind) := by
  intro front back name value hmember
  have hname : name ≠ tagName := by
    rintro rfl
    rcases hmember with hname | ⟨husual, -⟩
    · exact hname List.mem_cons_self
    · exact kind.tagName_notMem_contentNames (kind.mem_contentNames_of_usual _ husual)
  have hother : isTag (some name, value) = false := isTag_named hname
  have htags :
      (front ++ (some name, value) :: back).filter isTag = (front ++ back).filter isTag := by
    rw [List.filter_append, List.filter_append, List.filter_cons_of_neg (by simp [hother])]
  by_cases htag : ∃ member, (front ++ back).filter isTag = [member]
  · -- The content is without the tag in both, and differs in the new member only.
    obtain ⟨⟨key, tag⟩, htag⟩ := htag
    rw [ofTagged, ofTagged, untag_object (htags.trans htag), untag_object htag, List.filter_append,
      List.filter_append, List.filter_cons_of_pos (by simp [hother])]
    refine congrArg (Option.map _) (tolerates_ofBody header kind _ _ name value ?_)
    refine hmember.imp (fun hname => ?_) (fun husual => ⟨husual.1, fun hmem => husual.2 ?_⟩)
    · exact fun hmem => hname (List.mem_cons_of_mem _ hmem)
    · rw [← List.filter_append] at hmem
      exact (List.filter_sublist.map Prod.fst).subset hmem
  · have hnone : ∀ member, (front ++ back).filter isTag ≠ [member] :=
      fun member heq => htag ⟨member, heq⟩
    have hnone' : ∀ member, (front ++ (some name, value) :: back).filter isTag ≠ [member] := by
      rw [htags]
      exact hnone
    rw [ofTagged, ofTagged, untag_object_of_ne hnone, untag_object_of_ne hnone']

theorem tolerates_ofValue :
    Tolerates fieldNames HeaderDescriptor.usual (ofValue kinds read) := by
  refine tolerates_record (by decide) fun member hmember record record' h => ?_
  have hversion := Value.uint8?_ofInt HeaderDescriptor.usualVersion
  have hnetwork := Value.uint8?_ofInt HeaderDescriptor.usualNetwork
  have hsigner := Value.text?_ofText HeaderDescriptor.usualSigner
  have hzero : Value.uint32? (.ofInt 0) = some 0 := rfl
  simp only [HeaderDescriptor.usual, List.mem_cons, List.not_mem_nil, or_false] at hmember
  obtain rfl | rfl | rfl | rfl | rfl := hmember <;>
    simp [headerOfRecord, h.required, h.withDefault, hversion, hnetwork, hsigner, hzero]

theorem tolerates_ofCarried : Tolerates fieldNames HeaderDescriptor.usual ofCarried := by
  rw [funext ofCarried_eq]
  exact tolerates_ofValue

theorem tolerates_ofJson : Tolerates fieldNames HeaderDescriptor.usual ofJson := by
  rw [funext ofJson_eq]
  exact tolerates_ofValue

end Descriptor

end NemSigner
