import NemSigner.Proofs.Descriptor.Json
import NemSigner.TestVector.Basic

/-!
# Test vectors survive their JSON form

A test vector is read back from its value, and so is every text that stands for this value and is
not nested too deeply. What is read from any other value is settled by being written once: unknown
members are gone by then and what was left out is there.

## Main statements

- `TestVector.restores` — test vectors are read back
- `TestVector.ofText_of_parse` — the texts of a written value
- `TestVector.json_settles` — values of test vectors are settled by one writing
-/

namespace NemSigner

open Json (Value Record Restores Tolerates restores_text restores_record tolerates_record)
open Json.Value (depthOfMembers depthOfItems_le_iff plain_array record?_ofRecord)

namespace Descriptor

/-- A descriptor takes one level more than its body. -/
theorem depth_toJson (descriptor : Descriptor) :
    descriptor.toJson.depth = descriptor.bodyJson.depth + 1 := by
  have hfields : (recordJson descriptor.header descriptor.bodyJson).depth =
      1 + descriptor.bodyJson.depth := by
    rw [recordJson, Value.ofRecord_eq, Value.depth]
    simp [depthOfMembers]
  rw [toJson_eq, hfields, Nat.add_comm]

theorem hasSoundBody_toJson (outside : Nat) (descriptor : Descriptor) :
    hasSoundBody outside descriptor.toJson = true ↔
      descriptor.bodyJson.depth ≤ maxDepth - outside - 1 := by
  rw [toJson_eq, hasSoundBody, recordJson, record?_ofRecord]
  · exact descriptor.plain_bodyJson _
  · rfl
  · decide

end Descriptor

namespace TestVector

theorem restores_field : Restores fieldToJson fieldOfJson where
  read_write _ := rfl
  ne_null _ := nofun
  plain field := plain_array (by simp)

theorem restores : Restores toJson ofJson := by
  refine restores_record (by decide) (fun _ => rfl) (fun vector => ?_) fun vector => ?_
  · refine restores_text.required rfl ?_
    refine restores_text.withDefault rfl ?_
    refine restores_text.required rfl ?_
    refine Descriptor.restores.required rfl ?_
    exact restores_field.list.required rfl rfl
  · have htransaction := Descriptor.restores.plain vector.transaction
    have hfields := restores_field.list.plain vector.fields
    simp [htransaction, hfields]

/-- The field that can be left out. -/
def usual : Record := [("description", .ofText "")]

theorem tolerates : Tolerates fieldNames usual ofJson :=
  tolerates_record (by decide) fun member hmember record record' h => by
    have hdescription : Value.text? (.ofText "") = some "" := rfl
    obtain rfl := List.mem_singleton.mp hmember
    simp [h.required, h.withDefault, hdescription]

/-- The value that is written of what a value gives. -/
def settled? (value : Value) : Option Value :=
  (ofJson value).map toJson

theorem ofJson_settled {value settled : Value} (h : settled? value = some settled) :
    ofJson settled = ofJson value := by
  obtain ⟨vector, hvector, rfl⟩ := Option.map_eq_some_iff.mp h
  rw [restores.read_write, hvector]

/-- Only the transaction of a test vector is nested deeply. -/
theorem depth_toJson_le_iff {limit : Nat} (vector : TestVector) (h : 3 ≤ limit) :
    vector.toJson.depth ≤ limit ↔ vector.transaction.bodyJson.depth + 2 ≤ limit := by
  have hfields : (Value.ofList fieldToJson vector.fields).depth ≤ 2 := by
    have hitems : Value.depthOfItems (vector.fields.map fieldToJson) ≤ 1 :=
      depthOfItems_le_iff.mpr (List.forall_mem_map.mpr fun field _ => Nat.le_refl 1)
    rw [Value.ofList, Value.depth]
    omega
  have hdepth : vector.toJson.depth =
      1 + max vector.transaction.toJson.depth (Value.ofList fieldToJson vector.fields).depth := by
    rw [toJson, Value.ofRecord_eq, Value.depth]
    simp [depthOfMembers]
  rw [hdepth, Descriptor.depth_toJson]
  omega

theorem hasSoundBody_toJson (vector : TestVector) :
    hasSoundBody vector.toJson = true ↔ vector.toJson.depth ≤ Descriptor.maxDepth := by
  have hbody :
      hasSoundBody vector.toJson = Descriptor.hasSoundBody 1 vector.transaction.toJson := by
    rw [hasSoundBody, toJson, record?_ofRecord]
    · rfl
    · rfl
    · decide
  rw [hbody, Descriptor.hasSoundBody_toJson, depth_toJson_le_iff vector (by decide),
    Descriptor.maxDepth]
  omega

/-- A text of a written value gives the test vector back, up to the depth that texts may have. -/
theorem ofText_of_parse {text : String} {vector : TestVector}
    (h : Json.parse text = some vector.toJson) :
    ofText text =
      if vector.toJson.depth ≤ Descriptor.maxDepth then .ok vector else .error .json := by
  rw [ofText, h, Option.bind_some, restores.read_write]
  by_cases hdepth : vector.toJson.depth ≤ Descriptor.maxDepth
  · rw [if_pos ((hasSoundBody_toJson vector).mpr hdepth), if_pos hdepth]
  · rw [if_neg (mt (hasSoundBody_toJson vector).mp hdepth), if_neg hdepth]

/-- Test vectors survive their JSON form, whatever they contain. Every value that can be read is
settled by being written once, with all of its fields, those of the bodies included; until then it
may have members without a name in a record, and be without those that are usual. A text of a
settled value gives the test vector unless it is nested too deeply. -/
theorem json_settles :
    (∀ vector : TestVector, ofJson vector.toJson = some vector ∧
      (ofJson vector.toJson).map encode = some vector.encode ∧
      (ofJson vector.toJson).map elements = some vector.elements) ∧
    (∀ value settled : Value, settled? value = some settled →
      ofJson settled = ofJson value ∧ settled? settled = some settled ∧
      ∃ record : Record, settled = .ofRecord record ∧ record.map Prod.fst = fieldNames) ∧
    (∀ descriptor : Descriptor, ∃ content : Record,
      descriptor.toJson = Descriptor.recordJson descriptor.header
        (Descriptor.taggedJson descriptor.kind content) ∧
      content.map Prod.fst = descriptor.kind.contentNames) ∧
    (Tolerates fieldNames usual ofJson ∧
      Tolerates Descriptor.fieldNames HeaderDescriptor.usual Descriptor.ofJson ∧
      Tolerates Descriptor.fieldNames HeaderDescriptor.usual Descriptor.ofCarried ∧
      (∀ header kind, Tolerates (Descriptor.tagName :: kind.contentNames) kind.usual
        (Descriptor.ofTagged Descriptor.ofCarried header kind)) ∧
      Tolerates MessageDescriptor.fieldNames MessageDescriptor.usual MessageDescriptor.ofJson ∧
      Tolerates MosaicDescriptor.fieldNames [] MosaicDescriptor.ofJson ∧
      Tolerates ModificationDescriptor.fieldNames [] ModificationDescriptor.ofJson ∧
      Tolerates PropertyDescriptor.fieldNames [] PropertyDescriptor.ofJson ∧
      Tolerates LevyDescriptor.fieldNames [] LevyDescriptor.ofJson) ∧
    ∀ (text : String) (vector : TestVector), Json.parse text = some vector.toJson →
      ofText text =
        if vector.toJson.depth ≤ Descriptor.maxDepth then .ok vector else .error .json := by
  refine ⟨fun vector => ?_, fun value settled h => ⟨ofJson_settled h, ?_, ?_⟩,
    fun descriptor => ⟨_, descriptor.toJson_eq, descriptor.map_fst_contentRecord⟩, ⟨tolerates,
    Descriptor.tolerates_ofJson, Descriptor.tolerates_ofCarried, Descriptor.tolerates_ofTagged,
    MessageDescriptor.tolerates, MosaicDescriptor.tolerates, ModificationDescriptor.tolerates,
    PropertyDescriptor.tolerates, LevyDescriptor.tolerates⟩, fun text vector => ofText_of_parse⟩
  · rw [restores.read_write]
    exact ⟨rfl, rfl, rfl⟩
  · rw [settled?, ofJson_settled h]
    exact h
  · obtain ⟨vector, -, rfl⟩ := Option.map_eq_some_iff.mp h
    exact ⟨_, rfl, rfl⟩

/-- A value of a multisig transaction that leaves out what it can and has a member without a name in
the record. The transaction carried is an array, and tagged by number. -/
def sparse : Value :=
  .object [
    (some "name", .ofText "sparse"),
    (some "comment", .array [.null]),
    (some "path", .ofText "m/44'"),
    (some "tx", .object [
      (some "fee", .ofInt 6),
      (some "body", .object [
        (some "inner", .object [
          (some "body", .array [.ofInt 0, .ofText "TA", .ofInt 5]),
          (some "fee", .ofInt 7)]),
        (some "type", .ofText "multisig")])]),
    (some "fields", .array [.array [.ofText "Fee", .ofText "0.000006 XEM"]])]

/-- The test vector of the value that leaves out what it can. -/
def carrying : TestVector where
  name := "sparse"
  description := ""
  path := "m/44'"
  transaction := .multisig (.ofFee 6) (.action (.ofFee 7) (.transfer ⟨"TA", 5, none, []⟩))
  fields := [("Fee", "0.000006 XEM")]

/-- A test vector with a short text. -/
def brief : TestVector where
  name := ""
  description := ""
  path := "m"
  transaction := .action ⟨1, 152, 0, "", 7, 0⟩ (.importanceTransfer ⟨1, ""⟩)
  fields := []

/-- The text of the short test vector. -/
def briefText : String :=
  "\x7b\"name\":\"\",\"description\":\"\",\"path\":\"m\"," ++
  "\"tx\":\x7b\"version\":1,\"network\":152,\"timestamp\":0,\"signer\":\"\",\"fee\":7," ++
  "\"deadline\":0,\"body\":\x7b\"type\":\"importance_transfer\",\"mode\":1," ++
  "\"remote\":\"\"\x7d\x7d,\"fields\":[]\x7d"

theorem json_settles_sparse :
    settled? sparse = some carrying.toJson ∧ ofJson carrying.toJson = some carrying ∧
      ofJson carrying.toJson = ofJson sparse ∧ settled? carrying.toJson = some carrying.toJson ∧
      Json.parse briefText = some brief.toJson ∧ ofText briefText = .ok brief := by
  have hsettled : settled? sparse = some carrying.toJson := rfl
  have htext : Json.parse briefText = some brief.toJson := by cbv
  obtain ⟨hrestored, hvalues, -, -, htexts⟩ := json_settles
  refine ⟨hsettled, (hrestored carrying).1, (hvalues _ _ hsettled).1, (hvalues _ _ hsettled).2.1,
    htext, ?_⟩
  rw [htexts briefText brief htext, if_pos (by decide)]

end TestVector

end NemSigner
