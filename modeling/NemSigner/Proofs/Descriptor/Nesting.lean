import NemSigner.Descriptor.Json
import NemSigner.Proofs.Json.Record

/-!
# Descriptors are read to any depth

The reader of descriptors counts down how deeply it may go, and starts from the depth of the value.
It never comes to the end of that: a carried descriptor is nested less deeply than the value that it
is found in. So the reader is the same as one without any limit.

## Main definitions

- `Descriptor.ofCarried` — the reader of carried descriptors

## Main statements

- `Descriptor.ofCarried_eq`, `Descriptor.ofJson_eq` — carried descriptors are read by that reader
  again
-/

namespace NemSigner

open Json (Value Record)

namespace Json.Record

variable {α : Type} {record : Record} {name : String} {read read' : Value → Option α}

/-- Two readings of a field are the same when they agree on the values of the record. -/
theorem required_congr (h : ∀ member ∈ record, read member.2 = read' member.2) :
    record.required name read = record.required name read' :=
  Option.bind_congr fun _ hvalue => h _ (mem_of_find? hvalue)

theorem optional_congr (h : ∀ member ∈ record, read member.2 = read' member.2) :
    record.optional name read = record.optional name read' := by
  rw [optional, optional, withDefault, withDefault]
  cases hfind : record.find? name with
  | none => rfl
  | some value =>
    have hvalue := h _ (mem_of_find? hfind)
    cases value with
    | null => rfl
    | _ => exact congrArg (Option.map some) hvalue

end Json.Record

namespace Descriptor

variable {value : Value} {kinds : Value → Option TransactionKind}
variable {read read' : Value → Option Descriptor}

/-- The carried descriptor that a value gives. -/
def ofCarried (value : Value) : Option Descriptor :=
  ofCarriedJson value.depth value

theorem depth_le_of_untag {body tag content : Value} (h : untag body = some (tag, content)) :
    content.depth ≤ body.depth := by
  cases body with
  | object members =>
    rw [untag] at h
    split at h
    · next rest hpartition =>
      cases h
      have hrest : rest = members.filter (not ∘ fun member => member.1 == some tagName) := by
        rw [List.partition_eq_filter_filter] at hpartition
        exact (Prod.mk.inj hpartition).2.symm
      rw [Value.depth, Value.depth, Nat.add_le_add_iff_left, Value.depthOfMembers_le_iff, hrest]
      intro member hmember
      exact Value.depthOfMembers_le_iff.mp (Nat.le_refl _) member (List.mem_of_mem_filter hmember)
    · cases h
  | array items =>
    cases items with
    | nil => cases h
    | cons tag items =>
      cases h
      rw [Value.depth, Value.depth, Value.depthOfItems]
      exact Nat.add_le_add_left (Nat.le_max_right _ _) 1
  | null | boolean | number | string => cases h

/-- Only what is nested less deeply than a body is read as a carried descriptor of it. -/
theorem ofBody_congr {header : HeaderDescriptor} {kind : TransactionKind} {body : Value}
    (h : ∀ carried : Value, carried.depth < body.depth → read carried = read' carried) :
    ofBody read header kind body = ofBody read' header kind body := by
  have hrecord {names : List String} {record : Record}
      (hrecord : body.record? names = some record) :
      ∀ member ∈ record, read member.2 = read' member.2 :=
    fun member hmember => h member.2 (Value.depth_lt_of_record? hrecord member hmember)
  cases kind with
  | multisigSignature =>
    refine Option.bind_congr fun record hmembers => ?_
    rw [Record.optional_congr (hrecord hmembers)]
  | multisig =>
    refine Option.bind_congr fun record hmembers => ?_
    rw [Record.required_congr (hrecord hmembers)]
  | _ => rfl

theorem ofValue_congr
    (h : ∀ carried : Value, carried.depth < value.depth → read carried = read' carried) :
    ofValue kinds read value = ofValue kinds read' value := by
  refine Option.bind_congr fun record hrecord => ?_
  refine Option.bind_congr fun header _ => ?_
  refine Option.bind_congr fun body hbody => ?_
  refine Option.bind_congr fun kind _ => ?_
  -- The body is a field of the value, and its content is nested no more deeply.
  obtain ⟨tagged, htagged, huntag⟩ := Option.bind_eq_some_iff.mp hbody
  have hfield := Value.depth_lt_of_record? hrecord _ (Record.mem_of_find? htagged)
  have hcontent := depth_le_of_untag huntag
  refine ofBody_congr fun carried hcarried => h carried ?_
  exact Nat.lt_trans hcarried (Nat.lt_of_le_of_lt hcontent hfield)

/-- What is neither an array nor an object is no descriptor. -/
theorem ofValue_of_depth (h : value.depth = 0) : ofValue kinds read value = none := by
  cases value with
  | array items =>
    rw [Value.depth] at h
    omega
  | object members =>
    rw [Value.depth] at h
    omega
  | null | boolean | number | string => rfl

/-- From the depth of a value on, the limit does not matter. -/
theorem ofCarriedJson_congr {depth depth' : Nat} (h : value.depth ≤ depth)
    (h' : value.depth ≤ depth') : ofCarriedJson depth value = ofCarriedJson depth' value := by
  induction depth generalizing depth' value with
  | zero =>
    have hzero : value.depth = 0 := Nat.le_zero.mp h
    cases depth' with
    | zero => rfl
    | succ depth' => exact (ofValue_of_depth hzero).symm
  | succ depth ih =>
    cases depth' with
    | zero => exact ofValue_of_depth (Nat.le_zero.mp h')
    | succ depth' =>
      refine ofValue_congr fun carried hcarried => ih ?_ ?_
      · exact Nat.le_of_lt_succ (Nat.lt_of_lt_of_le hcarried h)
      · exact Nat.le_of_lt_succ (Nat.lt_of_lt_of_le hcarried h')

theorem ofCarried_eq (value : Value) :
    ofCarried value = ofValue TransactionKind.ofJsonOrNumber ofCarried value := by
  have hlimit : ofCarried value = ofCarriedJson (value.depth + 1) value :=
    ofCarriedJson_congr (Nat.le_refl _) (Nat.le_succ _)
  rw [hlimit]
  exact ofValue_congr fun carried hcarried =>
    ofCarriedJson_congr (Nat.le_of_lt hcarried) (Nat.le_refl _)

theorem ofJson_eq (value : Value) : ofJson value = ofValue TransactionKind.ofJson ofCarried value :=
  ofValue_congr fun _ hcarried => ofCarriedJson_congr (Nat.le_of_lt hcarried) (Nat.le_refl _)

end Descriptor

end NemSigner
