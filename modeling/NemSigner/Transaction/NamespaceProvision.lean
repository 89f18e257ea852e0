import NemSigner.Transaction.Header

/-!
# Namespace provisions

A namespace is rented, either as a new root or below a parent, and the rental fee goes to a sink
address.
-/

namespace NemSigner

/-- The content of a namespace provision; a root namespace has no parent. -/
structure NamespaceProvision where
  sink : Bytes
  rentalFee : UInt64
  name : Bytes
  parent : Option Bytes
  deriving DecidableEq, Repr

namespace NamespaceProvision

/-- The length that is declared in place of a parent's. -/
def rootMark : Nat := 0xffffffff

def encode (provision : NamespaceProvision) : Bytes :=
  Bytes.prefixed provision.sink ++ Bytes.ofNatLE 8 provision.rentalFee.toNat ++
  Bytes.prefixed provision.name ++
  match provision.parent with
    | none => Bytes.ofNatLE 4 rootMark
    | some parent => Bytes.prefixed parent

def fields (fee : Field) (provision : NamespaceProvision) : List Field :=
  [⟨.namespaceName, .text, provision.name⟩,
   match provision.parent with
    | none => ⟨.rootNamespace, .text, Bytes.ofNatLE 4 rootMark⟩
    | some parent => ⟨.parentNamespace, .text, parent⟩,
   ⟨.sinkAddress, .address, provision.sink⟩,
   ⟨.rentalFee, .xem, Bytes.ofNatLE 8 provision.rentalFee.toNat⟩,
   fee]

/-- The sizes are those of the wire format, and no parent is as long as the mark of a root. -/
def WellFormed (provision : NamespaceProvision) : Prop :=
  provision.sink.length = Limits.addressLength ∧
  provision.name.length < UInt32.size ∧
  ∀ parent ∈ provision.parent, parent.length < rootMark

def decode (header : Header) : Decoder Unit := do
  let sink ← Cursor.readSized Limits.addressLength
  let rentalFee ← Cursor.readBytes 8
  let name ← Cursor.readPrefixed
  Decoder.emit .namespaceName .text name
  let lengthBytes ← Cursor.readBytes 4
  let length := Bytes.toNatLE lengthBytes
  -- The mark stands where the length of a parent would, and it is shown itself.
  if length = rootMark then Decoder.emit .rootNamespace .text lengthBytes
  else
    let parent ← Cursor.readBytes length
    Decoder.emit .parentNamespace .text parent
  Decoder.emit .sinkAddress .address sink
  Decoder.emit .rentalFee .xem rentalFee
  header.emitFee

end NamespaceProvision

end NemSigner
