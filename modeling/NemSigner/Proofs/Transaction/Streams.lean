import NemSigner.Proofs.Decoder.Streams
import NemSigner.Transaction.Decode

/-!
# Which contents can be cut anywhere

Almost every decoder of a content takes its bytes one part after the other and never asks what comes
later. Two do ask: a mosaic definition, whether all of it is there, and a cosignature, whether
anything follows.

## Main statements

- `Action.decodeCarried_streams`, `Content.decode_streams` — the contents that do not ask
- `MosaicDefinition.decodeBehind_streams`, `Cosignature.decode_streams` — and the parts of the
  others
-/

namespace NemSigner

open Decoder (Streams emit_streams)
open Cursor (readBytes_streams readUInt_streams readLength_streams readPrefixed_streams
  readSized_streams exactly_streams)

theorem Header.read_streams : Cursor.Streams Header.read := by
  refine (readUInt_streams 4).bind fun typeNumber => ?_
  refine (readUInt_streams 1).bind fun version => ?_
  refine (readUInt_streams 2).bind fun reserved => ?_
  refine (readUInt_streams 1).bind fun network => ?_
  refine (readUInt_streams 4).bind fun timestamp => ?_
  refine readLength_streams.bind fun keyLength => ?_
  refine (readBytes_streams _).bind fun signer => ?_
  refine (readUInt_streams 8).bind fun fee => ?_
  refine (readUInt_streams 4).bind fun deadline => ?_
  dsimp only
  split
  · exact .throw_bind
  · split
    · exact .throw_bind
    · exact .pure _

theorem Header.emitFee_streams (header : Header) : Streams header.emitFee :=
  emit_streams _ _ _

theorem Message.decode_streams (length : Nat) : Streams (Message.decode length) := by
  rw [Message.decode]
  split
  · exact emit_streams _ _ _
  · refine .read (readBytes_streams length) fun message => ?_
    refine .read (exactly_streams _ _) fun parts => ?_
    dsimp only
    split
    · exact emit_streams _ _ _
    · exact emit_streams _ _ _

theorem AttachedMosaic.decode_streams : Streams AttachedMosaic.decode := by
  refine .read readPrefixed_streams fun mosaic => ?_
  refine .read (exactly_streams _ _) fun parts => ?_
  refine .read (exactly_streams _ _) fun names => ?_
  dsimp only
  split
  · exact emit_streams _ _ _
  · exact .emit (.emit (emit_streams _ _ _))

theorem Transfer.decodeMosaics_streams (bound : Nat → Nat) (amount : Bytes) :
    Streams (Transfer.decodeMosaics bound amount) := by
  refine .read (readBytes_streams 4) fun count => ?_
  dsimp only
  split
  · exact emit_streams _ _ _
  · exact .emit (AttachedMosaic.decode_streams.times _)

theorem Transfer.decode_streams (bound : Nat → Nat) (header : Header) :
    Streams (Transfer.decode bound header) := by
  refine .read (readSized_streams _) fun recipient => ?_
  refine .read (readBytes_streams 8) fun amount => ?_
  refine .read readLength_streams fun length => .emit ?_
  have hrest : Streams (do
      Message.decode length
      header.emitFee
      if header.version = 2 then Transfer.decodeMosaics bound amount) := by
    refine (Message.decode_streams length).bind fun _ => header.emitFee_streams.bind fun _ => ?_
    split
    · exact Transfer.decodeMosaics_streams bound amount
    · exact .pure ()
  dsimp only
  split
  · exact .emit hrest
  · exact hrest

theorem ImportanceTransfer.decode_streams (header : Header) :
    Streams (ImportanceTransfer.decode header) := by
  refine .read (readBytes_streams 4) fun mode => ?_
  refine .read (readSized_streams _) fun remote => ?_
  exact .emit (.emit header.emitFee_streams)

theorem Modification.decode_streams : Streams Modification.decode := by
  refine .read readPrefixed_streams fun modification => ?_
  refine .read (exactly_streams _ _) fun parts => ?_
  exact .emit (emit_streams _ _ _)

theorem RelativeChange.decode_streams : Streams RelativeChange.decode := by
  refine .read (readBytes_streams 4) fun length => ?_
  dsimp only
  split
  · exact emit_streams _ _ _
  · refine .read (readBytes_streams _) fun change => ?_
    exact .read (exactly_streams _ _) fun amount => emit_streams _ _ _

theorem AggregateModification.decode_streams (bound : Nat → Nat) (header : Header) :
    Streams (AggregateModification.decode bound header) := by
  refine .read (readBytes_streams 4) fun count => .emit ?_
  refine (Modification.decode_streams.times _).bind fun _ => ?_
  dsimp only
  split
  · exact RelativeChange.decode_streams.bind fun _ => header.emitFee_streams
  · exact header.emitFee_streams

theorem Cosignature.decode_streams : Streams Cosignature.decode := by
  refine .read readPrefixed_streams fun container => ?_
  refine .read (exactly_streams _ _) fun hash => ?_
  refine .read (readSized_streams _) fun account => ?_
  exact .emit (emit_streams _ _ _)

theorem NamespaceProvision.decode_streams (header : Header) :
    Streams (NamespaceProvision.decode header) := by
  refine .read (readSized_streams _) fun sink => ?_
  refine .read (readBytes_streams 8) fun rentalFee => ?_
  refine .read readPrefixed_streams fun name => .emit ?_
  refine .read (readBytes_streams 4) fun length => ?_
  dsimp only
  split
  · exact .emit (.emit (.emit header.emitFee_streams))
  · refine .read (readBytes_streams _) fun parent => ?_
    exact .emit (.emit (.emit header.emitFee_streams))

theorem SupplyChange.decode_streams (header : Header) : Streams (SupplyChange.decode header) := by
  refine .read readPrefixed_streams fun id => ?_
  refine .read (exactly_streams _ _) fun names => ?_
  refine .read (readUInt_streams 4) fun type => ?_
  refine .read (readBytes_streams 8) fun delta => ?_
  refine .emit (.emit ?_)
  dsimp only
  split
  · exact .emit header.emitFee_streams
  · split
    · exact .emit header.emitFee_streams
    · exact .throw_bind

theorem ActionTransaction.decodeWrapped_streams (bound : Nat → Nat) (header : Header)
    (typeId : FieldId) : Streams (ActionTransaction.decodeWrapped bound header typeId) := by
  refine .read readPrefixed_streams fun carried => .emit ?_
  dsimp only
  split
  · exact .throw_bind
  · exact Decoder.within_streams _ _

namespace MosaicDefinition

/-- What is read behind the length, once it is known that the definition is all there. -/
def decodeBehind (bound : Nat → Nat) (header : Header) (length : Nat) : Decoder Unit := do
  let proper ← Cursor.readBytes length
  Decoder.within proper (decodeProper bound length)
  let sink ← Cursor.readSized Limits.addressLength
  let rentalFee ← Cursor.readBytes 8
  Decoder.emit .sinkAddress .address sink
  Decoder.emit .rentalFee .xem rentalFee
  header.emitFee

theorem decodeBehind_streams (bound : Nat → Nat) (header : Header) (length : Nat) :
    Streams (decodeBehind bound header length) := by
  refine .read (readBytes_streams length) fun proper => ?_
  refine (Decoder.within_streams _ _).bind fun _ => ?_
  refine .read (readSized_streams _) fun sink => ?_
  refine .read (readBytes_streams 8) fun rentalFee => ?_
  exact .emit (.emit header.emitFee_streams)

end MosaicDefinition

theorem Action.decodeCarried_streams {bound : Nat → Nat} {header : Header}
    (hdefinition : header.kind ≠ .ok .mosaicDefinition) :
    Streams (Action.decodeCarried bound header) := by
  rw [Action.decodeCarried]
  cases hkind : header.kind with
  | error error => exact .throw_bind
  | ok kind =>
    rw [hkind] at hdefinition
    cases kind with
    | transfer => exact Transfer.decode_streams bound header
    | importanceTransfer => exact ImportanceTransfer.decode_streams header
    | aggregateModification => exact AggregateModification.decode_streams bound header
    | multisigSignature => exact Cosignature.decode_streams.bind fun _ => header.emitFee_streams
    | multisig => exact .of_throw
    | provisionNamespace => exact NamespaceProvision.decode_streams header
    | mosaicDefinition => exact absurd rfl hdefinition
    | mosaicSupplyChange => exact SupplyChange.decode_streams header

namespace Content

/-- All contents but two stop for want of bytes wherever they are cut. -/
theorem decode_streams {bound : Nat → Nat} {header : Header} {kind : TransactionKind}
    (hkind : header.kind = .ok kind) (hsignature : kind ≠ .multisigSignature)
    (hdefinition : kind ≠ .mosaicDefinition) :
    Streams (decode bound header) := by
  have hcarried : Streams (Action.decodeCarried bound header) := by
    refine Action.decodeCarried_streams fun h => hdefinition ?_
    rw [hkind] at h
    exact Except.ok.inj h
  rw [decode, hkind]
  cases kind with
  | multisig => exact ActionTransaction.decodeWrapped_streams bound header _
  | multisigSignature => exact absurd rfl hsignature
  | _ => exact hcarried

end Content

end NemSigner
