import NemSigner.Transaction.Header

/-!
# Importance transfers

An importance transfer lends the importance of an account to a remote one, or takes it back.
-/

namespace NemSigner

/-- The content of an importance transfer. -/
structure ImportanceTransfer where
  mode : UInt32
  remote : Bytes
  deriving DecidableEq, Repr

namespace ImportanceTransfer

def encode (transfer : ImportanceTransfer) : Bytes :=
  Bytes.ofNatLE 4 transfer.mode.toNat ++ Bytes.prefixed transfer.remote

def fields (fee : Field) (transfer : ImportanceTransfer) : List Field :=
  [⟨.importanceMode, .uint32, Bytes.ofNatLE 4 transfer.mode.toNat⟩,
   ⟨.remoteKey, .hash256, transfer.remote⟩,
   fee]

/-- The remote account is given by a public key. -/
def WellFormed (transfer : ImportanceTransfer) : Prop :=
  transfer.remote.length = Limits.publicKeyLength

def decode (header : Header) : Decoder Unit := do
  let mode ← Cursor.readBytes 4
  let remote ← Cursor.readSized Limits.publicKeyLength
  Decoder.emit .importanceMode .uint32 mode
  Decoder.emit .remoteKey .hash256 remote
  header.emitFee

end ImportanceTransfer

end NemSigner
