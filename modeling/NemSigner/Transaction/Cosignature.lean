import NemSigner.Transaction.Header

/-!
# Cosignatures

A cosignature agrees to a transaction of a multisig account, which it names by its hash.
-/

namespace NemSigner

/-- The content of a cosignature. -/
structure Cosignature where
  hash : Bytes
  account : Bytes
  deriving DecidableEq, Repr

namespace Cosignature

def encode (cosignature : Cosignature) : Bytes :=
  Bytes.prefixed (Bytes.prefixed cosignature.hash) ++ Bytes.prefixed cosignature.account

/-- The review fields of a cosignature, without a fee. -/
def fields (cosignature : Cosignature) : List Field :=
  [⟨.transactionHash, .hash256, cosignature.hash⟩,
   ⟨.multisigAddress, .address, cosignature.account⟩]

def WellFormed (cosignature : Cosignature) : Prop :=
  cosignature.hash.length = Limits.hashLength ∧
  cosignature.account.length = Limits.addressLength

def decode : Decoder Unit := do
  let container ← Cursor.readPrefixed
  let hash ← Cursor.exactly container (Cursor.readSized Limits.hashLength)
  let account ← Cursor.readSized Limits.addressLength
  Decoder.emit .transactionHash .hash256 hash
  Decoder.emit .multisigAddress .address account

end Cosignature

end NemSigner
