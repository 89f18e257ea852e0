import NemSigner.TestVector.Accounts
import NemSigner.TestVector.Mosaics
import NemSigner.TestVector.Multisig
import NemSigner.TestVector.Transfers

/-!
# The catalogue of test vectors

## Main definitions

- `TestVector.catalogue` — all test vectors, in order
- `TestVector.find` — the test vector with a name
-/

namespace NemSigner

namespace TestVector

def catalogue : List TestVector :=
  [transfer, transferHexMessage, transferEncryptedMessage, transferEmptyMessage,
    transferMosaics, transferMosaics2, transferNoMosaics, importanceTransfer,
    aggregateModification, aggregateModificationV2, aggregateModificationV2NoChange,
    provisionSubnamespace, mosaicDefinition, mosaicDefinitionLevy, mosaicSupplyChange,
    mosaicSupplyDelete, multisigTransfer, multisigProvisionRoot, multisigMosaicDefinition,
    multisigMosaicDefinitionLevy, cosignature, cosignatureTransfer, cosignatureProvision]

def find (name : String) : Except TestVectorError TestVector :=
  match catalogue.find? fun vector => vector.name == name with
  | some vector => .ok vector
  | none => .error (.unknown name)

end TestVector

end NemSigner
