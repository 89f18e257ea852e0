import NemSigner.Bytes.Base32
import NemSigner.Digest.Keccak
import NemSigner.Digest.Ripemd160
import NemSigner.Network

/-!
# Addresses

The address of a public key on a network is base 32 text of twenty-five bytes: the byte of the
network, the RIPEMD-160 digest of the digest of the key, and the first four bytes of the digest of
both as a checksum. The network decides which digest is meant.

## Main definitions

- `Address.raw` — the twenty-five bytes
- `Address.ofPublicKey` — the text
-/

namespace NemSigner

def Algorithm.digest : Algorithm → Bytes → Bytes
  | .keccak => Keccak.keccak256
  | .sha3 => Keccak.sha3

@[simp] theorem Algorithm.length_digest (algorithm : Algorithm) (message : Bytes) :
    (algorithm.digest message).length = 32 := by
  cases algorithm <;> simp [Algorithm.digest, Keccak.keccak256, Keccak.sha3]

namespace Address

/-- The byte of the network and the digest of the key. -/
def payload (network : Network) (publicKey : Bytes) : Bytes :=
  network.byte :: Ripemd160.digest (network.algorithm.digest publicKey)

def raw (network : Network) (publicKey : Bytes) : Bytes :=
  let payload := payload network publicKey
  payload ++ (network.algorithm.digest payload).take 4

def ofPublicKey (network : Network) (publicKey : Bytes) : Bytes :=
  Base32.encode (raw network publicKey)

@[simp] theorem length_raw (network : Network) (publicKey : Bytes) :
    (raw network publicKey).length = 25 := by
  simp [raw, payload]

@[simp] theorem length_ofPublicKey (network : Network) (publicKey : Bytes) :
    (ofPublicKey network publicKey).length = 40 := by
  simp [ofPublicKey]

end Address

end NemSigner
