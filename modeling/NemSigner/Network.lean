import NemSigner.Coded

/-!
# Networks

A network is known by one byte, which is also the first byte of every address on it. It fixes the
digest used for addresses and signatures.

## Main definitions

- `Network` — the four networks
- `Algorithm`, `Network.algorithm` — the digest of a network
- `Network.ofPathElement?` — the network that a hardened path element names
-/

namespace NemSigner

/-- The digests in use. -/
inductive Algorithm
  /-- Keccak-256, with the padding of Keccak. -/
  | keccak
  /-- SHA3-256. -/
  | sha3
  deriving DecidableEq, Repr

/-- The four networks. -/
inductive Network
  | mainnet
  | testnet
  | mijinMainnet
  | mijinTestnet
  deriving DecidableEq, Repr

instance : Coded Algorithm where
  all := [.keccak, .sha3]
  name
    | .keccak => "Keccak"
    | .sha3 => "Sha3"
  code
    | .keccak => 0
    | .sha3 => 1

namespace Network

def byte : Network → UInt8
  | .mainnet => 0x68
  | .testnet => 0x98
  | .mijinMainnet => 0x60
  | .mijinTestnet => 0x90

instance : Coded Network where
  all := [.mainnet, .testnet, .mijinMainnet, .mijinTestnet]
  name
    | .mainnet => "Mainnet"
    | .testnet => "Testnet"
    | .mijinMainnet => "MijinMainnet"
    | .mijinTestnet => "MijinTestnet"
  code network := network.byte.toNat

def algorithm : Network → Algorithm
  | .mainnet | .testnet => .keccak
  | .mijinMainnet | .mijinTestnet => .sha3

/-- The bit that hardens a path element. -/
def hardened : Nat := 0x80000000

/-- The network that a path element names: the element is hardened and its other bits are the byte
of a network. -/
def ofPathElement? (element : UInt32) : Option Network :=
  if element.toNat < hardened then none else Coded.ofCode? (element.toNat - hardened)

end Network

end NemSigner
