import NemSigner.Proofs.Bytes.Base32
import NemSigner.Proofs.Checked.Address

/-!
# Addresses are checked and bound to their network

The text of an address holds twenty-five bytes: that of the network, the digest of the key, and the
beginning of the digest of both. The first five bits of the text are bits of the network's byte, so
no address is valid on two networks.

## Main definitions

- `Address.hash` — the digest that a network uses
- `Address.initial` — the letter that the addresses on a network begin with

## Main statements

- `Address.take_one_ofPublicKey` — an address begins with the letter of its network
- `Address.ofPublicKey_checked` — what the text of an address holds
-/

namespace NemSigner

namespace Address

open Positional (bits)

/-- The digest that a network uses. -/
def hash : Network → Bytes → Bytes
  | .mainnet | .testnet => Keccak.keccak256
  | .mijinMainnet | .mijinTestnet => Keccak.sha3

/-- The letter that the addresses on a network begin with. -/
def initial : Network → String
  | .mainnet => "N"
  | .testnet => "T"
  | .mijinMainnet => "M"
  | .mijinTestnet => "S"

theorem digest_algorithm (network : Network) : network.algorithm.digest = hash network := by
  cases network <;> rfl

theorem length_hash (network : Network) (message : Bytes) : (hash network message).length = 32 := by
  rw [← digest_algorithm]
  exact Algorithm.length_digest network.algorithm message

theorem initial_inj {network network' : Network}
    (h : Bytes.ofText (initial network) = Bytes.ofText (initial network')) :
    network = network' := by
  revert h
  cases network <;> cases network' <;> decide +kernel

theorem raw_blocks (network : Network) (key : Bytes) : (raw network key).length % 5 = 0 := by
  rw [length_raw]

/-- The symbols of an address hold the bits of its bytes, five to a symbol. -/
theorem flatMap_bits_ofPublicKey (network : Network) (key : Bytes) :
    ((ofPublicKey network key).flatMap fun symbol => bits 5 (Base32.alphabet.idxOf symbol)) =
      (raw network key).flatMap fun byte => bits 8 byte.toNat :=
  Base32.flatMap_bits_encode (raw_blocks network key)

theorem mem_alphabet_ofPublicKey (network : Network) (key : Bytes) :
    ∀ symbol ∈ ofPublicKey network key, symbol ∈ Base32.alphabet :=
  (Base32.encode_spells (raw_blocks network key)).mem_alphabet

/-- The only symbol that has the first five bits of a network's byte is the letter of the
network. -/
theorem eq_initial (network : Network) : ∀ symbol ∈ Base32.alphabet,
    bits 5 (Base32.alphabet.idxOf symbol) = (bits 8 network.byte.toNat).take 5 →
      [symbol] = Bytes.ofText (initial network) := by
  cases network <;> decide +kernel

/-- An address begins with the letter of its network. -/
theorem take_one_ofPublicKey (network : Network) (key : Bytes) :
    (ofPublicKey network key).take 1 = Bytes.ofText (initial network) := by
  have hbits := flatMap_bits_ofPublicKey network key
  have hmem := mem_alphabet_ofPublicKey network key
  have hlength := length_ofPublicKey network key
  generalize ofPublicKey network key = text at hbits hmem hlength
  cases text with
  | nil => cases hlength
  | cons symbol rest =>
    apply eq_initial network symbol (hmem symbol List.mem_cons_self)
    have hfront := congrArg (List.take 5) hbits
    rw [raw, payload, List.cons_append, List.flatMap_cons, List.flatMap_cons,
      List.take_left' (Positional.length_bits _ _),
      List.take_append_of_le_length (by rw [Positional.length_bits]; decide)] at hfront
    exact hfront

/-- An address is forty symbols of base 32, and they hold twenty-five bytes: the byte of the
network, the digest of the key in the place behind it, and the first bytes of the digest of both.
Its first letter is that of the network, and on another network no key has the same address. -/
theorem ofPublicKey_checked (network : Network) (key : Bytes) :
    (∃ body checksum : Bytes,
      body = network.byte :: Ripemd160.digest (hash network key) ∧
      checksum = (hash network body).take 4 ∧ body.length = 21 ∧ checksum.length = 4 ∧
      Pen.fillRaw network key (List.replicate 25 0) = .ok ((), body ++ checksum) ∧
      Base32.decode (ofPublicKey network key) = some (body ++ checksum) ∧
      ((ofPublicKey network key).flatMap fun symbol => bits 5 (Base32.alphabet.idxOf symbol)) =
        (body ++ checksum).flatMap fun byte => bits 8 byte.toNat) ∧
    (ofPublicKey network key).length = 40 ∧
    (∀ symbol ∈ ofPublicKey network key, symbol ∈ Base32.alphabet) ∧
    (ofPublicKey network key).take 1 = Bytes.ofText (initial network) ∧
    ∀ network' key', network' ≠ network → ofPublicKey network' key' ≠ ofPublicKey network key := by
  have hraw : raw network key = payload network key ++
      (hash network (payload network key)).take 4 := by
    rw [raw, digest_algorithm]
  refine ⟨⟨payload network key, (hash network (payload network key)).take 4, ?_, rfl, ?_, ?_, ?_,
    ?_, ?_⟩, length_ofPublicKey network key, mem_alphabet_ofPublicKey network key,
    take_one_ofPublicKey network key, ?_⟩
  · rw [payload, digest_algorithm]
  · rw [payload, List.length_cons, Ripemd160.length_digest]
  · rw [List.length_take, length_hash]
    rfl
  · rw [← hraw]
    exact Pen.fillRaw_eq network key
  · rw [← hraw]
    exact Base32.decode_encode (raw_blocks network key)
  · rw [← hraw]
    exact flatMap_bits_ofPublicKey network key
  · intro network' key' hother h
    apply hother
    apply initial_inj
    rw [← take_one_ofPublicKey network' key', h, take_one_ofPublicKey]

/-- No key has on one of the test networks the address that a key of zeros has on the other. -/
theorem ofPublicKey_checked_zeros :
    let key : Bytes := List.replicate 32 0x00
    (ofPublicKey .mijinTestnet key).take 1 = Bytes.ofText "S" ∧
      ∀ other, ofPublicKey .testnet other ≠ ofPublicKey .mijinTestnet key := by
  intro key
  obtain ⟨-, -, -, hinitial, hbound⟩ := ofPublicKey_checked .mijinTestnet key
  exact ⟨hinitial, fun other => hbound .testnet other (by decide)⟩

end Address

end NemSigner
