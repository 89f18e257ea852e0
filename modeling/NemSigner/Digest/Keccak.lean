import NemSigner.Bytes.Integer

/-!
# Keccak digests

The sponge over the permutation Keccak-f[1600] with a rate of 136 bytes and a digest of 32 bytes.
The state has twenty-five lanes of sixty-four bits; the lane in column `x` and row `y` stands at `x
+ 5 * y`. The two digests in use differ only in the byte that starts the padding.

## Main definitions

- `Keccak.permute` — the permutation, twenty-four rounds of five step maps
- `Keccak.keccak256` — the digest with the padding of Keccak
- `Keccak.sha3` — the digest with the padding of the SHA-3 standard
-/

namespace NemSigner

namespace Keccak

/-- Twenty-five lanes of sixty-four bits. -/
abbrev State := Vector UInt64 25

/-- The lane of a column and a row, both counted modulo five. -/
def State.lane (state : State) (x y : Nat) : UInt64 :=
  state[x % 5 + 5 * (y % 5)]

def State.ofLanes (lane : Nat → Nat → UInt64) : State :=
  Vector.ofFn fun index => lane (index.val % 5) (index.val / 5)

/-- Rotation towards the high bits. -/
def rotate (lane : UInt64) (count : Nat) : UInt64 :=
  if count = 0 then lane
  else (lane <<< count.toUInt64) ||| (lane >>> (64 - count).toUInt64)

/-- Every lane takes in the parities of two neighbouring columns. -/
def theta (state : State) : State :=
  let parity : Vector UInt64 5 := Vector.ofFn fun x =>
    state.lane x 0 ^^^ state.lane x 1 ^^^ state.lane x 2 ^^^ state.lane x 3 ^^^ state.lane x 4
  let mixed : Vector UInt64 5 := Vector.ofFn fun x =>
    parity[(x.val + 4) % 5] ^^^ rotate parity[(x.val + 1) % 5] 1
  .ofLanes fun x y => state.lane x y ^^^ mixed[x % 5]

/-- How far each lane is rotated. -/
def offsets : Vector Nat 25 :=
  #v[0, 1, 62, 28, 27,
     36, 44, 6, 55, 20,
     3, 10, 43, 25, 39,
     41, 45, 15, 21, 8,
     18, 2, 61, 56, 14]

/-- Every lane is rotated by its own offset. -/
def rho (state : State) : State :=
  Vector.ofFn fun index => rotate state[index] offsets[index]

def pi (state : State) : State :=
  .ofLanes fun x y => state.lane (x + 3 * y) x

/-- Every row is combined with itself, the only step that is not linear. -/
def chi (state : State) : State :=
  .ofLanes fun x y => state.lane x y ^^^ (~~~ state.lane (x + 1) y &&& state.lane (x + 2) y)

/-- The first lane takes in the constant of the round. -/
def iota (constant : UInt64) (state : State) : State :=
  state.set 0 (state[0] ^^^ constant)

def roundConstants : List UInt64 :=
  [0x0000000000000001, 0x0000000000008082, 0x800000000000808a, 0x8000000080008000,
   0x000000000000808b, 0x0000000080000001, 0x8000000080008081, 0x8000000000008009,
   0x000000000000008a, 0x0000000000000088, 0x0000000080008009, 0x000000008000000a,
   0x000000008000808b, 0x800000000000008b, 0x8000000000008089, 0x8000000000008003,
   0x8000000000008002, 0x8000000000000080, 0x000000000000800a, 0x800000008000000a,
   0x8000000080008081, 0x8000000000008080, 0x0000000080000001, 0x8000000080008008]

/-- Keccak-f[1600]. -/
def permute (state : State) : State :=
  roundConstants.foldl (fun state constant => iota constant (chi (pi (rho (theta state))))) state

/-- The bytes taken in by one call of the permutation. -/
def rate : Nat := 136

/-- The padding after a message: the domain byte, zeros, and the last bit of the block. -/
def padding (domain : UInt8) (length : Nat) : Bytes :=
  match rate - length % rate with
  | 0 | 1 => [domain ||| 0x80]
  | count + 2 => domain :: (List.replicate count 0 ++ [0x80])

/-- The bytes of a block are added to the first lanes, then the state is permuted. -/
def absorb (state : State) (block : Bytes) : State :=
  permute (Vector.ofFn fun index =>
    state[index] ^^^ (Bytes.uintAt 8 (8 * index.val) block).toUInt64)

def absorbBlocks : Nat → Bytes → State → State
  | 0, _, state => state
  | count + 1, data, state => absorbBlocks count (data.drop rate) (absorb state (data.take rate))

/-- The digest of a message under a domain byte: the first four lanes after all blocks. -/
def digest (domain : UInt8) (message : Bytes) : Bytes :=
  let padded := message ++ padding domain message.length
  let state := absorbBlocks (padded.length / rate) padded (Vector.replicate 25 0)
  (state.toList.take 4).flatMap fun lane => Bytes.ofNatLE 8 lane.toNat

/-- The digest with the padding of Keccak. -/
def keccak256 : Bytes → Bytes :=
  digest 0x01

/-- The digest with the padding of the SHA-3 standard. -/
def sha3 : Bytes → Bytes :=
  digest 0x06

@[simp] theorem length_digest (domain : UInt8) (message : Bytes) :
    (digest domain message).length = 32 := by
  simp [digest, List.length_flatMap, List.map_const']

end Keccak

end NemSigner
