import NemSigner.Bytes.Integer

/-!
# RIPEMD-160

A digest of twenty bytes. Each block of sixty-four bytes is mixed into five words along two lines of
eighty steps, and the two lines are added crosswise to the words before.

## Main definitions

- `Ripemd160.compress` — one block
- `Ripemd160.digest` — a whole message
-/

namespace NemSigner

namespace Ripemd160

/-- The five words of the chaining value. -/
structure Words where
  a : UInt32
  b : UInt32
  c : UInt32
  d : UInt32
  e : UInt32
  deriving DecidableEq, Repr

/-- Sixteen steps that share a word function and a constant; each step names the word of the block
that it takes in and the rotation after it. -/
structure Round where
  mix : UInt32 → UInt32 → UInt32 → UInt32
  constant : UInt32
  words : List Nat
  rotations : List Nat

/-- Rotation towards the high bits, by less than the width. -/
def rotate (word : UInt32) (count : Nat) : UInt32 :=
  (word <<< count.toUInt32) ||| (word >>> (32 - count).toUInt32)

/-- The word function of the first round of the left line. -/
def mixParity (x y z : UInt32) : UInt32 := x ^^^ y ^^^ z

/-- Bit by bit, the first word chooses between the other two. -/
def mixChoice (x y z : UInt32) : UInt32 := (x &&& y) ||| (~~~ x &&& z)

/-- The word function of the middle rounds. -/
def mixOrNot (x y z : UInt32) : UInt32 := (x ||| ~~~ y) ^^^ z

/-- Bit by bit, the last word chooses between the other two. -/
def mixLastChoice (x y z : UInt32) : UInt32 := (x &&& z) ||| (y &&& ~~~ z)

/-- The word function of the last round of the left line. -/
def mixOrNotLast (x y z : UInt32) : UInt32 := x ^^^ (y ||| ~~~ z)

def leftLine : List Round :=
  [⟨mixParity, 0x00000000,
    [0, 1, 2, 3, 4, 5, 6, 7, 8, 9, 10, 11, 12, 13, 14, 15],
    [11, 14, 15, 12, 5, 8, 7, 9, 11, 13, 14, 15, 6, 7, 9, 8]⟩,
   ⟨mixChoice, 0x5a827999,
    [7, 4, 13, 1, 10, 6, 15, 3, 12, 0, 9, 5, 2, 14, 11, 8],
    [7, 6, 8, 13, 11, 9, 7, 15, 7, 12, 15, 9, 11, 7, 13, 12]⟩,
   ⟨mixOrNot, 0x6ed9eba1,
    [3, 10, 14, 4, 9, 15, 8, 1, 2, 7, 0, 6, 13, 11, 5, 12],
    [11, 13, 6, 7, 14, 9, 13, 15, 14, 8, 13, 6, 5, 12, 7, 5]⟩,
   ⟨mixLastChoice, 0x8f1bbcdc,
    [1, 9, 11, 10, 0, 8, 12, 4, 13, 3, 7, 15, 14, 5, 6, 2],
    [11, 12, 14, 15, 14, 15, 9, 8, 9, 14, 5, 6, 8, 6, 5, 12]⟩,
   ⟨mixOrNotLast, 0xa953fd4e,
    [4, 0, 5, 9, 7, 12, 2, 10, 14, 1, 3, 8, 11, 6, 15, 13],
    [9, 15, 5, 11, 6, 8, 13, 12, 5, 12, 13, 14, 11, 8, 5, 6]⟩]

def rightLine : List Round :=
  [⟨mixOrNotLast, 0x50a28be6,
    [5, 14, 7, 0, 9, 2, 11, 4, 13, 6, 15, 8, 1, 10, 3, 12],
    [8, 9, 9, 11, 13, 15, 15, 5, 7, 7, 8, 11, 14, 14, 12, 6]⟩,
   ⟨mixLastChoice, 0x5c4dd124,
    [6, 11, 3, 7, 0, 13, 5, 10, 14, 15, 8, 12, 4, 9, 1, 2],
    [9, 13, 15, 7, 12, 8, 9, 11, 7, 7, 12, 7, 6, 15, 13, 11]⟩,
   ⟨mixOrNot, 0x6d703ef3,
    [15, 5, 1, 3, 7, 14, 6, 9, 11, 8, 12, 2, 10, 0, 4, 13],
    [9, 7, 15, 11, 8, 6, 6, 14, 12, 13, 5, 14, 13, 13, 7, 5]⟩,
   ⟨mixChoice, 0x7a6d76e9,
    [8, 6, 4, 1, 3, 11, 15, 0, 5, 12, 2, 13, 9, 7, 10, 14],
    [15, 5, 8, 11, 14, 14, 6, 14, 6, 9, 12, 9, 12, 5, 15, 8]⟩,
   ⟨mixParity, 0x00000000,
    [12, 15, 10, 4, 1, 5, 8, 7, 6, 2, 13, 14, 0, 3, 9, 11],
    [8, 5, 12, 9, 12, 5, 14, 6, 8, 13, 6, 5, 15, 13, 11, 11]⟩]

/-- One step: the first word is replaced and the words move on by one place. -/
def step (mix : UInt32 → UInt32 → UInt32 → UInt32) (addend : UInt32) (rotation : Nat)
    (w : Words) : Words :=
  { a := w.e
    b := rotate (w.a + mix w.b w.c w.d + addend) rotation + w.e
    c := w.b
    d := rotate w.c 10
    e := w.d }

/-- The sixteen steps of a round over the words of a block. -/
def Round.run (round : Round) (block : Bytes) (w : Words) : Words :=
  (round.words.zip round.rotations).foldl (fun w (index, rotation) =>
    step round.mix ((Bytes.uintAt 4 (4 * index) block).toUInt32 + round.constant) rotation w) w

/-- Mixes one block into the chaining value. -/
def compress (chain : Words) (block : Bytes) : Words :=
  let left := leftLine.foldl (fun w round => round.run block w) chain
  let right := rightLine.foldl (fun w round => round.run block w) chain
  { a := chain.b + left.c + right.d
    b := chain.c + left.d + right.e
    c := chain.d + left.e + right.a
    d := chain.e + left.a + right.b
    e := chain.a + left.b + right.c }

def initial : Words :=
  ⟨0x67452301, 0xefcdab89, 0x98badcfe, 0x10325476, 0xc3d2e1f0⟩

/-- The padding after a message: one bit, zeros, and the length of the message in bits. -/
def padding (length : Nat) : Bytes :=
  0x80 :: (List.replicate ((119 - length % 64) % 64) 0 ++ Bytes.ofNatLE 8 (8 * length))

def absorbBlocks : Nat → Bytes → Words → Words
  | 0, _, w => w
  | count + 1, data, w => absorbBlocks count (data.drop 64) (compress w (data.take 64))

def digest (message : Bytes) : Bytes :=
  let padded := message ++ padding message.length
  let w := absorbBlocks (padded.length / 64) padded initial
  [w.a, w.b, w.c, w.d, w.e].flatMap fun word => Bytes.ofNatLE 4 word.toNat

@[simp] theorem length_digest (message : Bytes) : (digest message).length = 20 := by
  simp [digest]

end Ripemd160

end NemSigner
