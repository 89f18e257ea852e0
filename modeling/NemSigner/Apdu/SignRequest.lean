import NemSigner.DerivationPath.Basic

/-!
# Signing requests

A transaction is sent to the device in chunks, each as the payload of one command. The first chunk
carries the derivation path in front of its data. The parameter of the command says whether a chunk
continues another and whether more follow.

## Main definitions

- `SignFlags` — the two bits of the parameter
- `SignRequest` — one chunk
- `SignRequest.encode`, `SignRequest.decode` — its written form and the reading of it
- `SignRequest.chunks` — the chunks of a whole transaction
-/

namespace NemSigner

/-- The two known bits of the parameter of a signing command. -/
structure SignFlags where
  continuation : Bool
  more : Bool
  deriving DecidableEq, Repr

namespace SignFlags

/-- The bit of a chunk that continues another. -/
def continuationBit : UInt8 := 0x01

/-- The bit of a chunk that others follow. -/
def moreBit : UInt8 := 0x80

/-- The known bits of a parameter; all others are passed over. -/
def ofByte (parameter : UInt8) : SignFlags :=
  { continuation := parameter &&& continuationBit ≠ 0
    more := parameter &&& moreBit ≠ 0 }

def toByte (flags : SignFlags) : UInt8 :=
  (if flags.continuation then continuationBit else 0) ||| (if flags.more then moreBit else 0)

/-- Whether the chunk is the first. -/
def isFirst (flags : SignFlags) : Bool :=
  !flags.continuation

end SignFlags

/-- One chunk of a transaction to be signed. -/
structure SignRequest where
  flags : SignFlags
  path : Option DerivationPath
  data : Bytes
  deriving DecidableEq, Repr

namespace SignRequest

def first (path : DerivationPath) (data : Bytes) (more : Bool) : SignRequest :=
  ⟨⟨false, more⟩, some path, data⟩

def next (data : Bytes) (more : Bool) : SignRequest :=
  ⟨⟨true, more⟩, none, data⟩

/-- The bytes of the path, if there is one, and of the data. -/
def toBytes (request : SignRequest) : Bytes :=
  (match request.path with
    | some path => path.toBytes
    | none => []) ++ request.data

def encodedLength (request : SignRequest) : Nat :=
  request.data.length +
  match request.path with
    | some path => path.encodedLength
    | none => 0

/-- A path is there exactly when the flags call the chunk the first. -/
def isConsistent (request : SignRequest) : Bool :=
  request.path.isSome == request.flags.isFirst

def encode (capacity : Nat) (request : SignRequest) : Except ApduError Bytes :=
  if request.isConsistent then Apdu.place capacity request.toBytes else .error .invalidEncoding

/-- Reads a chunk from the whole of a byte string, and says how many bytes it takes up. -/
def decode (parameter : UInt8) (data : Bytes) : Except ApduError (SignRequest × Nat) :=
  let flags := SignFlags.ofByte parameter
  if flags.isFirst then do
    let (path, count) ← DerivationPath.decode data
    return (⟨flags, some path, data.drop count⟩, data.length)
  else .ok (⟨flags, none, data⟩, data.length)

/-- The number of pieces of a given size that hold a number of bytes. -/
def pieceCount (size length : Nat) : Nat :=
  (length + (size - 1)) / size

/-- The next `count` chunks of the data; the last of them is followed by no more. -/
def continuations : Nat → Bytes → List SignRequest
  | 0, _ => []
  | count + 1, data =>
    next (data.take Limits.maxPayloadLength) (!(data.drop Limits.maxPayloadLength).isEmpty) ::
      continuations count (data.drop Limits.maxPayloadLength)

/-- The chunks of a transaction: the first has room for what the path leaves free, the others are
full except the last. -/
def chunks (path : DerivationPath) (transaction : Bytes) : List SignRequest :=
  let capacity := Limits.maxPayloadLength - path.encodedLength
  let rest := transaction.drop capacity
  first path (transaction.take capacity) (!rest.isEmpty) ::
    continuations (pieceCount Limits.maxPayloadLength rest.length) rest

end SignRequest

end NemSigner
