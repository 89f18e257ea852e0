/-!
# Decoding errors

A transaction is refused for one of three causes. The host never learns which: a session answers all
of them with the same status word.
-/

namespace NemSigner

/-- Why transaction data cannot be decoded or shown. -/
inductive DecodeError
  /-- A read, or a declared length, reaches past the data; or a text does not fit its buffer. -/
  | notEnoughData
  /-- The data is all there and contradicts itself. -/
  | invalidData
  /-- More fields than a table can hold. -/
  | tooManyFields
  deriving DecidableEq, Repr

def DecodeError.message : DecodeError → String
  | .notEnoughData => "not enough data"
  | .invalidData => "invalid data"
  | .tooManyFields => "too many fields"

end NemSigner
