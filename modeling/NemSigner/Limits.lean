/-!
# Fixed sizes

The sizes that the device, the wire format and the host agree on.
-/

namespace NemSigner

namespace Limits

/-- The version of the signer: major, minor and patch number. -/
def version : Nat × Nat × Nat := (0, 1, 0)

/-- The longest transaction that is put together from chunks. -/
def maxTransactionLength : Nat := 1024

/-- The number of fields a table can hold. -/
def maxFieldCount : Nat := 32

/-- The bytes of a value on the screen. -/
def valueLength : Nat := 512

/-- The bytes of a label on the screen. -/
def labelLength : Nat := 32

/-- The elements of the longest derivation path. -/
def maxPathDepth : Nat := 5

/-- The characters of an address. -/
def addressLength : Nat := 40

/-- The bytes an address stands for: network, digest and checksum. -/
def rawAddressLength : Nat := 25

/-- The bytes of a public key. -/
def publicKeyLength : Nat := 32

/-- The bytes of a transaction hash. -/
def hashLength : Nat := 32

/-- The bytes of a signature. -/
def signatureLength : Nat := 64

/-- The bytes of the header every transaction starts with: type, version, reserved, network,
timestamp, signer with its length, fee and deadline. -/
def headerLength : Nat := 4 + 1 + 2 + 1 + 4 + (4 + publicKeyLength) + 8 + 4

/-- The decimal places of an amount of XEM. -/
def xemDivisibility : Nat := 6

/-- The bytes one command to the device can carry. -/
def maxPayloadLength : Nat := 255

end Limits

end NemSigner
