import NemSigner.TestVector.Basic

/-!
# Test vectors of transfers

Transfers of both versions, with and without messages and mosaics.
-/

namespace NemSigner

namespace TestVector

def transfer : TestVector where
  name := "transfer"
  description := "Plain message transfer"
  path := usualPath
  transaction := .action { HeaderDescriptor.ofFee 100000 with
      timestamp := 94670000, deadline := 94673600 }
    (.transfer {
      recipient := "TBE56Z7MLQZ4S755JZL46VRYM7OD37SLPGFZPO5O"
      amount := 5000000
      message := some ⟨1, some "ttest", none⟩
      mosaics := [] })
  fields := [
    ("Transaction Type", "Transfer TX"),
    ("Recipient", "TBE56Z7MLQZ4S755JZL46VRYM7OD37SLPGFZPO5O"),
    ("Amount", "5 XEM"),
    ("Message", "ttest"),
    ("Fee", "0.1 XEM")]

def transferHexMessage : TestVector where
  name := "transfer_hex_message"
  description := "Transfer with a hex message payload"
  path := usualPath
  transaction := .action { HeaderDescriptor.ofFee 100000 with
      timestamp := 94670000, deadline := 94673600 }
    (.transfer {
      recipient := "TB7IB6DSJKWBVQEK7PD7TWO66ECW5LY6SISM2CJJ"
      amount := 10000000
      message := some ⟨1, none, some "fe0123456789abcdef"⟩
      mosaics := [] })
  fields := [
    ("Transaction Type", "Transfer TX"),
    ("Recipient", "TB7IB6DSJKWBVQEK7PD7TWO66ECW5LY6SISM2CJJ"),
    ("Amount", "10 XEM"),
    ("Message", "0123456789abcdef"),
    ("Fee", "0.1 XEM")]

def transferEncryptedMessage : TestVector where
  name := "transfer_encrypted_message"
  description := "Transfer with an encrypted message"
  path := usualPath
  transaction := .action { HeaderDescriptor.ofFee 200000 with
      timestamp := 94670000, deadline := 94673600 }
    (.transfer {
      recipient := "TB7IB6DSJKWBVQEK7PD7TWO66ECW5LY6SISM2CJJ"
      amount := 0
      message := some ⟨2, none, some "a1b2c3d4e5f60718293a4b5c6d7e8f90"⟩
      mosaics := [] })
  fields := [
    ("Transaction Type", "Transfer TX"),
    ("Recipient", "TB7IB6DSJKWBVQEK7PD7TWO66ECW5LY6SISM2CJJ"),
    ("Amount", "0 XEM"),
    ("Message", "<encrypted msg>"),
    ("Fee", "0.2 XEM")]

def transferEmptyMessage : TestVector where
  name := "transfer_empty_message"
  description := "Transfer without a message"
  path := usualPath
  transaction := .action { HeaderDescriptor.ofFee 100000 with
      timestamp := 94670000, deadline := 94673600 }
    (.transfer {
      recipient := "TB7IB6DSJKWBVQEK7PD7TWO66ECW5LY6SISM2CJJ"
      amount := 1500000
      message := none
      mosaics := [] })
  fields := [
    ("Transaction Type", "Transfer TX"),
    ("Recipient", "TB7IB6DSJKWBVQEK7PD7TWO66ECW5LY6SISM2CJJ"),
    ("Amount", "1.5 XEM"),
    ("Message", "<empty msg>"),
    ("Fee", "0.1 XEM")]

def transferMosaics : TestVector where
  name := "transfer_mosaics"
  description := "Version 2 transfer with XEM and a custom mosaic"
  path := usualPath
  transaction := .action { HeaderDescriptor.ofFee 150000 with
      version := 2, timestamp := 94670000, deadline := 94673600 }
    (.transfer {
      recipient := "TB7IB6DSJKWBVQEK7PD7TWO66ECW5LY6SISM2CJJ"
      amount := 1000000
      message := some ⟨1, some "Test message", none⟩
      mosaics := [
        ⟨"nem", "xem", 1000000⟩,
        ⟨"testnet", "token", 1⟩] })
  fields := [
    ("Transaction Type", "Transfer TX"),
    ("Recipient", "TB7IB6DSJKWBVQEK7PD7TWO66ECW5LY6SISM2CJJ"),
    ("Message", "Test message"),
    ("Fee", "0.15 XEM"),
    ("Mosaics", "Found 2"),
    ("Amount", "1 XEM"),
    ("Unknown Mosaic", "Divisibility and levy cannot be shown"),
    ("Namespace", "testnet: token"),
    ("Micro Units", "1")]

def transferMosaics2 : TestVector where
  name := "transfer_mosaics_2"
  description := "Version 2 transfer with a namespaced custom mosaic"
  path := usualPath
  transaction := .action { HeaderDescriptor.ofFee 150000 with
      version := 2, timestamp := 94670000, deadline := 94673600 }
    (.transfer {
      recipient := "TA545ICAVNEUDFUBIHO3CEJBSVIZ7YYHFFX5LQPT"
      amount := 1000000
      message := some ⟨1, some "Mosaics transaction", none⟩
      mosaics := [
        ⟨"nem", "xem", 10000000⟩,
        ⟨"xarleecm.zodiac", "gemini", 10⟩] })
  fields := [
    ("Transaction Type", "Transfer TX"),
    ("Recipient", "TA545ICAVNEUDFUBIHO3CEJBSVIZ7YYHFFX5LQPT"),
    ("Message", "Mosaics transaction"),
    ("Fee", "0.15 XEM"),
    ("Mosaics", "Found 2"),
    ("Amount", "10 XEM"),
    ("Unknown Mosaic", "Divisibility and levy cannot be shown"),
    ("Namespace", "xarleecm.zodiac: gemini"),
    ("Micro Units", "10")]

def transferNoMosaics : TestVector where
  name := "transfer_no_mosaics"
  description := "Version 2 transfer without mosaics"
  path := usualPath
  transaction := .action { HeaderDescriptor.ofFee 150000 with
      version := 2, timestamp := 94670000, deadline := 94673600 }
    (.transfer {
      recipient := "TB7IB6DSJKWBVQEK7PD7TWO66ECW5LY6SISM2CJJ"
      amount := 2000000
      message := some ⟨1, some "hi", none⟩
      mosaics := [] })
  fields := [
    ("Transaction Type", "Transfer TX"),
    ("Recipient", "TB7IB6DSJKWBVQEK7PD7TWO66ECW5LY6SISM2CJJ"),
    ("Message", "hi"),
    ("Fee", "0.15 XEM"),
    ("Amount", "2 XEM")]

end TestVector

end NemSigner
