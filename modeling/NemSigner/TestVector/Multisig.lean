import NemSigner.TestVector.Basic

/-!
# Test vectors of multisig accounts

Multisig transactions and cosignatures, with and without the transaction agreed to.
-/

namespace NemSigner

namespace TestVector

def multisigTransfer : TestVector where
  name := "multisig_transfer"
  description := "Transfer from a multisig account"
  path := usualPath
  transaction := .multisig (HeaderDescriptor.ofFee 150000)
    (.action { HeaderDescriptor.ofFee 200000 with
      timestamp := 94670000, deadline := 94673600 }
      (.transfer {
        recipient := "TB7IB6DSJKWBVQEK7PD7TWO66ECW5LY6SISM2CJJ"
        amount := 10000000
        message :=
          some ⟨1, some "Send a transfer transaction from a multisig account using Ledger", none⟩
        mosaics := [] }))
  fields := [
    ("Transaction Type", "Multisig TX"),
    ("Multisig Fee", "0.15 XEM"),
    ("Inner TX Type", "Transfer TX"),
    ("Recipient", "TB7IB6DSJKWBVQEK7PD7TWO66ECW5LY6SISM2CJJ"),
    ("Amount", "10 XEM"),
    ("Message", "Send a transfer transaction from a multisig account using Ledger"),
    ("Fee", "0.2 XEM")]

def multisigProvisionRoot : TestVector where
  name := "multisig_provision_root"
  description := "Provision a root namespace from a multisig account"
  path := usualPath
  transaction := .multisig (HeaderDescriptor.ofFee 150000)
    (.action (HeaderDescriptor.ofFee 150000)
      (.namespaceProvision {
        sink := "TAMESPACEWH4MKFMBCVFERDPOOP4FK7MTDJEYP35"
        rentalFee := 100000000
        name := "test_namespace"
        parent := none }))
  fields := [
    ("Transaction Type", "Multisig TX"),
    ("Multisig Fee", "0.15 XEM"),
    ("Inner TX Type", "Provision Namespace TX"),
    ("Namespace", "test_namespace"),
    ("Create new root", "namespace"),
    ("Sink Address", "TAMESPACEWH4MKFMBCVFERDPOOP4FK7MTDJEYP35"),
    ("Rental Fee", "100 XEM"),
    ("Fee", "0.15 XEM")]

def multisigMosaicDefinition : TestVector where
  name := "multisig_mosaic_definition"
  description := "Define a mosaic from a multisig account"
  path := usualPath
  transaction := .multisig (HeaderDescriptor.ofFee 150000)
    (.action (HeaderDescriptor.ofFee 150000)
      (.mosaicDefinition {
        creator := "c5f54ba980fcbb657dbaaa42700539b207873e134d2375efeab5f1ab52f87844"
        space := "test_nem"
        name := "mosaic_name"
        description := "mosaic description"
        properties := [
          ⟨"divisibility", "2"⟩,
          ⟨"initialSupply", "12"⟩,
          ⟨"supplyMutable", "true"⟩,
          ⟨"transferable", "true"⟩]
        levy := none
        sink := "TBMOSAICOD4F54EE5CDMR23CCBGOAM2XSJBR5OLC"
        rentalFee := 10000000 }))
  fields := [
    ("Transaction Type", "Multisig TX"),
    ("Multisig Fee", "0.15 XEM"),
    ("Inner TX Type", "Mosaic Definition TX"),
    ("Parent Name", "test_nem"),
    ("Mosaic Name", "mosaic_name"),
    ("Description", "mosaic description"),
    ("divisibility", "2"),
    ("initialSupply", "12"),
    ("supplyMutable", "true"),
    ("transferable", "true"),
    ("Sink Address", "TBMOSAICOD4F54EE5CDMR23CCBGOAM2XSJBR5OLC"),
    ("Rental Fee", "10 XEM"),
    ("Fee", "0.15 XEM")]

def multisigMosaicDefinitionLevy : TestVector where
  name := "multisig_mosaic_definition_levy"
  description := "Define a mosaic with a levy from a multisig account"
  path := usualPath
  transaction := .multisig (HeaderDescriptor.ofFee 150000)
    (.action (HeaderDescriptor.ofFee 150000)
      (.mosaicDefinition {
        creator := "c5f54ba980fcbb657dbaaa42700539b207873e134d2375efeab5f1ab52f87844"
        space := "test_nem"
        name := "mosaic_create_from_ledger"
        description := "This mosaic is created by a ledger wallet from a multisig account"
        properties := [
          ⟨"divisibility", "3"⟩,
          ⟨"initialSupply", "1000"⟩,
          ⟨"supplyMutable", "true"⟩,
          ⟨"transferable", "true"⟩]
        levy := some {
          type := 1
          recipient := "TB7IB6DSJKWBVQEK7PD7TWO66ECW5LY6SISM2CJJ"
          space := "nem"
          name := "xem"
          fee := 5 }
        sink := "TBMOSAICOD4F54EE5CDMR23CCBGOAM2XSJBR5OLC"
        rentalFee := 10000000 }))
  fields := [
    ("Transaction Type", "Multisig TX"),
    ("Multisig Fee", "0.15 XEM"),
    ("Inner TX Type", "Mosaic Definition TX"),
    ("Parent Name", "test_nem"),
    ("Mosaic Name", "mosaic_create_from_ledger"),
    ("Description", "This mosaic is created by a ledger wallet from a multisig account"),
    ("divisibility", "3"),
    ("initialSupply", "1000"),
    ("supplyMutable", "true"),
    ("transferable", "true"),
    ("Levy Mosaic", "nem: xem"),
    ("Levy Address", "TB7IB6DSJKWBVQEK7PD7TWO66ECW5LY6SISM2CJJ"),
    ("Levy Fee Type", "Absolute"),
    ("Levy Fee", "0.000005 micro"),
    ("Sink Address", "TBMOSAICOD4F54EE5CDMR23CCBGOAM2XSJBR5OLC"),
    ("Rental Fee", "10 XEM"),
    ("Fee", "0.15 XEM")]

def cosignature : TestVector where
  name := "cosignature"
  description := "Cosign a multisig transaction"
  path := usualPath
  transaction := .action (HeaderDescriptor.ofFee 150000)
    (.cosignature {
      hash := "9298e6a7255f269d88ba5d096341b3c56c3e65a511b72a947097c0cfab95d4b1"
      account := "TA6DD3TAAW7DIOFJKWHNJJZQLTSRWAQ67YKWYQBG" })
  fields := [
    ("Transaction Type", "Multi Sig. TX"),
    ("SHA3 Tx Hash", "9298E6A7255F269D88BA5D096341B3C56C3E65A511B72A947097C0CFAB95D4B1"),
    ("Multisig Address", "TA6DD3TAAW7DIOFJKWHNJJZQLTSRWAQ67YKWYQBG"),
    ("Fee", "0.15 XEM")]

def cosignatureTransfer : TestVector where
  name := "cosignature_transfer"
  description := "Cosign a multisig transfer, including the transfer for review"
  path := usualPath
  transaction := .cosigned (HeaderDescriptor.ofFee 150000)
    { hash := "9298e6a7255f269d88ba5d096341b3c56c3e65a511b72a947097c0cfab95d4b1"
      account := "TA6DD3TAAW7DIOFJKWHNJJZQLTSRWAQ67YKWYQBG" }
    (.action { HeaderDescriptor.ofFee 100000 with
      timestamp := 94670000, deadline := 94673600 }
      (.transfer {
        recipient := "TB7IB6DSJKWBVQEK7PD7TWO66ECW5LY6SISM2CJJ"
        amount := 400000
        message := some ⟨1, some "test message", none⟩
        mosaics := [] }))
  fields := [
    ("Transaction Type", "Multi Sig. TX"),
    ("SHA3 Tx Hash", "9298E6A7255F269D88BA5D096341B3C56C3E65A511B72A947097C0CFAB95D4B1"),
    ("Multisig Address", "TA6DD3TAAW7DIOFJKWHNJJZQLTSRWAQ67YKWYQBG"),
    ("Multisig Fee", "0.15 XEM"),
    ("Detail TX Type", "Transfer TX"),
    ("Recipient", "TB7IB6DSJKWBVQEK7PD7TWO66ECW5LY6SISM2CJJ"),
    ("Amount", "0.4 XEM"),
    ("Message", "test message"),
    ("Fee", "0.1 XEM")]

def cosignatureProvision : TestVector where
  name := "cosignature_provision"
  description := "Cosign a multisig namespace provision"
  path := usualPath
  transaction := .cosigned (HeaderDescriptor.ofFee 150000)
    { hash := "39d64c1602fa48d49c59a464ef109235472134ea854d1b70284ea32aec6dd17a"
      account := "TA6DD3TAAW7DIOFJKWHNJJZQLTSRWAQ67YKWYQBG" }
    (.action (HeaderDescriptor.ofFee 150000)
      (.namespaceProvision {
        sink := "TAMESPACEWH4MKFMBCVFERDPOOP4FK7MTDJEYP35"
        rentalFee := 100000000
        name := "ledger_ns"
        parent := none }))
  fields := [
    ("Transaction Type", "Multi Sig. TX"),
    ("SHA3 Tx Hash", "39D64C1602FA48D49C59A464EF109235472134EA854D1B70284EA32AEC6DD17A"),
    ("Multisig Address", "TA6DD3TAAW7DIOFJKWHNJJZQLTSRWAQ67YKWYQBG"),
    ("Multisig Fee", "0.15 XEM"),
    ("Detail TX Type", "Provision Namespace TX"),
    ("Namespace", "ledger_ns"),
    ("Create new root", "namespace"),
    ("Sink Address", "TAMESPACEWH4MKFMBCVFERDPOOP4FK7MTDJEYP35"),
    ("Rental Fee", "100 XEM"),
    ("Fee", "0.15 XEM")]

end TestVector

end NemSigner
