import NemSigner.TestVector.Basic

/-!
# Test vectors of mosaics

Definitions of mosaics and changes in their supply.
-/

namespace NemSigner

namespace TestVector

def mosaicDefinition : TestVector where
  name := "mosaic_definition"
  description := "Define a mosaic"
  path := usualPath
  transaction := .action (HeaderDescriptor.ofFee 150000)
    (.mosaicDefinition {
      creator := "c5f54ba980fcbb657dbaaa42700539b207873e134d2375efeab5f1ab52f87844"
      space := "test_nem"
      name := "mosaic_name"
      description := "mosaic description"
      properties := [
        ⟨"divisibility", "2"⟩,
        ⟨"initialSupply", "12"⟩,
        ⟨"supplyMutable", "true"⟩,
        ⟨"transferable", "true"⟩]
      levy := none
      sink := "TBMOSAICOD4F54EE5CDMR23CCBGOAM2XSJBR5OLC"
      rentalFee := 10000000 })
  fields := [
    ("Transaction Type", "Mosaic Definition TX"),
    ("Parent Name", "test_nem"),
    ("Mosaic Name", "mosaic_name"),
    ("Description", "mosaic description"),
    ("divisibility", "2"),
    ("initialSupply", "12"),
    ("supplyMutable", "true"),
    ("transferable", "true"),
    ("Sink Address", "TBMOSAICOD4F54EE5CDMR23CCBGOAM2XSJBR5OLC"),
    ("Rental Fee", "10 XEM"),
    ("Fee", "0.15 XEM")]

def mosaicDefinitionLevy : TestVector where
  name := "mosaic_definition_levy"
  description := "Define a mosaic with an absolute levy"
  path := usualPath
  transaction := .action (HeaderDescriptor.ofFee 150000)
    (.mosaicDefinition {
      creator := "c5f54ba980fcbb657dbaaa42700539b207873e134d2375efeab5f1ab52f87844"
      space := "test_nem"
      name := "mosaic_name"
      description := "mosaic description"
      properties := [
        ⟨"divisibility", "2"⟩,
        ⟨"initialSupply", "12"⟩,
        ⟨"supplyMutable", "true"⟩,
        ⟨"transferable", "true"⟩]
      levy := some {
        type := 1
        recipient := "TB7IB6DSJKWBVQEK7PD7TWO66ECW5LY6SISM2CJJ"
        space := "nem"
        name := "xem"
        fee := 5 }
      sink := "TBMOSAICOD4F54EE5CDMR23CCBGOAM2XSJBR5OLC"
      rentalFee := 10000000 })
  fields := [
    ("Transaction Type", "Mosaic Definition TX"),
    ("Parent Name", "test_nem"),
    ("Mosaic Name", "mosaic_name"),
    ("Description", "mosaic description"),
    ("divisibility", "2"),
    ("initialSupply", "12"),
    ("supplyMutable", "true"),
    ("transferable", "true"),
    ("Levy Mosaic", "nem: xem"),
    ("Levy Address", "TB7IB6DSJKWBVQEK7PD7TWO66ECW5LY6SISM2CJJ"),
    ("Levy Fee Type", "Absolute"),
    ("Levy Fee", "0.000005 micro"),
    ("Sink Address", "TBMOSAICOD4F54EE5CDMR23CCBGOAM2XSJBR5OLC"),
    ("Rental Fee", "10 XEM"),
    ("Fee", "0.15 XEM")]

def mosaicSupplyChange : TestVector where
  name := "mosaic_supply_change"
  description := "Increase mosaic supply"
  path := usualPath
  transaction := .action (HeaderDescriptor.ofFee 150000)
    (.supplyChange {
      space := "test_nem"
      name := "mosaic_name"
      type := 1
      delta := 1000 })
  fields := [
    ("Transaction Type", "Mosaic Supply Change"),
    ("Namespace", "test_nem"),
    ("Mosaic Name", "mosaic_name"),
    ("Create Supply", "1000"),
    ("Fee", "0.15 XEM")]

def mosaicSupplyDelete : TestVector where
  name := "mosaic_supply_delete"
  description := "Decrease mosaic supply"
  path := usualPath
  transaction := .action (HeaderDescriptor.ofFee 150000)
    (.supplyChange {
      space := "test_nem"
      name := "mosaic_name"
      type := 2
      delta := 12 })
  fields := [
    ("Transaction Type", "Mosaic Supply Change"),
    ("Namespace", "test_nem"),
    ("Mosaic Name", "mosaic_name"),
    ("Delete Supply", "12"),
    ("Fee", "0.15 XEM")]

end TestVector

end NemSigner
