import NemSigner.TestVector.Basic

/-!
# Test vectors of accounts and namespaces

Importance transfers, aggregate modifications and namespace provisions.
-/

namespace NemSigner

namespace TestVector

def importanceTransfer : TestVector where
  name := "importance_transfer"
  description := "Activate delegated harvesting"
  path := usualPath
  transaction := .action (HeaderDescriptor.ofFee 150000)
    (.importanceTransfer {
      mode := 1
      remote := "c5f54ba980fcbb657dbaaa42700539b207873e134d2375efeab5f1ab52f87844" })
  fields := [
    ("Transaction Type", "Importance Transfer TX"),
    ("Importance Mode", "Activate"),
    ("Rmt. Public Key", "C5F54BA980FCBB657DBAAA42700539B207873E134D2375EFEAB5F1AB52F87844"),
    ("Fee", "0.15 XEM")]

def aggregateModification : TestVector where
  name := "aggregate_modification"
  description := "Add a cosignatory"
  path := usualPath
  transaction := .action (HeaderDescriptor.ofFee 500000)
    (.aggregateModification {
      modifications := [
        ⟨1, "1fbdbdde28daf828245e4533765726f0b7790e0b7146e2ce205df3e86366980b"⟩]
      change := none })
  fields := [
    ("Transaction Type", "Modify Multisig Aggregate TX"),
    ("Cosignatory Num", "1"),
    ("Mod. Type", "Add cosignatory"),
    ("Cosignatory PbK", "1FBDBDDE28DAF828245E4533765726F0B7790E0B7146E2CE205DF3E86366980B"),
    ("Fee", "0.5 XEM")]

def aggregateModificationV2 : TestVector where
  name := "aggregate_modification_v2"
  description := "Add and remove cosignatories, changing the minimum"
  path := usualPath
  transaction := .action { HeaderDescriptor.ofFee 500000 with
      version := 2 }
    (.aggregateModification {
      modifications := [
        ⟨1, "1fbdbdde28daf828245e4533765726f0b7790e0b7146e2ce205df3e86366980b"⟩,
        ⟨2, "c5f54ba980fcbb657dbaaa42700539b207873e134d2375efeab5f1ab52f87844"⟩]
      change := some (-1) })
  fields := [
    ("Transaction Type", "Modify Multisig Aggregate TX"),
    ("Cosignatory Num", "2"),
    ("Mod. Type", "Add cosignatory"),
    ("Cosignatory PbK", "1FBDBDDE28DAF828245E4533765726F0B7790E0B7146E2CE205DF3E86366980B"),
    ("Mod. Type", "Delete cosign."),
    ("Cosignatory PbK", "C5F54BA980FCBB657DBAAA42700539B207873E134D2375EFEAB5F1AB52F87844"),
    ("Relative Change", "-1"),
    ("Fee", "0.5 XEM")]

def aggregateModificationV2NoChange : TestVector where
  name := "aggregate_modification_v2_no_change"
  description := "Version 2 modification leaving the minimum unchanged"
  path := usualPath
  transaction := .action { HeaderDescriptor.ofFee 500000 with
      version := 2 }
    (.aggregateModification {
      modifications := [
        ⟨1, "1fbdbdde28daf828245e4533765726f0b7790e0b7146e2ce205df3e86366980b"⟩]
      change := none })
  fields := [
    ("Transaction Type", "Modify Multisig Aggregate TX"),
    ("Cosignatory Num", "1"),
    ("Mod. Type", "Add cosignatory"),
    ("Cosignatory PbK", "1FBDBDDE28DAF828245E4533765726F0B7790E0B7146E2CE205DF3E86366980B"),
    ("Relative Change", "Not change"),
    ("Fee", "0.5 XEM")]

def provisionSubnamespace : TestVector where
  name := "provision_subnamespace"
  description := "Provision a sub namespace"
  path := usualPath
  transaction := .action (HeaderDescriptor.ofFee 150000)
    (.namespaceProvision {
      sink := "TAMESPACEWH4MKFMBCVFERDPOOP4FK7MTDJEYP35"
      rentalFee := 10000000
      name := "test_namespace_name"
      parent := some "test_nem" })
  fields := [
    ("Transaction Type", "Provision Namespace TX"),
    ("Namespace", "test_namespace_name"),
    ("Parent Name", "test_nem"),
    ("Sink Address", "TAMESPACEWH4MKFMBCVFERDPOOP4FK7MTDJEYP35"),
    ("Rental Fee", "10 XEM"),
    ("Fee", "0.15 XEM")]

end TestVector

end NemSigner
