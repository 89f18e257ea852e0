import NemSigner.Main
import NemSigner.Proofs.Descriptor.Agreement
import NemSigner.Proofs.Session.Signing
import NemSigner.Proofs.Transaction.Determined
import NemSigner.Proofs.Session.Reachable
import NemSigner.Proofs.Session.Reassembly
import NemSigner.Proofs.Session.Registers
import NemSigner.Proofs.Printer.Sanitised
import NemSigner.Proofs.Printer.Decimal
import NemSigner.Proofs.Printer.Hex
import NemSigner.Proofs.Transaction.Reviewable
import NemSigner.Proofs.Field.Label
import NemSigner.Proofs.Field.Value
import NemSigner.Proofs.Session.Display
import NemSigner.Proofs.Field.Rows
import NemSigner.Proofs.Decoder.Streams
import NemSigner.Proofs.Transaction.Streams
import NemSigner.Proofs.Transaction.Truncation
import NemSigner.Proofs.Apdu.Requests
import NemSigner.Proofs.Session.Chunks
import NemSigner.Proofs.Session.Command
import NemSigner.Proofs.Checked.Pen
import NemSigner.Proofs.Checked.Decimal
import NemSigner.Proofs.Checked.Data
import NemSigner.Proofs.Checked.Reading
import NemSigner.Proofs.Checked.Address
import NemSigner.Proofs.Checked.Rendered
import NemSigner.Proofs.Checked.Value
import NemSigner.Proofs.Decoder.Loops
import NemSigner.Proofs.Transaction.Turns
import NemSigner.Proofs.Printer.Amount
import NemSigner.Proofs.Field.Sizes
import NemSigner.Proofs.Apdu.Codecs
import NemSigner.Proofs.Field.Names
import NemSigner.Proofs.Session.Classification
import NemSigner.Proofs.Printer.Numerals
import NemSigner.Proofs.Field.Integers
import NemSigner.Proofs.Address
import NemSigner.Proofs.DerivationPath.Text
import NemSigner.Proofs.TestVector.Json
import NemSigner.Proofs.Printer.Runs
import NemSigner.Proofs.Printer.Spelling
import NemSigner.Proofs.Checked.Pile
