import VeiledLedger.Digest.Sha256
import VeiledLedger.Text.Hex
import VeiledLedger.Text.Quoted
import VeiledLedger.Text.Span
import VeiledLedger.Layout.Encode
import VeiledLedger.Layout.Decode
import VeiledLedger.Envelope
import VeiledLedger.Merkle
import VeiledLedger.Transaction
import VeiledLedger.Registry.Wire
import VeiledLedger.View.Disclosure
import VeiledLedger.View.Edit
import VeiledLedger.Witness.Format
import VeiledLedger.Backchain.Run
import VeiledLedger.Classification
import VeiledLedger.Argument.Backend
import VeiledLedger.Interchange
import VeiledLedger.Node.Setup
import VeiledLedger.Diagnosis
import VeiledLedger.Rehearsal.Requests
import VeiledLedger.Node.Route
import VeiledLedger.Proofs.Layout.Rewritten
import VeiledLedger.Proofs.Layout.FirstMisfit
import VeiledLedger.Proofs.Layout.Length
import VeiledLedger.Proofs.Layout.Overflow
import VeiledLedger.Proofs.Layout.Cursor
import VeiledLedger.Proofs.View.Binding
import VeiledLedger.Proofs.Backchain.Verdict
import VeiledLedger.Proofs.Backchain.Waits
import VeiledLedger.Proofs.Backchain.Checks
import VeiledLedger.Proofs.Backchain.Release
import VeiledLedger.Proofs.Backchain.Blame
import VeiledLedger.Proofs.Registry
import VeiledLedger.Proofs.Tree.Contents
import VeiledLedger.Proofs.View.Pointers
import VeiledLedger.Proofs.Witness
import VeiledLedger.Proofs.Ledger.PublicInput
import VeiledLedger.Proofs.Tree.Commitment
import VeiledLedger.Proofs.Backchain.Progress
import VeiledLedger.Proofs.Publication
import VeiledLedger.Proofs.Backchain.Refinement
import VeiledLedger.Proofs.Backchain.Fleet
import VeiledLedger.Proofs.Witness.Spending
import VeiledLedger.Proofs.Argument.Elements
import VeiledLedger.Proofs.Node.Submissions
import VeiledLedger.Proofs.Registry.Reserved
import VeiledLedger.Proofs.Registry.Defects
import VeiledLedger.Proofs.Registry.Tables
import VeiledLedger.Proofs.Node.Records
import VeiledLedger.Proofs.Node.Verdicts
import VeiledLedger.Proofs.Registry.Upgrades
import VeiledLedger.Proofs.Registry.WireLength
import VeiledLedger.Proofs.Ledger.Slots
import VeiledLedger.Proofs.Tree.Nonces
import VeiledLedger.Proofs.View.Errors
import VeiledLedger.Proofs.Witness.Assembly
import VeiledLedger.Proofs.Backchain.Answers
