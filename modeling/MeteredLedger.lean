import MeteredLedger.Ledger.Network
import MeteredLedger.Main
import MeteredLedger.Proofs.Machine.Execution
import MeteredLedger.Proofs.Program
import MeteredLedger.Proofs.Verification.StaticFaults
import MeteredLedger.Proofs.Machine.Gas
import MeteredLedger.Proofs.Machine.Termination
import MeteredLedger.Proofs.Source.Outline
import MeteredLedger.Proofs.Source.TemplateCheck
import MeteredLedger.Proofs.Source.Load
import MeteredLedger.Proofs.Source.Rendering
import MeteredLedger.Proofs.Source.Substitution
import MeteredLedger.Proofs.Json.RoundTrip
import MeteredLedger.Proofs.Ledger.BlockEncoding
import MeteredLedger.Contracts.Payout
import MeteredLedger.Proofs.Ledger.Client
import MeteredLedger.Proofs.Machine.Segment
import MeteredLedger.Proofs.Contracts.Payout
import MeteredLedger.Proofs.Ledger.History
import MeteredLedger.Proofs.Ledger.Provenance
import MeteredLedger.Proofs.Machine.Resources
import MeteredLedger.Proofs.Bindings
import MeteredLedger.Proofs.Ledger.Replay
import MeteredLedger.Proofs.Verification.BoundValues
import MeteredLedger.Proofs.Text.Decimal
import MeteredLedger.Proofs.Cli.FileTree
import MeteredLedger.Proofs.Cli.CommandLine
import MeteredLedger.Proofs.Messages
import MeteredLedger.Proofs.Cli.CallAgreement
import MeteredLedger.Proofs.Cli.Staging
import MeteredLedger.Proofs.Verification.DeadCode
import MeteredLedger.Proofs.Machine.Printing
import MeteredLedger.Proofs.Ledger.Sessions
import MeteredLedger.Proofs.Json.Unambiguous
import MeteredLedger.Proofs.Ledger.Digests
import MeteredLedger.Proofs.Ledger.Chain
import MeteredLedger.Proofs.Machine.Failure
import MeteredLedger.Proofs.Machine.Markers
import MeteredLedger.Proofs.Source.Grammar
import MeteredLedger.Proofs.Source.Acceptance
import MeteredLedger.Proofs.Source.Tokens
import MeteredLedger.Proofs.Source.Layout
import MeteredLedger.Proofs.Machine.StackFrame
import MeteredLedger.Proofs.Verification.Paths
import MeteredLedger.Proofs.Cli.Binding
import MeteredLedger.Proofs.Ledger.BlockReferences
import MeteredLedger.Proofs.Machine.Operands
import MeteredLedger.Proofs.Machine.Comparison
import MeteredLedger.Proofs.Machine.Calculation
