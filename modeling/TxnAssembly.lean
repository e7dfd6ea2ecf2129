import TxnAssembly.Config.Writer
import TxnAssembly.Session.Transcript
import TxnAssembly.Proofs.Stage
import TxnAssembly.Proofs.Ledger
import TxnAssembly.Proofs.Origin
import TxnAssembly.Proofs.Ownership
import TxnAssembly.Proofs.Evaluation
import TxnAssembly.Proofs.Orphans
import TxnAssembly.Proofs.Blindness
import TxnAssembly.Proofs.History
import TxnAssembly.Proofs.Assembly
import TxnAssembly.Proofs.Threading
import TxnAssembly.Proofs.Refusals
import TxnAssembly.Proofs.Binding
import TxnAssembly.Proofs.Interleaving
import TxnAssembly.Proofs.Appending
import TxnAssembly.Proofs.Inertness
import TxnAssembly.Proofs.Outline
import TxnAssembly.Proofs.Deferral
import TxnAssembly.Proofs.Diary
import TxnAssembly.Proofs.Interruption
import TxnAssembly.Proofs.RoundTrip
import TxnAssembly.Proofs.Delimiting
import TxnAssembly.Proofs.Nesting
import TxnAssembly.Proofs.Invocations
import TxnAssembly.Proofs.Positions
import TxnAssembly.Proofs.Provenance
import TxnAssembly.Proofs.Chronicle
import TxnAssembly.Proofs.Tracking
import TxnAssembly.Proofs.Choice
import TxnAssembly.Proofs.Snapshot
import TxnAssembly.Proofs.Stopping
import TxnAssembly.Proofs.Presence
import TxnAssembly.Proofs.Verdicts
import TxnAssembly.Proofs.Capacity
import TxnAssembly.Proofs.Replays
