import FieldGuard.Decision.Outcome
import FieldGuard.Options.Reader
import FieldGuard.RuleTable.Compile
import FieldGuard.Simulation.Definitions
import FieldGuard.Simulation.Session
import FieldGuard.Evaluation.Log
import FieldGuard.Proofs.Cancellation
import FieldGuard.Proofs.Faults
import FieldGuard.Proofs.SingleFlight
import FieldGuard.Proofs.Worlds
import FieldGuard.Proofs.Sessions
import FieldGuard.Proofs.Canonical
import FieldGuard.Proofs.Consistency
import FieldGuard.Proofs.Compilation
import FieldGuard.Proofs.Earliest
import FieldGuard.Proofs.Lowering
import FieldGuard.Proofs.Governance
import FieldGuard.Proofs.Freezing
import FieldGuard.Proofs.Transparency
import FieldGuard.Proofs.Accounting
import FieldGuard.Proofs.Clock
import FieldGuard.Proofs.Veiling
import FieldGuard.Proofs.Discretion
import FieldGuard.Proofs.Series
import FieldGuard.Proofs.Consulted
import FieldGuard.Proofs.Refusals
import FieldGuard.Proofs.Siblings
import FieldGuard.Proofs.Reordering
import FieldGuard.Proofs.Printing
import FieldGuard.Proofs.Concatenation
import FieldGuard.Proofs.Viability
import FieldGuard.Proofs.Completion
import FieldGuard.Proofs.Sequencing
import FieldGuard.Proofs.Overlay
