import StateSpace.Config.Directive
import StateSpace.Script.ModelSpec
import StateSpace.Search.Run
import StateSpace.Stored
import StateSpace.Proofs.Search.Outcome
import StateSpace.Proofs.Workers.Drained
import StateSpace.Proofs.Symmetry.Canonical
import StateSpace.Proofs.Search.Lone
import StateSpace.Proofs.Workers.Ends
import StateSpace.Proofs.Workers.Unfailing
import StateSpace.Proofs.Workers.Budget
import StateSpace.Proofs.Search.Paths
import StateSpace.Proofs.Workers.BreadthFirst
import StateSpace.Proofs.Search.Expanding
import StateSpace.Proofs.Search.Offered
import StateSpace.Proofs.Symmetry.Quotient
import StateSpace.Proofs.Search.LessRoom
import StateSpace.Proofs.Workers.Discovered
import StateSpace.Proofs.Arithmetic.Verdict
import StateSpace.Proofs.View.Indexing
import StateSpace.Proofs.Symmetry.InRange
import StateSpace.Proofs.Symmetry.Nested
import StateSpace.Proofs.Search.Explained
import StateSpace.Proofs.Trace.Diff
import StateSpace.Proofs.Search.Discarded
import StateSpace.Proofs.Config.Acceptance
import StateSpace.Proofs.Config.Errors
import StateSpace.Proofs.Workers.Storage
import StateSpace.Proofs.Workers.Counted
import StateSpace.Proofs.Ty.Cardinality
import StateSpace.Proofs.Queue.Calls
import StateSpace.Proofs.View.Copying
import StateSpace.Proofs.View.Restoring
import StateSpace.Proofs.Layout.Rounding
import StateSpace.Proofs.Search.Chains
import StateSpace.Proofs.Symmetry.Enumeration
import StateSpace.Proofs.Bits.Register
