import TreePath.Main
import TreePath.Path.Outline
import TreePath.Binary64.Numeral
import TreePath.Proofs.Path.Concatenation
import TreePath.Proofs.Evaluation.Chains
import TreePath.Proofs.Command.Replay
import TreePath.Proofs.Evaluation.Calls
import TreePath.Proofs.Path.References
import TreePath.Proofs.Evaluation.Laziness
import TreePath.Proofs.Path.Descendants
import TreePath.Proofs.Session.Isolation
import TreePath.Proofs.Condition.Comparisons
import TreePath.Proofs.Evaluation.Filtering
import TreePath.Proofs.Evaluation.Order
import TreePath.Proofs.Path.Completion
import TreePath.Proofs.Evaluation.Windows
import TreePath.Proofs.Condition.Containing
import TreePath.Proofs.Path.Shifting
import TreePath.Proofs.Path.Registering
import TreePath.Proofs.Command.Verification
import TreePath.Proofs.Command.Generation
import TreePath.Proofs.Json.Levels
import TreePath.Proofs.Command.Agreement
import TreePath.Proofs.Command.Reordering
import TreePath.Proofs.Command.Options
import TreePath.Proofs.Evaluation.Pending
import TreePath.Proofs.Path.Cursor
import TreePath.Proofs.Path.Scanning
import TreePath.Proofs.Path.Boundaries
import TreePath.Proofs.Path.Progress
import TreePath.Proofs.Path.Bounds
