import Determinize.Text.Blank
import Determinize.Text.Quoted
import Determinize.Text.UpperCase
import Determinize.Decimal.Shortest
import Determinize.Decimal.Tenths
import Determinize.Form
import Determinize.LogLevel
import Determinize.Page.View
import Determinize.Workbench
import Determinize.Proofs.Epsilon.Language
import Determinize.Proofs.Subset.Language
import Determinize.Proofs.Minimal.Minimality
import Determinize.Proofs.Run.Paths
import Determinize.Proofs.Subset.Prefixes
import Determinize.Proofs.Subset.Complete
import Determinize.Proofs.Subset.Limits
import Determinize.Proofs.Subset.Reachable
import Determinize.Proofs.Minimal.Canonical
import Determinize.Proofs.Subset.Extent
import Determinize.Proofs.Subset.Rearrangement
import Determinize.Proofs.Form
import Determinize.Proofs.Minimal.Retraction
import Determinize.Proofs.Page.Verdict
import Determinize.Proofs.Subset.Again
import Determinize.Proofs.Workbench
import Determinize.Proofs.Page.Memory
import Determinize.Proofs.Minimal.Strength
import Determinize.Proofs.Subset.Worklist
import Determinize.Proofs.Epsilon.Search
import Determinize.Proofs.Epsilon.ClosedForm
import Determinize.Proofs.State.Bracket
import Determinize.Proofs.View.Dot
import Determinize.Proofs.View.Agreement
import Determinize.Proofs.Lookup
import Determinize.Proofs.Form.Edits
import Determinize.Proofs.Reading.Sets
import Determinize.Proofs.Minimal.Rounds
