import Determinize.Epsilon.Elimination
import Determinize.Event
/-!
# The log of an elimination

For each listed state its closure, and then for each symbol the targets of its new transition. An
automaton without epsilon transitions stays as it is, and nothing is reported.
-/

namespace Determinize

namespace Automaton

/-- The events of making the transitions of the listed state `s`. -/
def closedRowLog (a : Automaton) (index : Index) (s : State) : List Event :=
  .closureOf s (closure a.transitions s) ::
    (a.closedRow index s).map fun t => .closedMove s t.symbol t.targets

/-- The events of `Automaton.eliminated`. -/
def eliminationLog (a : Automaton) : List Event :=
  if a.hasEpsilon then
    let index := a.symbolIndex
    a.states.flatMap (a.closedRowLog index)
  else []

end Automaton

end Determinize
