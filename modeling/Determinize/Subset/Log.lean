import Determinize.Epsilon.Log
import Determinize.Subset.Construction
/-!
# The log of a construction

For each set its taking off the stack, and then for each symbol where it leads; the making of the
trap is reported once, and transitions to the trap are not. The events of removing epsilon
transitions come first.
-/

namespace Determinize

namespace Subset

namespace Course

/-- The events of making the transitions of the set `s` on the given symbols. -/
def exploreLog (index : Index) (alphabet : List Symbol) (s : State) :
    List Symbol → Course → List Event
  | [], _ => []
  | x :: rest, c =>
    let t? := target? index s x
    let event := match t? with
      | some t => [.moved s x t]
      | none => if .trap ∈ c.states then [] else [.trapNeeded s x]
    event ++ exploreLog index alphabet s rest (c.addMove alphabet s x t?)

/-- The events of at most `n` steps, and of taking off the set at which they stop. -/
def runLog (index : Index) (alphabet : List Symbol) : Nat → Course → List Event
  | 0, c => (c.pending.take 1).map .popped
  | n + 1, c =>
    match c.pending with
    | [] => []
    | s :: _ =>
      .popped s :: exploreLog index alphabet s alphabet c ++
        runLog index alphabet n (c.step index alphabet)

end Course

end Subset

/-- The last event of a construction. -/
def Construction.event (c : Construction) : Event :=
  if c.interrupted then .interrupted c.steps
  else .built c.steps c.automaton.states.length c.automaton.finals.length

/-- The events of `Automaton.determinizedWithin`. -/
def Automaton.determinizationLog (a : Automaton) (limit : Option Nat) : List Event :=
  let e := a.eliminated
  let n := match limit with
    | none => Subset.bound e
    | some k => k - 1
  a.eliminationLog ++ Subset.Course.runLog e.index e.alphabet n (.start e.initial) ++
    [(a.determinizedWithin limit).event]

end Determinize
