import Determinize.State.Bracket
import Determinize.Symbol
/-!
# Transitions

A transition leads from one state to any number of states on one symbol. Targets keep their order
and their repetitions; a transition without targets leads nowhere.

## Main definitions

* `Transition` — source, targets and symbol
* `Transition.isEpsilon` — the transition reads nothing
* `Transition.text` — the transition on one line
-/

namespace Determinize

/-- The texts of some states, with commas between them. -/
def State.listText (l : List State) : String := ", ".intercalate (l.map State.text)

/-- A transition from one state to some states on one symbol. -/
structure Transition where
  /-- The state the transition leaves. -/
  source : State
  /-- The states it leads to. -/
  targets : List State
  /-- The symbol it reads. -/
  symbol : Symbol
deriving DecidableEq

namespace Transition

/-- Whether the transition reads nothing. -/
def isEpsilon (t : Transition) : Bool := t.symbol.isEpsilon

/-- Whether the transition leaves `s` on the symbol `a`. -/
def leaves (t : Transition) (s : State) (a : Symbol) : Bool := t.source = s ∧ t.symbol = a

/-- The transition on one line. -/
def text (t : Transition) : String :=
  "δ(" ++ t.source.text ++ ", " ++ t.symbol.shown ++ ") → [" ++ State.listText t.targets ++ "]"

@[simp] theorem leaves_iff {t : Transition} {s : State} {a : Symbol} :
    t.leaves s a = true ↔ t.source = s ∧ t.symbol = a := by
  simp [leaves]

end Transition

end Determinize
