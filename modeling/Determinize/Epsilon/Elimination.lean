import Determinize.Epsilon.Closure
/-!
# Automata without epsilon transitions

An automaton with epsilon transitions has an equal one without: each listed state gets exactly
one transition for each symbol, and that leads to everything which is reached by epsilon
transitions, then one transition on the symbol, then epsilon transitions again. Since the
targets are closed, only the initial state can newly become final.

## Main definitions

* `Automaton.eliminated` — the automaton without epsilon transitions; the automaton itself if it
  has none
* `Automaton.closedSuccessors` — the targets of one of its transitions
-/

namespace Determinize

namespace Automaton

/-- The table of the transitions that read a symbol. -/
def symbolIndex (a : Automaton) : Index :=
  Index.ofTransitions (a.transitions.filter fun t => !t.isEpsilon)

/-- What is reached from the states `from` by one transition on `x` and then epsilon transitions,
in order. -/
def closedSuccessors (a : Automaton) (index : Index) (sources : List State) (x : Symbol) :
    List State :=
  ascending (closureFrom a.transitions (sources.flatMap fun s => index.successors s x))

/-- The transitions of the listed state `s`, one for each symbol. -/
def closedRow (a : Automaton) (index : Index) (s : State) : List Transition :=
  let sources := closure a.transitions s
  a.alphabet.map fun x => ⟨s, a.closedSuccessors index sources x, x⟩

/-- The final states, and the initial state where the empty word is accepted by epsilon
transitions alone. -/
def closedFinals (a : Automaton) : List State :=
  if a.initial ∉ a.finals ∧ ∃ s ∈ closure a.transitions a.initial, s ∈ a.finals then
    a.finals ++ [a.initial]
  else a.finals

/-- The automaton without epsilon transitions. -/
def eliminated (a : Automaton) : Automaton :=
  if a.hasEpsilon then
    let index := a.symbolIndex
    of a.initial a.closedFinals a.states a.alphabet (a.states.flatMap (a.closedRow index))
  else a

end Automaton

end Determinize
