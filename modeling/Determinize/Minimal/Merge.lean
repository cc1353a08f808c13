import Determinize.Index
/-!
# Merging two states

Two states are equivalent for merging when they agree on acceptance and have the same stored
successors on every symbol. Merging removes one of them with its transitions and leads every
transition that went there to the other.

## Main definitions

* `Automaton.equivalent` — agreement of two states, looked up in a given table
* `Automaton.merged` — the automaton with one state replaced by another
-/

namespace Determinize

/-- The state with `remove` replaced by `keep`. -/
def State.redirected (remove keep s : State) : State := if s = remove then keep else s

namespace Automaton

/-- Whether the two states agree on acceptance and, by the table, on the successors on every
symbol. -/
def equivalent (a : Automaton) (index : Index) (p q : State) : Bool :=
  a.isFinal p = a.isFinal q ∧ a.alphabet.all fun x => index.successors p x = index.successors q x

/-- The automaton without the state `remove`; what led there leads to `keep`. -/
def merged (a : Automaton) (remove keep : State) : Automaton where
  initial := a.initial
  finals := a.finals.filter fun s => s ≠ remove
  states := a.states.filter fun s => s ≠ remove
  alphabet := a.alphabet
  transitions := (a.transitions.filter fun t => t.source ≠ remove).map fun t =>
    { t with targets := t.targets.map (State.redirected remove keep) }

/-- One merge after the other: each removes the first state of its pair in favour of the second. -/
def mergedAll (a : Automaton) (merges : List (State × State)) : Automaton :=
  merges.foldl (fun a m => a.merged m.1 m.2) a

end Automaton

end Determinize
