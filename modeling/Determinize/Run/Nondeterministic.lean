import Determinize.Epsilon.Elimination
/-!
# Running a nondeterministic automaton

All runs on a word are followed at once: the states that some run can be in form a set, which is
closed under epsilon transitions after every symbol. The word is accepted when the last set holds
a final state.

## Main definitions

* `Path` — a sequence of transitions that spells a word
* `Automaton.PathAccepts` — acceptance by a path
* `Automaton.reached` — the states that some run is in after a word
* `Automaton.accepts` — acceptance by following all runs at once
-/

namespace Determinize

/-- The transitions lead from `s` to `t` along a path that spells the word; epsilon transitions
may be taken anywhere. -/
inductive Path (transitions : List Transition) : State → List Symbol → State → Prop
  /-- The empty path spells the empty word. -/
  | nil (s : State) : Path transitions s [] s
  /-- An epsilon transition reads nothing. -/
  | silent {e : Transition} {u t : State} {word : List Symbol} : e ∈ transitions →
      e.isEpsilon = true → u ∈ e.targets → Path transitions u word t →
      Path transitions e.source word t
  /-- Any other transition reads its symbol. -/
  | read {e : Transition} {u t : State} {word : List Symbol} : e ∈ transitions →
      e.isEpsilon = false → u ∈ e.targets → Path transitions u word t →
      Path transitions e.source (e.symbol :: word) t

namespace Automaton

/-- Some path from the initial state to a final state spells the word. -/
def PathAccepts (a : Automaton) (word : List Symbol) : Prop :=
  ∃ t ∈ a.finals, Path a.transitions a.initial word t

/-- The states that some run is in after one more symbol. -/
def advance (a : Automaton) (index : Index) (l : List State) (x : Symbol) : List State :=
  closureFrom a.transitions (l.flatMap fun s => index.successors s x)

/-- The states that some run is in after the word. -/
def reached (a : Automaton) (word : List Symbol) : List State :=
  word.foldl (a.advance a.symbolIndex) (closure a.transitions a.initial)

/-- Whether some run on the word ends in a final state. -/
def accepts (a : Automaton) (word : List Symbol) : Bool := (a.reached word).any a.isFinal

end Automaton

end Determinize
