import Determinize.Automaton.Basic
/-!
# Successors of a state on a symbol

Two ways to look up where a list of transitions leads: by reading the list from front to back for
each question, and by grouping it once and asking the table. Both answer with the targets of all
matching transitions, each once, in the order in which they are stored.

## Main definitions

* `successors` — the scan of a list of transitions
* `Index` — the table, one entry for each source and symbol, in order of first arrival
* `Index.ofTransitions`, `Index.successors`, `Index.hasTransition`

## Implementation notes

An index does not follow the list it was made from: it answers for the transitions of the moment
in which it was built.
-/

namespace Determinize

/-- Where the transitions lead from `s` on `a`. -/
def successors (transitions : List Transition) (s : State) (a : Symbol) : List State :=
  ((transitions.filter (·.leaves s a)).flatMap (·.targets)).eraseDups

/-- A transition list grouped by source and symbol. -/
structure Index where
  /-- For each source and symbol the targets, each once, in stored order. -/
  entries : List ((State × Symbol) × List State)
deriving DecidableEq

namespace Index

/-- The table without an entry. -/
def empty : Index := ⟨[]⟩

/-- The entries with `targets` added under `key`, behind those that are there. -/
def insertTargets (key : State × Symbol) (targets : List State) :
    List ((State × Symbol) × List State) → List ((State × Symbol) × List State)
  | [] => [(key, targets.eraseDups)]
  | (k, l) :: rest =>
    if k = key then (k, (l ++ targets).eraseDups) :: rest
    else (k, l) :: insertTargets key targets rest

/-- The table with one more transition. -/
def insert (ix : Index) (t : Transition) : Index :=
  ⟨insertTargets (t.source, t.symbol) t.targets ix.entries⟩

/-- The table of a list of transitions. -/
def ofTransitions (transitions : List Transition) : Index := transitions.foldl insert empty

/-- Where the transitions lead from `s` on `a`. -/
def successors (ix : Index) (s : State) (a : Symbol) : List State :=
  (ix.entries.lookup (s, a)).getD []

/-- Whether the transitions lead anywhere from `s` on `a`. -/
def hasTransition (ix : Index) (s : State) (a : Symbol) : Bool := !(ix.successors s a).isEmpty

end Index

/-- The table of the transitions of an automaton. -/
def Automaton.index (a : Automaton) : Index := Index.ofTransitions a.transitions

end Determinize
