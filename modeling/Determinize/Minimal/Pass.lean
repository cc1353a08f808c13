import Determinize.Minimal.Merge
import Determinize.Event
/-!
# Passes over all pairs

A pass goes through all pairs of the listed states and merges each pair that is equivalent at its
turn. Of a pair the first state goes, unless it is the initial state; the trap never goes. Merging
can make further states equivalent, so passes are repeated until one finds nothing to merge.

## Main definitions

* `Automaton.verdict` — what a pass does at a pair
* `Automaton.scan`, `Automaton.onePass` — a pass, over given pairs and over all
* `Automaton.converged` — passes until nothing merges

## Implementation notes

The pairs are those of the states listed when the pass begins. A pair of which one state has been
merged away has no turn. A pass that merges removes a listed state, so there are at most as many
such passes as states.
-/

namespace Determinize

/-- What a pass does at a pair of states. -/
inductive Verdict where
  /-- The pair is not equivalent, or it is no pair any more. -/
  | skip
  /-- The pair is equivalent and stays, since the state that would go is the trap. -/
  | stay (remove keep : State)
  /-- The first state is to be replaced by the second. -/
  | merge (remove keep : State)
deriving DecidableEq

namespace Automaton

/-- What a pass does at the pair `p`, `q`. -/
def verdict (a : Automaton) (index : Index) (p q : State) : Verdict :=
  if p ∈ a.states ∧ q ∈ a.states ∧ p ≠ q ∧ a.equivalent index p q then
    let (remove, keep) := if p = a.initial then (q, p) else (p, q)
    if remove = .trap then .stay remove keep else .merge remove keep
  else .skip

/-- The outcome of a pass. -/
structure Pass where
  /-- The automaton after the pass. -/
  automaton : Automaton
  /-- The number of merges. -/
  merges : Nat

/-- A pass over the given pairs, with the table of the transitions. -/
def scan (a : Automaton) (index : Index) : List (State × State) → Pass
  | [] => ⟨a, 0⟩
  | (p, q) :: rest =>
    match a.verdict index p q with
    | .merge remove keep =>
      let b := a.merged remove keep
      let pass := b.scan b.index rest
      ⟨pass.automaton, pass.merges + 1⟩
    | _ => a.scan index rest

/-- All pairs of listed states, the first state of the pair going through the list once. -/
def pairs (a : Automaton) : List (State × State) :=
  a.states.flatMap fun p => a.states.map fun q => (p, q)

/-- A pass over all pairs. -/
def onePass (a : Automaton) : Pass := a.scan a.index a.pairs

/-- At most `n` passes, until one merges nothing. -/
def passes : Nat → Automaton → Automaton
  | 0, a => a
  | n + 1, a =>
    let pass := a.onePass
    if pass.merges = 0 then pass.automaton else passes n pass.automaton

/-- Passes until nothing merges. -/
def converged (a : Automaton) : Automaton := passes (a.states.length + 1) a

/-! ### The log -/

/-- The events of a pass over the given pairs. -/
def scanLog (a : Automaton) (index : Index) : List (State × State) → List Event
  | [] => []
  | (p, q) :: rest =>
    match a.verdict index p q with
    | .merge remove keep =>
      let b := a.merged remove keep
      .equal remove keep :: .merging remove keep :: b.scanLog b.index rest
    | .stay remove keep => .equal remove keep :: .trapStays :: a.scanLog index rest
    | .skip => a.scanLog index rest

/-- The events of a pass over all pairs. -/
def onePassLog (a : Automaton) : List Event := a.scanLog a.index a.pairs

/-- The events of at most `n` passes, until one merges nothing. -/
def passesLog : Nat → Automaton → List Event
  | 0, _ => []
  | n + 1, a =>
    let pass := a.onePass
    a.onePassLog ++ if pass.merges = 0 then [] else passesLog n pass.automaton

end Automaton

end Determinize
