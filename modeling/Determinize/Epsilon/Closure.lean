import Determinize.Index
/-!
# Closures under epsilon transitions

A closure is found by a search that keeps the states found so far, in order of discovery, and a
stack of those whose successors are still to be looked at. Every state goes onto the stack once,
when it is found, so cycles are followed once.

## Main definitions

* `EpsilonReach` — one state is reached from another by epsilon transitions alone
* `Closure.Search` — the states found and the states still to be looked at
* `closureFrom` — the states reached from some states
* `closure` — the states reached from a state, that state first

## Implementation notes

Every state found is one of the states the search begins with or a target of an epsilon transition.
So it is over after as many steps as there are of both, and it is run for that many steps.
-/

namespace Determinize

/-- The state `t` is reached from `s` by epsilon transitions alone. -/
inductive EpsilonReach (transitions : List Transition) (s : State) : State → Prop
  /-- Every state is reached from itself. -/
  | refl : EpsilonReach transitions s s
  /-- One more transition goes on from a state that is reached. -/
  | tail {t u : State} {e : Transition} : EpsilonReach transitions s t → e ∈ transitions →
      e.isEpsilon = true → e.source = t → u ∈ e.targets → EpsilonReach transitions s u

/-- The transitions that read nothing. -/
def silent (transitions : List Transition) : List Transition := transitions.filter (·.isEpsilon)

/-- Where one of the transitions leads from `s`, in stored order and with repetitions. -/
def targetsFrom (transitions : List Transition) (s : State) : List State :=
  (transitions.filter fun t => t.source = s).flatMap (·.targets)

theorem mem_targetsFrom_silent {transitions : List Transition} {s u : State} :
    u ∈ targetsFrom (silent transitions) s ↔
      ∃ e ∈ transitions, e.isEpsilon = true ∧ e.source = s ∧ u ∈ e.targets := by
  simp [targetsFrom, silent, List.mem_flatMap, List.mem_filter, and_assoc, and_comm, and_left_comm]

namespace Closure

/-- A search for everything that is reached from some states. -/
structure Search where
  /-- The states found, in order of discovery. -/
  found : List State
  /-- The states found whose successors have not been looked at, the latest first. -/
  pending : List State

namespace Search

/-- The search before its first step. -/
def start (l : List State) : Search := ⟨l.eraseDups, l.eraseDups⟩

/-- Looks at the successors of the state found last. -/
def step (next : State → List State) (search : Search) : Search :=
  match search.pending with
  | [] => search
  | s :: rest =>
    let fresh := ((next s).filter fun t => t ∉ search.found).eraseDups
    ⟨search.found ++ fresh, fresh.reverse ++ rest⟩

/-- At most `n` steps. -/
def run (next : State → List State) : Nat → Search → Search
  | 0, search => search
  | n + 1, search =>
    match search.pending with
    | [] => search
    | _ :: _ => run next n (search.step next)

end Search

end Closure

/-- The states reached from the states `l` by epsilon transitions. -/
def closureFrom (transitions : List Transition) (l : List State) : List State :=
  let moves := silent transitions
  (Closure.Search.run (targetsFrom moves) (l.length + (moves.flatMap (·.targets)).length)
    (Closure.Search.start l)).found

/-- The states reached from `s` by epsilon transitions, `s` first, in order of discovery. -/
def closure (transitions : List Transition) (s : State) : List State := closureFrom transitions [s]

end Determinize
