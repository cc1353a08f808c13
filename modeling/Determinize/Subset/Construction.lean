import Determinize.Epsilon.Elimination
/-!
# Subset construction

A deterministic automaton whose states are sets of states of the given one. The sets are explored
from the initial state with a stack: a set is taken off, one transition is made for each symbol,
and targets that are new are listed and put onto the stack. Where a set leads nowhere the
transition goes to the trap; the trap is made at its first use, with a loop on every symbol, and
is not explored.

The construction can be limited: with the limit `k` it stops when the `k`-th set is taken off,
before that set is explored, and what has been made up to then is the result.

## Main definitions

* `Subset.target?` — where a set leads on a symbol
* `Subset.Course` — how far a construction has come
* `Construction` — the outcome
* `Automaton.determinized`, `Automaton.determinizedUpTo` — the construction, whole and limited

## Implementation notes

A set other than the initial state and the trap is made of names of targets. With `k` such names
there are fewer than `2 ^ k` sets, and each is put onto the stack once, so `2 ^ k + 1` steps always
suffice. A step counts the set it explores; the set at which a limited construction stops is
counted too.
-/

namespace Determinize

namespace Subset

/-- Where the set `s` leads on `x`, if anywhere. -/
def target? (index : Index) (s : State) (x : Symbol) : Option State :=
  State.combine ((s.parts.flatMap fun p => index.successors p x).map some)

/-- How far a construction has come. -/
structure Course where
  /-- The sets found, in order of discovery. -/
  states : List State
  /-- The sets that are still to be explored, the next one first. -/
  pending : List State
  /-- The transitions made. -/
  transitions : List Transition
  /-- The number of sets explored. -/
  steps : Nat

namespace Course

/-- The course before the first step. -/
def start (s : State) : Course := ⟨[s], [s], [], 0⟩

/-- Lists the set `t` and puts it onto the stack, if it is new. -/
def discover (c : Course) (t : State) : Course :=
  if t ∈ c.states then c else { c with states := c.states ++ [t], pending := t :: c.pending }

/-- Lists the trap with its loops, if it is new. -/
def discoverTrap (alphabet : List Symbol) (c : Course) : Course :=
  if .trap ∈ c.states then c
  else
    { c with
      states := c.states ++ [.trap]
      transitions := c.transitions ++ alphabet.map fun x => ⟨.trap, [.trap], x⟩ }

/-- Appends the transition from `s` to `t` on `x`. -/
def addTransition (c : Course) (s t : State) (x : Symbol) : Course :=
  { c with transitions := c.transitions ++ [⟨s, [t], x⟩] }

/-- Makes the transition of the set `s` on `x`, which leads to `t?` or to the trap. -/
def addMove (alphabet : List Symbol) (s : State) (c : Course) (x : Symbol) (t? : Option State) :
    Course :=
  match t? with
  | some t => (c.addTransition s t x).discover t
  | none => (c.discoverTrap alphabet).addTransition s .trap x

/-- Makes the transitions of the set `s`. -/
def explore (index : Index) (alphabet : List Symbol) (c : Course) (s : State) : Course :=
  alphabet.foldl (fun c x => c.addMove alphabet s x (target? index s x)) c

/-- Takes the next set off the stack and explores it. -/
def step (index : Index) (alphabet : List Symbol) (c : Course) : Course :=
  match c.pending with
  | [] => c
  | s :: rest => { c with pending := rest, steps := c.steps + 1 }.explore index alphabet s

/-- At most `n` steps. -/
def run (index : Index) (alphabet : List Symbol) : Nat → Course → Course
  | 0, c => c
  | n + 1, c =>
    match c.pending with
    | [] => c
    | _ :: _ => run index alphabet n (c.step index alphabet)

end Course

/-- A number of steps that suffices for an automaton without epsilon transitions. -/
def bound (a : Automaton) : Nat :=
  Nat.pow 2 ((a.transitions.flatMap (·.targets)).flatMap State.names).eraseDups.length + 1

/-- The construction for an automaton without epsilon transitions, after at most `n` steps. -/
def course (a : Automaton) (n : Nat) : Course :=
  Course.run a.index a.alphabet n (Course.start a.initial)

/-- The automaton made so far: a set is final when one of its parts is. -/
def Course.automaton (a : Automaton) (c : Course) : Automaton :=
  .of a.initial (c.states.filter fun s => s.parts.any a.isFinal) c.states a.alphabet c.transitions

end Subset

/-- The outcome of a subset construction. -/
structure Construction where
  /-- The deterministic automaton, or what has been made of it. -/
  automaton : Automaton
  /-- The number of sets taken off the stack. -/
  steps : Nat
  /-- Whether the limit was met. -/
  interrupted : Bool
deriving DecidableEq

namespace Construction

/-- The number of steps of a construction that came to its end. -/
def completedSteps? (c : Construction) : Option Nat := if c.interrupted then none else some c.steps

/-- The outcome on one line. -/
def summary (c : Construction) : String :=
  "ConstructionResult(" ++ c.automaton.summary ++ ", steps=" ++ toString c.steps ++
    ", interrupted=" ++ (if c.interrupted then "True" else "False") ++ ")"

/-- The outcome for the automaton `a`, without epsilon transitions, once the course is over or has
met its limit. -/
def ofCourse (a : Automaton) (c : Subset.Course) : Construction where
  automaton := c.automaton a
  steps := if c.pending.isEmpty then c.steps else c.steps + 1
  interrupted := !c.pending.isEmpty

end Construction

namespace Automaton

/-- The subset construction. -/
def determinized (a : Automaton) : Construction :=
  let e := a.eliminated
  .ofCourse e (Subset.course e (Subset.bound e))

/-- The subset construction, stopped when the `k`-th set is taken off the stack. -/
def determinizedUpTo (a : Automaton) (k : Nat) : Construction :=
  let e := a.eliminated
  .ofCourse e (Subset.course e (k - 1))

/-- The subset construction, with or without a limit. -/
def determinizedWithin (a : Automaton) : Option Nat → Construction
  | none => a.determinized
  | some k => a.determinizedUpTo k

end Automaton

end Determinize
