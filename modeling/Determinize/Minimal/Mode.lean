import Determinize.Minimal.Pass
import Determinize.Minimal.Partition
import Determinize.Raw.Order
/-!
# Minimization

Three ways to merge equivalent states, from the quickest to the strongest.

## Main definitions

* `Mode` — one pass, passes until nothing merges, or partition refinement
* `Automaton.minimized` — the automaton with equivalent states merged
* `Mode.ofRaw` — the mode that a value of any kind names
-/

namespace Determinize

/-- A way to merge equivalent states. -/
inductive Mode where
  /-- One pass over every pair of states. -/
  | single
  /-- Passes until nothing merges. -/
  | converge
  /-- Partition refinement. -/
  | byBlocks
deriving DecidableEq, Repr

namespace Mode

/-- The name of the mode. -/
def name : Mode → String
  | single => "single"
  | converge => "converge"
  | byBlocks => "partition"

/-- All modes, in the order in which they are offered. -/
def all : List Mode := [single, converge, byBlocks]

/-- The mode with the given name. -/
def ofName? (s : String) : Option Mode := all.find? fun m => m.name = s

/-- The mode that a value names. -/
def ofRaw (x : Raw) : Except Fault Mode :=
  let mode? := match x with
    | .str s => ofName? s
    | _ => none
  match mode? with
  | some m => .ok m
  | none => .error (.unknownMode x.quoted)

end Mode

namespace Automaton

/-- The automaton with equivalent states merged. -/
def minimized (a : Automaton) : Mode → Automaton
  | .single => a.onePass.automaton
  | .converge => a.converged
  | .byBlocks => a.mergedByPartition

/-- The events of `Automaton.minimized`. -/
def minimizationLog (a : Automaton) (mode : Mode) : List Event :=
  let merges := match mode with
    | .single => a.onePassLog
    | .converge => passesLog (a.states.length + 1) a
    | .byBlocks => a.partitionLog
  merges ++ [.minimized mode.name a.states.length (a.minimized mode).states.length]

end Automaton

end Determinize
