import Determinize.Minimal.Merge
import Determinize.Event
/-!
# Partition refinement

The listed states are split into blocks, at first by acceptance and then, round after round, by
the blocks their successors lie in. When a round makes no new block, states in one block cannot be
told apart by any word, and each block is merged into one state.

## Main definitions

* `Partition.blockOf?` — the number of the block a state is in
* `Automaton.signature` — what a round looks at
* `Automaton.refined` — one round
* `Automaton.partition` — the blocks that are left when no round makes a new one
* `Automaton.representative`, `Automaton.mergedByPartition` — one state for each block

## Implementation notes

A block is kept for its initial state, or else for the trap, or else for its least state. The
initial state and the trap are never removed, so a block that holds both keeps both. Every round
but the last makes a new block, and there are no more blocks than states.
-/

namespace Determinize

/-- Blocks of states. -/
abbrev Partition := List (List State)

namespace Partition

/-- The number of the block that holds `s`; the last one, if there are several. -/
def blockOf? (blocks : Partition) (s : State) : Option Nat :=
  (blocks.zipIdx.reverse.find? fun b => s ∈ b.1).map (·.2)

/-- Puts `s` into the first group with the key `key`, or into a new group behind the others. -/
def insertGroup {κ : Type} [DecidableEq κ] (key : κ) (s : State) :
    List (κ × List State) → List (κ × List State)
  | [] => [(key, [s])]
  | (k, l) :: rest => if k = key then (k, l ++ [s]) :: rest else (k, l) :: insertGroup key s rest

/-- The states of `block` grouped by their keys, in order of first arrival. -/
def groupBy {κ : Type} [DecidableEq κ] (key : State → κ) (block : List State) : Partition :=
  (block.foldl (fun groups s => insertGroup (key s) s groups) []).map (·.2)

end Partition

namespace Automaton

/-- For each symbol the numbers of the blocks that the successors of `s` lie in. -/
def signature (a : Automaton) (index : Index) (blocks : Partition) (s : State) :
    List (List (Option Nat)) :=
  a.alphabet.map fun x => (index.successors s x).map blocks.blockOf?

/-- One round: each block is split by the signatures of its states. -/
def refined (a : Automaton) (index : Index) (blocks : Partition) : Partition :=
  blocks.flatMap fun block =>
    if block.length ≤ 1 then [block] else Partition.groupBy (a.signature index blocks) block

/-- At most `n` rounds, until one makes no new block. -/
def refineWithin (a : Automaton) (index : Index) : Nat → Partition → Partition
  | 0, blocks => blocks
  | n + 1, blocks =>
    let next := a.refined index blocks
    if next.length = blocks.length then next else a.refineWithin index n next

/-- The final and the other states, as far as there are any. -/
def byAcceptance (a : Automaton) : Partition :=
  [a.states.filter a.isFinal, a.states.filter fun s => !a.isFinal s].filter fun b => !b.isEmpty

/-- The blocks of states that no word tells apart. -/
def partition (a : Automaton) : Partition :=
  a.refineWithin a.index (a.states.length + 1) a.byAcceptance

/-- The state that a block is kept for. -/
def representative (a : Automaton) (block : List State) : State :=
  if a.initial ∈ block then a.initial
  else if .trap ∈ block then .trap
  else (ascending block).headD .trap

/-- The states of a block other than its representative. -/
def superfluous (a : Automaton) (block : List State) : List State :=
  block.filter fun s => s ≠ a.representative block

/-- Whether the state may be removed. -/
def removable (a : Automaton) (s : State) : Bool := s ≠ .trap ∧ s ≠ a.initial

/-- The merges that leave one state of each block, the initial state and the trap apart. -/
def partitionMerges (a : Automaton) : List (State × State) :=
  a.partition.flatMap fun block =>
    ((a.superfluous block).filter a.removable).map fun s => (s, a.representative block)

/-- The automaton with each block merged. -/
def mergedByPartition (a : Automaton) : Automaton := a.mergedAll a.partitionMerges

/-- The events of `Automaton.mergedByPartition`. -/
def partitionLog (a : Automaton) : List Event :=
  a.partition.flatMap fun block =>
    (a.superfluous block).map fun s =>
      if a.removable s then .merging s (a.representative block) else .stays s

end Automaton

end Determinize
