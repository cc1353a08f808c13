import Determinize.Automaton.Basic
/-!
# Node identifiers

In a graph a state is a node, and a node is addressed by its place among all states that the
automaton mentions, in the order of states. Names are used for labels only, so states with the
same label, or with the name of the start marker, never share a node.

## Main definitions

* `Automaton.nodes` — the states that have a node, in order
* `nodeId` — the identifier of the node at a place
* `Automaton.nodeIdOf` — the identifier of the node of a state
-/

namespace Determinize

/-- The identifier of the `i`-th node. -/
def nodeId (i : Nat) : String := "n" ++ toString i

namespace Automaton

/-- The states that have a node, in order: all that the automaton mentions. -/
def nodes (a : Automaton) : List State := ascending a.mentioned

/-- The identifier of the node of the state `s` among the nodes `l`. -/
def nodeIdOf (l : List State) (s : State) : String := nodeId (l.idxOf s)

/-- Every node with its identifier. -/
def nodeIds (a : Automaton) : List (State × String) :=
  a.nodes.zipIdx.map fun n => (n.1, nodeId n.2)

end Automaton

end Determinize
