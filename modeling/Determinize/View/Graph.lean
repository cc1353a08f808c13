import Determinize.State.Order
import Determinize.View.NodeId
/-!
# Graphs

An automaton is drawn as a graph: a node for each listed state, a marker that points to the
initial state, and an edge for each target of each transition. This file holds the graph as a
value; how it is written is said in `Determinize.View.Dot`.
-/

namespace Determinize

namespace Graph

/-- A node: a state with its identifier and its label. -/
structure Node where
  /-- The identifier. -/
  id : String
  /-- The text inside the node. -/
  label : String
  /-- Whether the node has a double border. -/
  double : Bool
deriving DecidableEq

/-- An edge between two nodes, given by their identifiers. -/
structure Edge where
  /-- The identifier of the node the edge leaves. -/
  source : String
  /-- The identifier of the node it leads to. -/
  target : String
  /-- The text at the edge. -/
  label : String
deriving DecidableEq

end Graph

/-- A graph with one marked node. -/
structure Graph where
  /-- The nodes, in the order in which they are drawn. -/
  nodes : List Graph.Node
  /-- The identifier of the node that the marker points to. -/
  start : String
  /-- The edges, in the order in which they are drawn. -/
  edges : List Graph.Edge
deriving DecidableEq

namespace Automaton

/-- The edges of a transition, one for each target. -/
def edgesOf (l : List State) (t : Transition) : List Graph.Edge :=
  t.targets.map fun s => ⟨nodeIdOf l t.source, nodeIdOf l s, t.symbol.shown⟩

/-- The graph of an automaton. Final states have a double border. -/
def graph (a : Automaton) : Graph :=
  let l := a.nodes
  { nodes := (State.sorted a.states).map fun s => ⟨nodeIdOf l s, s.display, a.isFinal s⟩
    start := nodeIdOf l a.initial
    edges := a.transitions.flatMap (edgesOf l) }

end Automaton

end Determinize
