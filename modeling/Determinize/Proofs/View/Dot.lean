import Determinize.Proofs.View.Graph

/-!
# The order of lists leaves no trace in a graph

The states and the final states of an automaton are kept in lists, and a list has an order. In a
graph nothing is left of it. Nodes are drawn in the order of states and identifiers are places in
that order, while a final state is only asked whether it is in its list. So automata that differ in
the order of these lists alone have the same text, and the alphabet is not drawn at all.

The promise stands and falls with the order of states. If of two different states neither were less,
they would be left in the order in which they came, and that would be seen. The order compares
kinds first and then the names as words. A kind and names make a state, so any two states are told
apart: a set from a larger one that begins with the same names, and a simple state with the name of
the trap from the trap.

## Main results

* `State.exactly_one` — of two states one is less, or they are equal
* `Automaton.nodes_eq_of_mentions_iff` — automata that mention the same states number them alike
* `Automaton.graph_eq_of_perm` — the graph forgets the order of the lists
* `Automaton.dot_eq_of_perm` — so does its text, by the laws of the order
-/

namespace Determinize

namespace State

variable {s t : State}

/-- Of two states the one is less, or the other, or they are equal, and only one of the three. -/
theorem exactly_one (s t : State) :
    s < t ∧ s ≠ t ∧ ¬t < s ∨ ¬s < t ∧ s = t ∧ ¬t < s ∨ ¬s < t ∧ s ≠ t ∧ t < s := by
  rcases lt_trichotomy s t with hlt | rfl | hgt
  · exact Or.inl ⟨hlt, ne_of_lt hlt, lt_asymm hlt⟩
  · exact Or.inr (Or.inl ⟨lt_irrefl s, rfl, lt_irrefl s⟩)
  · exact Or.inr (Or.inr ⟨lt_asymm hgt, (ne_of_lt hgt).symm, hgt⟩)

/-- Kinds decide before names do. -/
theorem lt_of_rank_lt (h : s.rank < t.rank) : s < t := Or.inl h

end State

namespace Automaton

variable {a b : Automaton}

theorem nodes_eq_of_mentions_iff (h : ∀ s, a.Mentions s ↔ b.Mentions s) : a.nodes = b.nodes := by
  refine (ascending_nodes a).eq_of_mem_iff (ascending_nodes b) fun s => ?_
  rw [mem_nodes, mem_nodes, h s]

theorem mentions_iff_of_perm (hinitial : a.initial = b.initial)
    (htransitions : a.transitions = b.transitions) (hstates : a.states.Perm b.states) (s : State) :
    a.Mentions s ↔ b.Mentions s := by
  rw [Mentions, Mentions, hinitial, htransitions, hstates.mem_iff]

theorem isFinal_eq_of_perm (hfinals : a.finals.Perm b.finals) : a.isFinal = b.isFinal := by
  funext s
  rw [isFinal, isFinal, decide_eq_decide]
  exact hfinals.mem_iff

/-- The graph is made of the initial state, the transitions, and the states in order. -/
theorem graph_eq_of_perm (hinitial : a.initial = b.initial)
    (htransitions : a.transitions = b.transitions) (hstates : a.states.Perm b.states)
    (hfinals : a.finals.Perm b.finals) : a.graph = b.graph := by
  have hnodes : a.nodes = b.nodes :=
    nodes_eq_of_mentions_iff (mentions_iff_of_perm hinitial htransitions hstates)
  have hsorted : State.sorted a.states = State.sorted b.states := State.sorted_eq_of_perm hstates
  rw [graph, graph, hnodes, hsorted, isFinal_eq_of_perm hfinals, hinitial, htransitions]

/-- **The text of a graph does not depend on the order of the states and final states**, under any
title and for any alphabets, for states are put in order by a strict total order: of two states
exactly one is less, or they are equal; less is transitive; simple states come before sets and sets
before the trap. A list of states in whatever order it comes has one sorted list, and every list in
order with the same states equally often is that list. -/
theorem dot_eq_of_perm :
    (∀ a b : Automaton, a.initial = b.initial → a.transitions = b.transitions →
      a.states.Perm b.states → a.finals.Perm b.finals → ∀ title?, a.dot title? = b.dot title?) ∧
    (∀ s t : State,
      s < t ∧ s ≠ t ∧ ¬t < s ∨ ¬s < t ∧ s = t ∧ ¬t < s ∨ ¬s < t ∧ s ≠ t ∧ t < s) ∧
    (∀ s t u : State, s < t → t < u → s < u) ∧
    (∀ n g, State.simple n < .composite g ∧ State.composite g < .trap) ∧
    (∀ l k : List State, l.Perm k → State.sorted l = State.sorted k) ∧
    ∀ l k : List State, k.Perm l → (k.Pairwise fun s t => ¬t < s) → k = State.sorted l := by
  refine ⟨fun a b hinitial htransitions hstates hfinals title? => ?_, State.exactly_one,
    fun s t u => State.lt_trans, fun n g => ⟨?_, ?_⟩, fun l k => State.sorted_eq_of_perm,
    fun l k hperm hpairwise => ?_⟩
  · rw [dot, dot, graph_eq_of_perm hinitial htransitions hstates hfinals]
  · exact State.lt_of_rank_lt Nat.zero_lt_one
  · exact State.lt_of_rank_lt Nat.one_lt_two
  · exact State.eq_of_perm_of_pairwise (hperm.trans (State.perm_sorted l).symm) hpairwise
      (State.pairwise_sorted l)

/-- The same states with the lists the other way round, and another alphabet. -/
def lookalikesTurned : Automaton where
  initial := lookalikes.initial
  finals := [.simple "AB", .trap]
  states := [.simple "AB", .simple "TRAP", .trap]
  alphabet := ["1", "0"]
  transitions := lookalikes.transitions

/-- States that are shown alike keep their places, and a set comes before a larger one. -/
theorem dot_eq_of_perm_lookalikes :
    lookalikes.states.Perm lookalikesTurned.states ∧
      lookalikes.finals.Perm lookalikesTurned.finals ∧
      lookalikes.dot (some "A and B") = lookalikesTurned.dot (some "A and B") ∧
      State.simple "TRAP" < .composite ⟨["A", "B"], by decide, by decide⟩ ∧
      State.composite ⟨["A", "B"], by decide, by decide⟩ <
        .composite ⟨["A", "B", "C"], by decide, by decide⟩ ∧
      State.simple "TRAP" < .composite ⟨["A", "B", "C"], by decide, by decide⟩ ∧
      State.sorted lookalikes.states = State.sorted lookalikesTurned.states := by
  have hstates : lookalikes.states.Perm lookalikesTurned.states := by decide
  have hfinals : lookalikes.finals.Perm lookalikesTurned.finals := by decide
  obtain ⟨hdot, -, htrans, hkinds, hsorted, -⟩ := dot_eq_of_perm
  have hset := (hkinds "TRAP" ⟨["A", "B"], by decide, by decide⟩).1
  have hlarger : State.composite ⟨["A", "B"], by decide, by decide⟩ <
      .composite ⟨["A", "B", "C"], by decide, by decide⟩ := by decide
  exact ⟨hstates, hfinals, hdot lookalikes lookalikesTurned rfl rfl hstates hfinals _, hset,
    hlarger, htrans _ _ _ hset hlarger, hsorted _ _ hstates⟩

end Automaton

end Determinize
