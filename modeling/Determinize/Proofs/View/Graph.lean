import Determinize.View.Dot
import Mathlib.Data.List.Nodup
import Mathlib.Data.Nat.Notation

/-!
# A graph can be read back

A node has no name, it has a place. The states that an automaton mentions are put in order, each
once, and the place in that order is the identifier. This works because the order tells any two
states apart: states that are written alike, such as the trap and a state of that name, or a set and
the simple state whose name is the names of the set in a row, have places of their own, and so does
the marker, whose identifier is no place at all.

An identifier therefore stands for one state, and looking up identifiers can be undone. What is
emitted is a list of statements. Read back in this way, the node statements are the listed states,
and the edge statements are the marker edge and then the transitions, target by target; and each
statement is a line of the text. Nothing is assumed of the automaton. What is drawn may be
incomplete: the initial state and the ends of transitions have places also where they are not
listed, but only a listed state is drawn as a node of its own.

## Main definitions

* `Automaton.Mentions` — the automaton speaks of the state
* `IsNumbering` — some states, paired with the identifiers of their places in order
* `Automaton.stateAt?` — the state that an identifier stands for
* `Automaton.DrawnAs` — what is emitted for an automaton: the statements, read back, and the text

## Main results

* `nodeId_injective`, `nodeId_ne_marker` — identifiers are different
* `quote_nodeId` — they are written as they stand
* `Automaton.nodeIds_eq`, `Automaton.isNumbering_nodeIds` — who has which identifier
* `Automaton.stateAt?_nodeIdOf` — looking up is undone
* `Automaton.drawnAs_sorted` — the statements of an automaton, and its text
* `Automaton.graph_faithful` — what a graph says of its automaton
-/

namespace Determinize

/-! ### Identifiers -/

theorem toList_nodeId (i : ℕ) : (nodeId i).toList = 'n' :: Nat.toDigits 10 i := by
  simp [nodeId]

theorem nodeId_injective : Function.Injective nodeId := by
  intro i j h
  have hdigits : Nat.toDigits 10 i = Nat.toDigits 10 j := by
    have hlist := congrArg String.toList h
    rw [toList_nodeId, toList_nodeId] at hlist
    exact (List.cons.inj hlist).2
  calc i = Nat.ofDigitChars 10 (Nat.toDigits 10 i) 0 := Nat.ofDigitChars_ten_toDigits.symm
    _ = Nat.ofDigitChars 10 (Nat.toDigits 10 j) 0 := by rw [hdigits]
    _ = j := Nat.ofDigitChars_ten_toDigits

/-- The identifier of a place begins with another letter than that of the marker. -/
theorem nodeId_ne_marker (i : ℕ) : nodeId i ≠ Dot.marker := by
  intro h
  have hhead := congrArg (fun id : String => id.toList.head?) h
  simp [toList_nodeId, Dot.marker] at hhead

theorem isDigit_of_mem_toDigits {c : Char} {i : ℕ} (hc : c ∈ Nat.toDigits 10 i) :
    Dot.isDigit c = true := by
  have hdigit := Nat.isDigit_of_mem_toDigits (by decide) (by decide) hc
  rw [Char.isDigit, Bool.and_eq_true] at hdigit
  exact decide_eq_true ⟨of_decide_eq_true hdigit.1, of_decide_eq_true hdigit.2⟩

theorem toLower_of_isDigit {c : Char} (h : Dot.isDigit c = true) : c.toLower = c := by
  obtain ⟨-, hle⟩ := of_decide_eq_true h
  refine dif_neg fun hupper => ?_
  have hcase : 'A'.val ≤ '9'.val := UInt32.le_trans hupper.1 hle
  exact absurd hcase (by decide)

/-- The words with a meaning of their own have no digits. -/
theorem isDigit_of_mem_keywords {k : String} (hk : k ∈ Dot.keywords) {c : Char}
    (hc : c ∈ k.toList) : Dot.isDigit c = false := by
  have hall : (Dot.keywords.all fun k => k.toList.all fun c => !Dot.isDigit c) = true := by decide
  have hnone := List.all_eq_true.mp (List.all_eq_true.mp hall k hk) c hc
  rwa [Bool.not_eq_true'] at hnone

section Digits

variable {l : List Char} (hdigits : ∀ c ∈ l, Dot.isDigit c = true)
include hdigits

theorem body_cons_digits : Dot.body ('n' :: l) = 'n' :: l := by
  refine if_neg fun hlast => ?_
  rcases List.mem_cons.mp (List.mem_of_getLast? hlast) with h | h
  · cases h
  · exact absurd (hdigits _ h) (by decide)

theorem isId_cons_digits : Dot.isId ('n' :: l) = true := by
  have hletters : (l.all fun c => Dot.isLetter c || Dot.isDigit c) = true :=
    List.all_eq_true.mpr fun c hc => by rw [hdigits c hc, Bool.or_true]
  rw [Dot.isId, body_cons_digits hdigits, Dot.isName, hletters]
  rfl

theorem isKeyword_cons_digits (hne : l ≠ []) : Dot.isKeyword ('n' :: l) = false := by
  rw [Dot.isKeyword, decide_eq_false_iff_not]
  intro hmem
  obtain ⟨d, hd⟩ := List.exists_mem_of_ne_nil l hne
  have hlower : d ∈ (String.ofList (('n' :: l).map Char.toLower)).toList := by
    rw [String.toList_ofList]
    exact List.mem_map.mpr ⟨d, List.mem_cons_of_mem _ hd, toLower_of_isDigit (hdigits d hd)⟩
  exact Bool.false_ne_true ((isDigit_of_mem_keywords hmem hlower).symm.trans (hdigits d hd))

end Digits

/-- An identifier is a word without a meaning of its own, so it is written as it stands. -/
theorem quote_nodeId (i : ℕ) : Dot.quote (nodeId i) = nodeId i := by
  have hdigits : ∀ c ∈ Nat.toDigits 10 i, Dot.isDigit c = true := fun c => isDigit_of_mem_toDigits
  have hneeds : Dot.needsQuotes (nodeId i).toList = false := by
    rw [toList_nodeId, Dot.needsQuotes, isId_cons_digits hdigits,
      isKeyword_cons_digits hdigits Nat.toDigits_ne_nil]
    exact Bool.and_false _
  rw [Dot.quote, hneeds]
  rfl

/-- Where no key occurs twice, a key stands for what it is paired with. -/
theorem lookup_eq_some_iff_mem {α β : Type} [BEq α] [LawfulBEq α] {l : List (α × β)} {k : α} {v : β}
    (h : (l.map Prod.fst).Nodup) : l.lookup k = some v ↔ (k, v) ∈ l := by
  induction l with
  | nil => simp
  | cons p l ih =>
    obtain ⟨j, w⟩ := p
    rw [List.map_cons, List.nodup_cons] at h
    rw [List.lookup_cons, List.mem_cons, Prod.mk.injEq]
    by_cases hk : k = j
    · subst hk
      have hnot : (k, v) ∉ l := fun hmem => h.1 (List.mem_map.mpr ⟨_, hmem, rfl⟩)
      simp [hnot, eq_comm]
    · have hbeq : (k == j) = false := by simpa using hk
      simp only [hbeq, hk, false_and, false_or]
      exact ih h.2

/-- The pairs number the states of a kind in their order, from `n0` on. -/
structure IsNumbering (ids : List (State × String)) (kind : State → Prop) : Prop where
  /-- The states are in order, each once. -/
  ascending : Ascending (ids.map Prod.fst)
  /-- They are the states of the kind. -/
  mem_iff : ∀ s, s ∈ ids.map Prod.fst ↔ kind s
  /-- Each has the identifier of its place. -/
  ids_eq : ids.map Prod.snd = (List.range ids.length).map nodeId
  /-- No two have the same identifier. -/
  nodup_ids : (ids.map Prod.snd).Nodup
  /-- None has the identifier of the marker. -/
  marker_not_mem : Dot.marker ∉ ids.map Prod.snd

namespace Automaton

variable {a : Automaton} {s t : State} {e : Transition} {id : String}

/-- The automaton speaks of the state: it is listed, it is the initial state, or a transition leaves
it or leads to it. -/
def Mentions (a : Automaton) (s : State) : Prop :=
  s ∈ a.states ∨ s = a.initial ∨ ∃ e ∈ a.transitions, s = e.source ∨ s ∈ e.targets

/-- The state that the identifier stands for, if it is the identifier of a node. -/
def stateAt? (a : Automaton) (id : String) : Option State := (a.nodeIds.map Prod.swap).lookup id

/-- What is emitted for an automaton whose listed states are `listed` in order. -/
structure DrawnAs (a : Automaton) (listed : List State) : Prop where
  /-- The states are the listed ones. -/
  perm : listed.Perm a.states
  /-- They are in order. -/
  pairwise : listed.Pairwise fun s t => ¬t < s
  /-- Read back by what identifiers stand for, the statements are the automaton. Two settings and
  the marker, which stands for no state, come first. Then there is a node for each listed state,
  with a double circle where the state is final. Then the marker points to the initial state, and
  then there is an edge for each target of each transition, in stored order. -/
  statements_eq : a.graph.statements.map (Dot.Statement.map a.stateAt?) =
    [.setting "rankdir" "LR", .setting "size" "8,5", .node none [("shape", "point")]] ++
      listed.map (fun s => .node (some s)
        [("label", s.display), ("shape", if a.isFinal s then "doublecircle" else "circle")]) ++
      .edge none (some a.initial) [] :: a.transitions.flatMap fun e => e.targets.map fun t =>
        .edge (some e.source) (some t) [("label", e.symbol.shown)]
  /-- Each statement is a line of the text. -/
  dot_eq : ∀ title?, a.dot title? =
    Graph.titleLine title? ++ "digraph \x7b\n\trankdir=LR\n\tsize=\"8,5\"\n" ++
      "\tstart [shape=point]\n" ++
      String.join (listed.map fun s => "\t" ++ nodeIdOf a.nodes s ++ " [label=" ++
        Dot.quote s.display ++ " shape=" ++ (if a.isFinal s then "doublecircle" else "circle") ++
        "]\n") ++
      "\tstart -> " ++ nodeIdOf a.nodes a.initial ++ "\n" ++
      String.join (a.transitions.flatMap fun e => e.targets.map fun t =>
        "\t" ++ nodeIdOf a.nodes e.source ++ " -> " ++ nodeIdOf a.nodes t ++ " [label=" ++
          Dot.quote e.symbol.shown ++ "]\n") ++
      "\x7d\n"

/-! ### Who has which identifier -/

@[simp] theorem mem_nodes : s ∈ a.nodes ↔ a.Mentions s := by
  rw [nodes, mem_ascending, mentioned, Mentions]
  simp only [List.cons_append, List.mem_cons, List.mem_append, List.mem_flatMap]
  exact or_left_comm

theorem ascending_nodes (a : Automaton) : Ascending a.nodes := pairwise_ascending a.mentioned

theorem nodup_nodes (a : Automaton) : a.nodes.Nodup :=
  (ascending_nodes a).imp fun {_ _} hlt => State.ne_of_lt hlt

/-- The place of a state is the first place in order at which it stands, and the only one. -/
theorem nodeIds_eq (a : Automaton) :
    a.nodeIds = a.nodes.map fun s => (s, nodeIdOf a.nodes s) := by
  refine List.ext_getElem (by simp [nodeIds]) fun i hi hi' => ?_
  have hlt : i < a.nodes.length := by simpa using hi'
  simp [nodeIds, nodeIdOf, (nodup_nodes a).idxOf_getElem i hlt]

theorem map_fst_nodeIds (a : Automaton) : a.nodeIds.map Prod.fst = a.nodes := by
  simp [nodeIds_eq, Function.comp_def]

theorem map_snd_nodeIds (a : Automaton) :
    a.nodeIds.map Prod.snd = (List.range a.nodeIds.length).map nodeId := by
  have hlength : a.nodeIds.length = a.nodes.length := by simp [nodeIds]
  rw [hlength, List.range_eq_range', ← List.zipIdx_map_snd 0 a.nodes, nodeIds, List.map_map,
    List.map_map]
  rfl

theorem nodup_map_snd_nodeIds (a : Automaton) : (a.nodeIds.map Prod.snd).Nodup := by
  rw [map_snd_nodeIds]
  exact List.nodup_range.map nodeId_injective

/-- The states that an automaton mentions are numbered in their order. -/
theorem isNumbering_nodeIds (a : Automaton) : IsNumbering a.nodeIds a.Mentions where
  ascending := map_fst_nodeIds a ▸ ascending_nodes a
  mem_iff s := by rw [map_fst_nodeIds, mem_nodes]
  ids_eq := map_snd_nodeIds a
  nodup_ids := nodup_map_snd_nodeIds a
  marker_not_mem hmem := by
    rw [map_snd_nodeIds] at hmem
    obtain ⟨i, -, hi⟩ := List.mem_map.mp hmem
    exact nodeId_ne_marker i hi

/-! ### Looking up, and back -/

theorem lookup_nodeIds_iff : a.nodeIds.lookup s = some id ↔ (s, id) ∈ a.nodeIds :=
  lookup_eq_some_iff_mem (map_fst_nodeIds a ▸ nodup_nodes a)

/-- Each state that the automaton mentions has an identifier. -/
theorem lookup_nodeIds (h : a.Mentions s) : a.nodeIds.lookup s = some (nodeIdOf a.nodes s) := by
  rw [lookup_nodeIds_iff, nodeIds_eq]
  exact List.mem_map.mpr ⟨s, mem_nodes.mpr h, rfl⟩

theorem stateAt?_eq_some_iff : a.stateAt? id = some s ↔ a.nodeIds.lookup s = some id := by
  have hkeys : (a.nodeIds.map Prod.swap).map Prod.fst = a.nodeIds.map Prod.snd := by
    simp [Function.comp_def]
  rw [stateAt?, lookup_eq_some_iff_mem (hkeys ▸ nodup_map_snd_nodeIds a), lookup_nodeIds_iff,
    List.mem_map]
  constructor
  · rintro ⟨p, hp, hswap⟩
    obtain rfl : p = (s, id) := Prod.swap_inj.mp hswap
    exact hp
  · intro hmem
    exact ⟨_, hmem, rfl⟩

/-- An identifier that was looked up stands for the state it was looked up for. -/
theorem stateAt?_nodeIdOf (h : a.Mentions s) : a.stateAt? (nodeIdOf a.nodes s) = some s :=
  stateAt?_eq_some_iff.mpr (lookup_nodeIds h)

/-- So different states have different identifiers. -/
theorem nodeIdOf_inj (hs : a.Mentions s) (ht : a.Mentions t) :
    nodeIdOf a.nodes s = nodeIdOf a.nodes t ↔ s = t := by
  refine ⟨fun h => ?_, fun h => h ▸ rfl⟩
  have hstate := stateAt?_nodeIdOf hs
  rw [h, stateAt?_nodeIdOf ht] at hstate
  exact (Option.some.inj hstate).symm

theorem mentions_of_mem_states (h : s ∈ a.states) : a.Mentions s := Or.inl h

theorem mentions_initial (a : Automaton) : a.Mentions a.initial := Or.inr (Or.inl rfl)

theorem mentions_source (h : e ∈ a.transitions) : a.Mentions e.source :=
  Or.inr (Or.inr ⟨e, h, Or.inl rfl⟩)

theorem mentions_target (h : e ∈ a.transitions) (ht : t ∈ e.targets) : a.Mentions t :=
  Or.inr (Or.inr ⟨e, h, Or.inr ht⟩)

/-- The marker stands for no state. -/
theorem stateAt?_marker (a : Automaton) : a.stateAt? Dot.marker = none := by
  rw [stateAt?, List.lookup_eq_none_iff]
  intro p hp
  obtain ⟨q, hq, rfl⟩ := List.mem_map.mp hp
  have hne : q.2 ≠ Dot.marker := fun h =>
    (isNumbering_nodeIds a).marker_not_mem (h ▸ List.mem_map_of_mem hq)
  simpa using hne.symm

/-! ### What a graph says -/

/-- Read back, the node statements are the listed states, with their finality. -/
theorem map_statement_nodes (a : Automaton) :
    (a.graph.nodes.map Graph.Node.statement).map (Dot.Statement.map a.stateAt?) =
      (State.sorted a.states).map fun s => .node (some s)
        [("label", s.display), ("shape", if a.isFinal s then "doublecircle" else "circle")] := by
  rw [graph, List.map_map, List.map_map]
  refine List.map_congr_left fun s hs => ?_
  show Dot.Statement.node (a.stateAt? (nodeIdOf a.nodes s)) _ = _
  rw [stateAt?_nodeIdOf (mentions_of_mem_states (State.mem_sorted.mp hs))]

/-- Read back, the edge statements of a transition lead from its source to its targets. -/
theorem map_statement_edgesOf (h : e ∈ a.transitions) :
    ((edgesOf a.nodes e).map Graph.Edge.statement).map (Dot.Statement.map a.stateAt?) =
      e.targets.map fun t => .edge (some e.source) (some t) [("label", e.symbol.shown)] := by
  rw [edgesOf, List.map_map, List.map_map]
  refine List.map_congr_left fun t ht => ?_
  show Dot.Statement.edge (a.stateAt? (nodeIdOf a.nodes e.source))
    (a.stateAt? (nodeIdOf a.nodes t)) _ = _
  rw [stateAt?_nodeIdOf (mentions_source h), stateAt?_nodeIdOf (mentions_target h ht)]

theorem map_statement_edges (a : Automaton) :
    (a.graph.edges.map Graph.Edge.statement).map (Dot.Statement.map a.stateAt?) =
      a.transitions.flatMap fun e => e.targets.map fun t =>
        .edge (some e.source) (some t) [("label", e.symbol.shown)] := by
  rw [graph, List.map_flatMap, List.map_flatMap]
  exact List.flatMap_congr fun e he => map_statement_edgesOf he

/-- Read back, the marker edge leads from no state to the initial one. -/
theorem map_statement_start (a : Automaton) :
    (Dot.Statement.edge Dot.marker a.graph.start []).map a.stateAt? =
      .edge none (some a.initial) [] := by
  show Dot.Statement.edge (a.stateAt? Dot.marker) (a.stateAt? (nodeIdOf a.nodes a.initial)) _ = _
  rw [stateAt?_marker, stateAt?_nodeIdOf (mentions_initial a)]

theorem drawnAs_sorted (a : Automaton) : a.DrawnAs (State.sorted a.states) where
  perm := State.perm_sorted a.states
  pairwise := State.pairwise_sorted a.states
  statements_eq := by
    have hopening : [.setting "rankdir" "LR", .setting "size" "8,5",
        .node Dot.marker [("shape", "point")]].map (Dot.Statement.map a.stateAt?) =
        [.setting "rankdir" "LR", .setting "size" "8,5", .node none [("shape", "point")]] := by
      simp only [List.map_cons, List.map_nil, Dot.Statement.map, stateAt?_marker]
    rw [Graph.statements, List.map_append, List.map_append, hopening, map_statement_nodes,
      List.map_cons, map_statement_start, map_statement_edges]
  dot_eq title? := by
    have hquote : ∀ s, Dot.quote (nodeIdOf a.nodes s) = nodeIdOf a.nodes s :=
      fun _ => quote_nodeId _
    rw [dot, Graph.dot_eq]
    simp only [graph, Graph.Node.text_statement, Graph.Edge.text_statement, hquote, edgesOf,
      List.map_map, List.map_flatMap, Function.comp_def]

/-- **Identifiers say which state is meant, and a graph says what its automaton is.** The states
that an automaton mentions are numbered in their order, and the marker is apart; each state that is
looked up has a number; a number can be read back; and read back, the statements that are emitted
show each listed state with its finality, the initial state, and the ends of every transition, each
on a line of the text. -/
theorem graph_faithful (a : Automaton) :
    IsNumbering a.nodeIds a.Mentions ∧
      (∀ s, a.Mentions s → a.nodeIds.lookup s = some (nodeIdOf a.nodes s)) ∧
      (∀ s id, a.stateAt? id = some s ↔ a.nodeIds.lookup s = some id) ∧
      ∃ listed, a.DrawnAs listed :=
  ⟨isNumbering_nodeIds a, fun _ => lookup_nodeIds, fun _ _ => stateAt?_eq_some_iff,
    _, drawnAs_sorted a⟩

/-- A set of two, a simple state that is shown like it, and a simple state that is shown like the
trap. The initial state has the name of the marker and is not listed, nor is the set. -/
def lookalikes : Automaton where
  initial := .simple "start"
  finals := [.trap, .simple "AB"]
  states := [.trap, .simple "TRAP", .simple "AB"]
  alphabet := ["0"]
  transitions := [⟨.simple "start", [.trap, .composite ⟨["A", "B"], by decide, by decide⟩], "0"⟩,
    ⟨.composite ⟨["A", "B"], by decide, by decide⟩, [.simple "TRAP", .simple "AB"], "λ"⟩]

/-- Five states have nodes, and of states that are shown alike each has its own. Three of them are
listed and drawn; the marker points to one that is not. -/
theorem graph_faithful_lookalikes :
    lookalikes.Mentions (.simple "start") ∧
      lookalikes.nodeIds.lookup (.simple "start") =
        some (nodeIdOf lookalikes.nodes (.simple "start")) ∧
      lookalikes.nodeIds.map (fun n => (n.1.display, n.2)) =
        [("AB", "n0"), ("TRAP", "n1"), ("start", "n2"), ("AB", "n3"), ("TRAP", "n4")] ∧
      lookalikes.DrawnAs [.simple "AB", .simple "TRAP", .trap] ∧
      lookalikes.dot none =
        "digraph \x7b\n\trankdir=LR\n\tsize=\"8,5\"\n\tstart [shape=point]\n" ++
        "\tn0 [label=AB shape=doublecircle]\n\tn1 [label=TRAP shape=circle]\n" ++
        "\tn4 [label=TRAP shape=doublecircle]\n\tstart -> n2\n" ++
        "\tn2 -> n4 [label=0]\n\tn2 -> n3 [label=0]\n" ++
        "\tn3 -> n1 [label=\"λ\"]\n\tn3 -> n0 [label=\"λ\"]\n\x7d\n" := by
  have hstart : lookalikes.Mentions (.simple "start") := mentions_initial lookalikes
  obtain ⟨-, hlookup, -, listed, hdrawn⟩ := graph_faithful lookalikes
  -- there is only one way to put the listed states in order
  have hlisted : listed = [.simple "AB", .simple "TRAP", .trap] :=
    State.eq_of_perm_of_pairwise (hdrawn.perm.trans (by decide)) hdrawn.pairwise (by decide)
  subst hlisted
  refine ⟨hstart, hlookup _ hstart, by decide, hdrawn, ?_⟩
  exact (hdrawn.dot_eq none).trans (by decide +kernel)

end Automaton

end Determinize
