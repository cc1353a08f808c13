import Determinize.Proofs.Minimal.Retraction
import Determinize.Proofs.View.Graph
import Determinize.View.Table

/-!
# Run, graph and table show one automaton

A run goes to the first successor, a table shows the first successor, and a graph draws every target
of every transition. In general they show three different things: of several targets the graph draws
all, and of several transitions of one source and symbol too. They show the same where for each
state and symbol there is one stored target or none.

Constructions make such automata, whole and interrupted, and minimization leaves such automata. A
merge takes the transitions of the removed state away and sends targets elsewhere, one for one, so
it brings forth neither a second target nor a second transition, and no target that is not listed.
An edge carries no more than the text of its symbol. That says which symbol is meant, because no
transition reads an epsilon symbol, which would be drawn as another one.

## Main definitions

* `Automaton.edgesOn` — the edges that are drawn for the transitions on a symbol
* `Automaton.Shows` — run, graph and table lead from a state on a symbol to the same state, or none
  does
* `Automaton.Tidy` — what constructions make and minimization leaves
* `Automaton.derived` — a construction, minimized in some modes one after the other
* `Automaton.ShowsMoves` — this holds of every listed state and every symbol

## Main results

* `Automaton.shows_of_filter_leaves` — one transition or none is all that is asked for
* `Automaton.tidy_determinizedWithin`, `Automaton.Tidy.minimized` — these automata are tidy
* `Automaton.showsMoves_derived` — so run, graph and table agree on them
-/

namespace Determinize

/-- The text in the row `i` and the column `j`. -/
def Table.text? (t : Table) (i j : ℕ) : Option String := t.rows[i]?.bind (·[j]?)

/-- The run with one more move before all others. -/
def Run.after (m : Move) (r : Run) : Run := ⟨m.source, m :: r.moves, r.ending⟩

/-- Members that come from one thing are all kept or all dropped, so drop the thing. -/
theorem filter_flatMap_of_forall {α β : Type} {f : α → List β} {p : β → Bool} {q : α → Bool}
    {l : List α} (h : ∀ a ∈ l, ∀ b ∈ f a, p b = q a) :
    (l.flatMap f).filter p = (l.filter q).flatMap f := by
  induction l with
  | nil => rfl
  | cons a l ih =>
    have hhead : (f a).filter p = if q a then f a else [] := by
      rw [List.filter_congr (h a List.mem_cons_self)]
      cases q a <;> simp
    rw [List.flatMap_cons, List.filter_append, hhead,
      ih fun b hb => h b (List.mem_cons_of_mem a hb), List.filter_cons]
    cases q a <;> rfl

namespace Automaton

variable {a : Automaton} {s t : State} {t? u? : Option State} {x : Symbol} {word rest : List Symbol}
  {e : Transition} {f : Graph.Edge} {i j : ℕ}

/-- The edges that are drawn for the transitions on `x`, in stored order. -/
def edgesOn (a : Automaton) (x : Symbol) : List Graph.Edge :=
  (a.transitions.filter (·.symbol = x)).flatMap (edgesOf a.nodes)

/-- Run, graph and table show the same of the state `s` and the symbol `x`: that it leads to a
state, or that it leads nowhere. -/
structure Shows (a : Automaton) (s : State) (x : Symbol) (t? : Option State) : Prop where
  /-- A run that stands in `s` and reads `x` moves to that state and goes on there, or is stuck. -/
  run : ∀ rest, a.runFrom a.index s (x :: rest) =
    t?.elim ⟨s, [], .stuck s x⟩ fun t => (a.runFrom a.index t rest).after ⟨x, s, t⟩
  /-- Of the edges that are drawn for transitions on `x`, one leaves the node of `s`, and it leads
  to the node of that state, or none does. -/
  edges : (a.edgesOn x).filter (·.source = nodeIdOf a.nodes s) =
    t?.toList.map fun t => ⟨nodeIdOf a.nodes s, nodeIdOf a.nodes t, x⟩
  /-- The cell in the row of `s` and the column of `x` shows that state, or a dash. -/
  cell : ∀ marked i j, a.states[i]? = some s → a.alphabet[j]? = some x →
    (a.table marked).text? i (j + 1) = some (t?.elim "-" State.display)

/-! ### What each of the three shows -/

/-- A run goes by the first successor. -/
theorem runFrom_cons_eq_elim (hx : x ∈ a.alphabet) :
    a.runFrom a.index s (x :: rest) =
      (successors a.transitions s x).head?.elim ⟨s, [], .stuck s x⟩
        fun t => (a.runFrom a.index t rest).after ⟨x, s, t⟩ := by
  rw [runFrom, if_pos hx, next?, successors_index]
  cases (successors a.transitions s x).head? <;> rfl

/-- A run goes on from the state in which it stands. -/
theorem runFrom_append {start : State} {accepted : Bool}
    (h : (a.runFrom a.index start word).ending = .read accepted s) :
    a.runFrom a.index start (word ++ rest) =
      ⟨start, (a.runFrom a.index start word).moves ++ (a.runFrom a.index s rest).moves,
        (a.runFrom a.index s rest).ending⟩ := by
  induction word generalizing start with
  | nil =>
    obtain ⟨-, rfl⟩ : a.isFinal start = accepted ∧ start = s := by simpa [runFrom] using h
    cases rest with
    | nil => rfl
    | cons x rest =>
      simp only [List.nil_append, runFrom]
      split
      · split <;> rfl
      · rfl
  | cons x word ih =>
    by_cases hx : x ∈ a.alphabet
    · rw [runFrom_cons_eq_elim hx] at h
      rw [List.cons_append, runFrom_cons_eq_elim hx, runFrom_cons_eq_elim hx]
      cases hnext : (successors a.transitions start x).head? with
      | none => simp [hnext] at h
      | some t =>
        rw [hnext] at h
        simp only [Option.elim_some, Run.after, ih h]
        rfl
    · simp [runFrom, hx] at h

/-- A cell shows the first successor. -/
theorem cell_eq_elim :
    cell a.index s x = (successors a.transitions s x).head?.elim "-" State.display := by
  rw [cell, successors_index]
  cases successors a.transitions s x <;> rfl

theorem text?_table (marked : Bool) (hs : a.states[i]? = some s) (hx : a.alphabet[j]? = some x) :
    (a.table marked).text? i (j + 1) = some (cell a.index s x) := by
  simp [Table.text?, table, hs, hx]

theorem source_of_mem_edgesOf (h : f ∈ edgesOf a.nodes e) :
    f.source = nodeIdOf a.nodes e.source := by
  obtain ⟨t, -, rfl⟩ := List.mem_map.mp h
  rfl

theorem label_of_mem_edgesOf (h : f ∈ edgesOf a.nodes e) : f.label = e.symbol.shown := by
  obtain ⟨t, -, rfl⟩ := List.mem_map.mp h
  rfl

/-- The edges for transitions on `x` that leave the node of `s` are those of the transitions from
`s` on `x`, since no other state has this node. -/
theorem filter_edgesOn (hs : a.Mentions s) :
    (a.edgesOn x).filter (·.source = nodeIdOf a.nodes s) =
      (a.transitions.filter (·.leaves s x)).flatMap (edgesOf a.nodes) := by
  have hsource : ∀ e ∈ a.transitions.filter (·.symbol = x), ∀ f ∈ edgesOf a.nodes e,
      decide (f.source = nodeIdOf a.nodes s) = decide (e.source = s) := by
    intro e he f hf
    rw [source_of_mem_edgesOf hf, decide_eq_decide]
    exact nodeIdOf_inj (mentions_source (List.mem_filter.mp he).1) hs
  rw [edgesOn, filter_flatMap_of_forall hsource, List.filter_filter]
  congr 1
  refine List.filter_congr fun e _ => ?_
  simp [Transition.leaves]

/-- Where one transition is stored for a state and a symbol, and it has one target, or where none is
stored, all three show the same. -/
theorem shows_of_filter_leaves (hs : s ∈ a.states) (hx : x ∈ a.alphabet)
    (hsymbol : x.isEpsilon = false)
    (h : a.transitions.filter (·.leaves s x) = t?.toList.map fun t => ⟨s, [t], x⟩) :
    a.Shows s x t? := by
  have hhead : (successors a.transitions s x).head? = t? := by
    rw [head?_successors, h]
    cases t? <;> rfl
  have hshown : x.shown = x := by simp [Symbol.shown, hsymbol]
  refine ⟨fun rest => ?_, ?_, fun marked i j hi hj => ?_⟩
  · rw [runFrom_cons_eq_elim hx, hhead]
  · rw [filter_edgesOn (mentions_of_mem_states hs), h]
    cases t? with
    | none => rfl
    | some t => simp [edgesOf, hshown]
  · rw [text?_table marked hi hj, cell_eq_elim, hhead]

/-- What is shown is one thing. -/
theorem Shows.unique (h : a.Shows s x t?) (h' : a.Shows s x u?) : t? = u? := by
  have hrun := (h.run []).symm.trans (h'.run [])
  cases t? <;> cases u? <;> simp_all [Run.after]

/-! ### What constructions make and minimization leaves -/

/-- Nothing is repeated or dangling, and each transition has one target, reads a symbol and is the
only one of its source and symbol. -/
structure Tidy (a : Automaton) : Prop where
  /-- States, final states and symbols occur once each, and no symbol is an epsilon symbol. -/
  wellFormed : a.WellFormed
  /-- Each transition has one target, and no two leave the same state on the same symbol. -/
  deterministic : a.Deterministic
  /-- Every state that the automaton speaks of is listed. -/
  listed : a.Listed
  /-- Every transition reads a symbol of the alphabet. -/
  symbol_mem : ∀ e ∈ a.transitions, e.symbol ∈ a.alphabet

/-- A deterministic automaton stores one transition with one target for a state and a symbol, or
none. -/
theorem Deterministic.exists_filter_leaves (h : a.Deterministic) (s : State) (x : Symbol) :
    ∃ t? : Option State, (∀ t ∈ t?, t ∈ a.states) ∧
      a.transitions.filter (·.leaves s x) = t?.toList.map fun t => ⟨s, [t], x⟩ := by
  by_cases hex : ∃ e ∈ a.transitions, e.source = s ∧ e.symbol = x
  · obtain ⟨e, he, rfl, rfl⟩ := hex
    obtain ⟨t, ht, htargets⟩ := h.target e he
    refine ⟨some t, by simpa using ht, ?_⟩
    rw [filter_leaves_eq_singleton h.nodup_keys he, Option.toList_some, List.map_singleton,
      ← htargets]
  · refine ⟨none, by simp, List.filter_eq_nil_iff.mpr fun e he hleaves => hex ?_⟩
    exact ⟨e, he, Transition.leaves_iff.mp hleaves⟩

namespace Tidy

/-- A tidy automaton shows one thing of each state and symbol. -/
theorem existsUnique_shows (h : a.Tidy) (hs : s ∈ a.states) (hx : x ∈ a.alphabet) :
    ∃! t?, (∀ t ∈ t?, t ∈ a.states) ∧ a.Shows s x t? := by
  obtain ⟨t?, hlisted, hrow⟩ := h.deterministic.exists_filter_leaves s x
  have hshows := shows_of_filter_leaves hs hx (h.wellFormed.not_isEpsilon x hx) hrow
  exact ⟨t?, ⟨hlisted, hshows⟩, fun u? hu => hu.2.unique hshows⟩

/-- In a tidy automaton the label of an edge is the symbol for which it is drawn. -/
theorem filter_label (h : a.Tidy) (x : Symbol) :
    a.graph.edges.filter (·.label = x) = a.edgesOn x := by
  refine filter_flatMap_of_forall fun e he f hf => ?_
  have hsymbol := h.wellFormed.not_isEpsilon _ (h.symbol_mem e he)
  have hlabel : f.label = e.symbol := by
    rw [label_of_mem_edgesOf hf, Symbol.shown, hsymbol]
    rfl
  rw [hlabel]

theorem minimized (h : a.Tidy) (mode : Mode) : (a.minimized mode).Tidy := by
  obtain ⟨into, hretracts⟩ := exists_retracts_minimized h.wellFormed.nodup_states h.listed mode
  exact ⟨h.wellFormed.minimized mode, hretracts.deterministic h.deterministic,
    hretracts.listed h.listed, hretracts.symbol_mem h.symbol_mem⟩

theorem foldl_minimized (h : a.Tidy) (modes : List Mode) :
    (modes.foldl Automaton.minimized a).Tidy := by
  induction modes generalizing a with
  | nil => exact h
  | cons mode modes ih => exact ih (h.minimized mode)

end Tidy

/-- What a construction has made after some steps is tidy. -/
theorem tidy_course (h : a.WellFormed) (k : ℕ) : ((Subset.course a k).automaton a).Tidy := by
  have hdet := Subset.deterministic_course h.nodup_alphabet k
  refine ⟨wellFormed_of .., hdet, ⟨hdet.initial_mem, fun s hs => ?_,
    fun e he => Subset.source_mem_course he, fun e he t ht => ?_⟩,
    fun e he => Subset.symbol_mem_course h he⟩
  · exact Subset.mem_states_automaton.mpr (Subset.isFinal_automaton.mp (isFinal_iff.mpr hs)).1
  · obtain ⟨u, hu, htargets⟩ := hdet.target e he
    rw [htargets] at ht
    exact List.mem_singleton.mp ht ▸ hu

/-- So it is whether the construction comes to its end or is interrupted. -/
theorem tidy_determinizedWithin (h : a.WellFormed) (limit : Option ℕ) :
    (a.determinizedWithin limit).automaton.Tidy := by
  cases limit <;> exact tidy_course (wellFormed_eliminated h) _

/-- What is left of a construction that may be limited, after minimizing it in the given modes one
after the other. -/
def derived (a : Automaton) (limit : Option ℕ) (modes : List Mode) : Automaton :=
  modes.foldl minimized (a.determinizedWithin limit).automaton

/-- Run, graph and table describe the same moves, and the edges of a symbol are those labelled with
it. -/
structure ShowsMoves (a : Automaton) : Prop where
  /-- Each listed state leads on each symbol to one listed state or to none, as all three show. -/
  move : ∀ s ∈ a.states, ∀ x ∈ a.alphabet, ∃! t?, (∀ t ∈ t?, t ∈ a.states) ∧ a.Shows s x t?
  /-- The edges drawn for transitions on a symbol are told from others by their labels. -/
  label : ∀ x, a.graph.edges.filter (·.label = x) = a.edgesOn x
  /-- A run that stands in a state goes on as a run from there does. -/
  stand : ∀ word rest s accepted, (a.run word).ending = .read accepted s →
    a.run (word ++ rest) = ⟨a.initial, (a.run word).moves ++ (a.runFrom a.index s rest).moves,
      (a.runFrom a.index s rest).ending⟩

/-- **Run, graph and table describe the same automaton**, if a construction made it, whole or
interrupted, or minimization left it, in whatever mode and however often. -/
theorem showsMoves_derived (h : a.WellFormed) (limit : Option ℕ) (modes : List Mode) :
    (a.derived limit modes).ShowsMoves := by
  have htidy : (a.derived limit modes).Tidy :=
    (tidy_determinizedWithin h limit).foldl_minimized modes
  exact ⟨fun s hs x hx => htidy.existsUnique_shows hs hx, htidy.filter_label,
    fun word rest s accepted hending => runFrom_append hending⟩

/-- A state that leads to two others, which lead to the same states on one symbol and nowhere on the
other. -/
def diamond : Automaton :=
  of (.simple "A") [.simple "D"] [.simple "A", .simple "B", .simple "C", .simple "D"] ["0", "1"]
    [⟨.simple "A", [.simple "B"], "0"⟩, ⟨.simple "A", [.simple "C"], "1"⟩,
      ⟨.simple "B", [.simple "D", .simple "A"], "0"⟩,
      ⟨.simple "C", [.simple "D", .simple "A"], "0"⟩]

/-- Interrupted before the two are explored, the construction has no transitions for them, and they
are merged. Two edges lead to the one that is left and none leads on; a run is stuck there. -/
theorem showsMoves_derived_diamond :
    diamond.WellFormed ∧ (diamond.derived (some 2) [.single]).ShowsMoves ∧
      (diamond.derived (some 2) [.single]).graph.edges = [⟨"n0", "n1", "0"⟩, ⟨"n0", "n1", "1"⟩] ∧
      ((diamond.derived (some 2) [.single]).table false).rows = [["A", "C", "C"], ["C", "-", "-"]] ∧
      ((diamond.derived (some 2) [.single]).run ["0", "1"]).trace =
        ["Start state: A", "  Input '0': A -> C",
          "Error: No transition defined for state C with symbol '1'"] := by
  have hwell : diamond.WellFormed := wellFormed_of ..
  exact ⟨hwell, showsMoves_derived hwell (some 2) [.single], by decide, by decide, by decide⟩

end Automaton

end Determinize
