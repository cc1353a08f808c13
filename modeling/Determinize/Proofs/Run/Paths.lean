import Determinize.Proofs.Run.Reached

/-!
# What a run reaches is where paths lead

A path may take its epsilon transitions anywhere, while a run follows them only before the first
symbol and after each one. The sets that a run goes through are closed, so a path never leaves them;
and whatever such a set holds was put there by a symbol and then epsilon transitions, which make up
a path.

A path is a finite list of transitions, each taken from the state to which the one before it was
taken. The word that it spells is what is left of its symbols without the epsilon symbols.

## Main definitions

* `Hop` — a transition and the target it is taken to
* `Joins` — hops that follow one another from one state to another
* `spelled` — the symbols that hops read

## Main results

* `Path.append` — paths can be joined
* `Path.exists_of_mem` — what a path spells is read by transitions
* `Automaton.mem_reached_append_of_path` — a path does not leave the sets of the run
* `path_iff_exists_joins` — paths are lists of hops
* `Automaton.mem_reached_iff_path` — after a word the run is in the states that paths lead to
* `Automaton.accepts_iff_exists_joins` — a word is accepted if a path to a final state spells it
-/

namespace Determinize

variable {transitions : List Transition} {s t u : State} {word rest : List Symbol}

/-- A path goes on from where another one ends. -/
theorem Path.append (hst : Path transitions s word t) (htu : Path transitions t rest u) :
    Path transitions s (word ++ rest) u := by
  induction hst with
  | nil s => exact htu
  | silent he hsilent hv _ ih => exact .silent he hsilent hv (ih htu)
  | read he hread hv _ ih => exact .read he hread hv (ih htu)

/-- Every symbol of the word is read by a transition. -/
theorem Path.exists_of_mem (h : Path transitions s word t) {x : Symbol} (hx : x ∈ word) :
    ∃ e ∈ transitions, e.isEpsilon = false ∧ e.symbol = x := by
  induction h with
  | nil => exact absurd hx List.not_mem_nil
  | silent _ _ _ _ ih => exact ih hx
  | read he hread _ _ ih =>
    rcases List.mem_cons.mp hx with rfl | hx
    · exact ⟨_, he, hread, rfl⟩
    · exact ih hx

theorem EpsilonReach.path (h : EpsilonReach transitions s t) : Path transitions s [] t := by
  induction h with
  | refl => exact .nil s
  | tail _ he hsilent hsource hu ih =>
    subst hsource
    exact ih.append (.silent he hsilent hu (.nil _))

/-! ### Paths as lists of transitions -/

/-- A transition that is taken, and the target it is taken to. -/
structure Hop where
  /-- The transition. -/
  transition : Transition
  /-- The state that it is taken to. -/
  target : State

/-- The hops lead from `s` to `t`: each one takes a transition from the state to which the one
before it led, and leads to one of the targets of that transition. -/
def Joins (transitions : List Transition) (s : State) : List Hop → State → Prop
  | [], t => s = t
  | hop :: hops, t => hop.transition ∈ transitions ∧ hop.transition.source = s ∧
      hop.target ∈ hop.transition.targets ∧ Joins transitions hop.target hops t

/-- The symbols of the transitions in order, without the epsilon symbols. -/
def spelled (hops : List Hop) : List Symbol :=
  (hops.map (·.transition.symbol)).filter fun x => !x.isEpsilon

variable {e : Transition} {hops : List Hop}

theorem spelled_cons_of_isEpsilon (h : e.isEpsilon = true) :
    spelled (⟨e, u⟩ :: hops) = spelled hops := by
  have hsymbol : e.symbol.isEpsilon = true := h
  rw [spelled, List.map_cons, List.filter_cons_of_neg (by simp [hsymbol])]
  rfl

theorem spelled_cons_of_not_isEpsilon (h : e.isEpsilon = false) :
    spelled (⟨e, u⟩ :: hops) = e.symbol :: spelled hops := by
  have hsymbol : e.symbol.isEpsilon = false := h
  rw [spelled, List.map_cons, List.filter_cons_of_pos (by simp [hsymbol])]
  rfl

theorem Joins.path (h : Joins transitions s hops t) : Path transitions s (spelled hops) t := by
  induction hops generalizing s with
  | nil =>
    obtain rfl : s = t := h
    exact .nil s
  | cons hop hops ih =>
    obtain ⟨e, u⟩ := hop
    obtain ⟨he, rfl, hu, hrest⟩ := h
    cases heps : e.isEpsilon with
    | true =>
      rw [spelled_cons_of_isEpsilon heps]
      exact .silent he heps hu (ih hrest)
    | false =>
      rw [spelled_cons_of_not_isEpsilon heps]
      exact .read he heps hu (ih hrest)

theorem Path.exists_joins (h : Path transitions s word t) :
    ∃ hops, Joins transitions s hops t ∧ spelled hops = word := by
  induction h with
  | nil s => exact ⟨[], rfl, rfl⟩
  | @silent e u t word he hsilent hu _ ih =>
    obtain ⟨hops, hjoins, hspelled⟩ := ih
    refine ⟨⟨e, u⟩ :: hops, ⟨he, rfl, hu, hjoins⟩, ?_⟩
    rw [spelled_cons_of_isEpsilon hsilent, hspelled]
  | @read e u t word he hread hu _ ih =>
    obtain ⟨hops, hjoins, hspelled⟩ := ih
    refine ⟨⟨e, u⟩ :: hops, ⟨he, rfl, hu, hjoins⟩, ?_⟩
    rw [spelled_cons_of_not_isEpsilon hread, hspelled]

/-- A path is a list of hops that spells its word. -/
theorem path_iff_exists_joins :
    Path transitions s word t ↔ ∃ hops, Joins transitions s hops t ∧ spelled hops = word := by
  constructor
  · exact Path.exists_joins
  · rintro ⟨hops, hjoins, rfl⟩
    exact hjoins.path

/-! ### Paths and sets -/

namespace Automaton

variable {a : Automaton} {x : Symbol}

theorem path_of_mem_symbolIndex (h : u ∈ a.symbolIndex.successors s x) :
    Path a.transitions s [x] u := by
  obtain ⟨e, he, hread, rfl, rfl, hu⟩ := mem_successors_symbolIndex.mp h
  exact .read he hread hu (.nil u)

/-- A path from a state of one set leads to a state of the set after the word that it spells. -/
theorem mem_reached_append_of_path (hst : Path a.transitions s rest t) (hs : s ∈ a.reached word) :
    t ∈ a.reached (word ++ rest) := by
  induction hst generalizing word with
  | nil s => rwa [List.append_nil]
  | silent he hsilent hu _ ih =>
    exact ih (mem_reached_of_epsilonReach hs (.tail .refl he hsilent rfl hu))
  | @read e u t rest he hread hu _ ih =>
    have hu : u ∈ a.reached (word ++ [e.symbol]) :=
      mem_reached_append_singleton.mpr
        ⟨_, hs, u, mem_successors_symbolIndex.mpr ⟨e, he, hread, rfl, rfl, hu⟩, .refl⟩
    have := ih hu
    rwa [List.append_assoc, List.singleton_append] at this

/-- **After a word a run is in the states that paths lead to** which spell the word. -/
theorem mem_reached_iff_path : t ∈ a.reached word ↔ Path a.transitions a.initial word t := by
  constructor
  · intro ht
    -- a set is made from the one before it, so induct from the end of the word
    induction word using List.reverseRecOn generalizing t with
    | nil => exact (mem_reached_nil.mp ht).path
    | append_singleton word x ih =>
      obtain ⟨s, hs, u, hu, hut⟩ := mem_reached_append_singleton.mp ht
      have hreading : Path a.transitions s [x] t :=
        (path_of_mem_symbolIndex hu).append hut.path
      exact (ih hs).append hreading
  · intro hpath
    exact mem_reached_append_of_path hpath (mem_reached_nil.mpr .refl)

theorem accepts_iff_pathAccepts : a.accepts word = true ↔ a.PathAccepts word := by
  simp only [accepts_iff, mem_reached_iff_path, PathAccepts, and_comm]

/-- **A word is accepted exactly if some path to a final state spells it**, with any number of
epsilon transitions before, between and after the symbols. -/
theorem accepts_iff_exists_joins (a : Automaton) (word : List Symbol) :
    a.accepts word = true ↔
      ∃ t ∈ a.finals, ∃ hops, Joins a.transitions a.initial hops t ∧ spelled hops = word := by
  simp only [accepts_iff_pathAccepts, PathAccepts, path_iff_exists_joins]

end Automaton

end Determinize
