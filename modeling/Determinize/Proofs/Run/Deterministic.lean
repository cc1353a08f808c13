import Determinize.Proofs.Successors
import Determinize.Run.Deterministic
import Mathlib.Data.List.Nodup
import Mathlib.Tactic.Choose

/-!
# Outcomes of deterministic runs

A run either reads its word to the end, and then it accepts or it does not, or it stops before.
These three outcomes are all that two states can be told apart by, and they are what the merging of
states has to keep. Where nothing is missing from the table of transitions, a run on symbols of the
alphabet always reads to the end, and it follows a function.

## Main definitions

* `Automaton.outcome` — the outcome of the run on a word from a state
* `Automaton.Indistinct` — two states have the same outcome on every word
* `Automaton.Deterministic` — one listed target for each transition, one transition for each key
* `Automaton.Functional` — one listed successor or none
* `Automaton.MovesBy` — the transitions of the listed states are those of a function

## Main results

* `Automaton.outcome_cons` — the outcome goes by the first successor
* `Automaton.Functional.successors_of_indistinct` — indistinct states lead to indistinct states
* `Automaton.MovesBy.outcome_eq` — the outcome where nothing is missing
-/

namespace Determinize

/-- What a transition leaves, and on what. -/
def Transition.key (e : Transition) : State × Symbol := (e.source, e.symbol)

/-- Whether the run accepts, if it reads its word to the end. -/
def Run.outcome (r : Run) : Option Bool :=
  match r.ending with
  | .read b _ => some b
  | _ => none

theorem Run.accepted_eq (r : Run) : r.accepted = r.outcome.getD false := by
  rw [Run.accepted, Run.outcome]
  cases r.ending <;> rfl

namespace Automaton

variable {a : Automaton} {p q s : State} {x : Symbol} {word rest : List Symbol}

/-! ### Outcomes -/

/-- Whether the run on the word from the state `s` accepts, if it reads the word to the end. -/
def outcome (a : Automaton) (s : State) (word : List Symbol) : Option Bool :=
  (a.runFrom a.index s word).outcome

@[simp] theorem outcome_nil : a.outcome s [] = some (a.isFinal s) := rfl

/-- The outcome goes by the first successor. -/
theorem outcome_cons :
    a.outcome s (x :: word) =
      if x ∈ a.alphabet then (successors a.transitions s x).head?.bind (a.outcome · word)
      else none := by
  rw [outcome, runFrom, next?, successors_index]
  by_cases hx : x ∈ a.alphabet
  · rw [if_pos hx, if_pos hx]
    cases (successors a.transitions s x).head? with
    | none => rfl
    | some t => rfl
  · rw [if_neg hx, if_neg hx]
    rfl

theorem accepted_runFrom :
    (a.runFrom a.index s word).accepted = (a.outcome s word).getD false :=
  Run.accepted_eq _

theorem accepted_run : (a.run word).accepted = (a.outcome a.initial word).getD false :=
  accepted_runFrom

/-- A symbol that is not in the alphabet stops every run. -/
theorem outcome_eq_none_of_mem (hx : x ∈ word) (h : x ∉ a.alphabet) : a.outcome s word = none := by
  induction word generalizing s with
  | nil => exact absurd hx List.not_mem_nil
  | cons y word ih =>
    rw [outcome_cons]
    split
    · rename_i hy
      have hxy : x ≠ y := fun hxy => h (hxy ▸ hy)
      have ih := fun t => @ih t ((List.mem_cons.mp hx).resolve_left hxy)
      cases (successors a.transitions s y).head? with
      | none => rfl
      | some t => exact ih t
    · rfl

/-- The two states have the same outcome on every word. -/
def Indistinct (a : Automaton) (p q : State) : Prop := ∀ word, a.outcome p word = a.outcome q word

theorem Indistinct.symm (h : a.Indistinct p q) : a.Indistinct q p := fun word => (h word).symm

/-! ### Deterministic automata -/

/-- Each transition has one target, which is listed, and no two transitions leave the same state on
the same symbol. -/
structure Deterministic (a : Automaton) : Prop where
  /-- The initial state is listed. -/
  initial_mem : a.initial ∈ a.states
  /-- Every transition leads to one listed state. -/
  target : ∀ e ∈ a.transitions, ∃ t ∈ a.states, e.targets = [t]
  /-- No two transitions leave the same state on the same symbol. -/
  nodup_keys : (a.transitions.map Transition.key).Nodup

/-- Where no two transitions leave the same state on the same symbol, each one is the only one of
its kind. -/
theorem filter_leaves_eq_singleton {transitions : List Transition} {e : Transition}
    (hnodup : (transitions.map Transition.key).Nodup) (he : e ∈ transitions) :
    transitions.filter (·.leaves e.source e.symbol) = [e] := by
  refine eq_singleton_of_nodup (hnodup.of_map.filter _) fun f => ?_
  constructor
  · intro hf
    obtain ⟨hf, hleaves⟩ := List.mem_filter.mp hf
    obtain ⟨hsource, hsymbol⟩ := Transition.leaves_iff.mp hleaves
    exact List.inj_on_of_nodup_map hnodup hf he (Prod.ext hsource hsymbol)
  · rintro rfl
    exact List.mem_filter.mpr ⟨he, Transition.leaves_iff.mpr ⟨rfl, rfl⟩⟩

/-- On a symbol of the alphabet, a listed state leads to one listed state or nowhere. -/
def Functional (a : Automaton) : Prop :=
  ∀ s ∈ a.states, ∀ x ∈ a.alphabet,
    successors a.transitions s x = [] ∨ ∃ t ∈ a.states, successors a.transitions s x = [t]

theorem functional_of_nodup_keys (htarget : ∀ e ∈ a.transitions, ∃ t ∈ a.states, e.targets = [t])
    (hnodup : (a.transitions.map Transition.key).Nodup) : a.Functional := by
  intro s _ x _
  by_cases hex : ∃ e ∈ a.transitions, e.source = s ∧ e.symbol = x
  · obtain ⟨e, he, rfl, rfl⟩ := hex
    obtain ⟨t, ht, htargets⟩ := htarget e he
    refine Or.inr ⟨t, ht, successors_eq_singleton ⟨e, he, rfl, rfl⟩ fun f hf hsource hsymbol => ?_⟩
    have hkey : f.key = e.key := Prod.ext hsource hsymbol
    rw [List.inj_on_of_nodup_map hnodup hf he hkey, htargets]
  · refine Or.inl (List.eq_nil_iff_forall_not_mem.mpr fun t ht => hex ?_)
    obtain ⟨e, he, hsource, hsymbol, -⟩ := mem_successors.mp ht
    exact ⟨e, he, hsource, hsymbol⟩

theorem Deterministic.functional (h : a.Deterministic) : a.Functional :=
  functional_of_nodup_keys h.target h.nodup_keys

/-- Indistinct states lead to indistinct states, or both lead nowhere. -/
theorem Functional.successors_of_indistinct (h : a.Functional) (hp : p ∈ a.states)
    (hq : q ∈ a.states) (hx : x ∈ a.alphabet) (hpq : a.Indistinct p q) :
    successors a.transitions p x = [] ∧ successors a.transitions q x = [] ∨
      ∃ t ∈ a.states, ∃ u ∈ a.states, successors a.transitions p x = [t] ∧
        successors a.transitions q x = [u] ∧ a.Indistinct t u := by
  have hstep : ∀ word, (successors a.transitions p x).head?.bind (a.outcome · word) =
      (successors a.transitions q x).head?.bind (a.outcome · word) := by
    intro word
    have := hpq (x :: word)
    rwa [outcome_cons, outcome_cons, if_pos hx, if_pos hx] at this
  rcases h p hp x hx with hpx | ⟨t, ht, hpx⟩ <;> rcases h q hq x hx with hqx | ⟨u, hu, hqx⟩ <;>
    rw [hpx, hqx] at hstep
  · exact Or.inl ⟨hpx, hqx⟩
  · exact absurd (hstep []) (by simp)
  · exact absurd (hstep []) (by simp)
  · exact Or.inr ⟨t, ht, u, hu, hpx, hqx, hstep⟩

/-- The listed states are closed under `next`, and their transitions are those of `next`. -/
structure MovesBy (a : Automaton) (next : State → Symbol → State) : Prop where
  /-- The initial state is listed. -/
  initial_mem : a.initial ∈ a.states
  /-- The next state is listed. -/
  next_mem : ∀ s ∈ a.states, ∀ x ∈ a.alphabet, next s x ∈ a.states
  /-- The next state is the one successor. -/
  successors_eq : ∀ s ∈ a.states, ∀ x ∈ a.alphabet, successors a.transitions s x = [next s x]

/-- Where every listed state has one listed successor on every symbol, the successors are those of a
function. -/
theorem exists_movesBy (hinitial : a.initial ∈ a.states)
    (h : ∀ s ∈ a.states, ∀ x ∈ a.alphabet,
      ∃ t ∈ a.states, successors a.transitions s x = [t]) : ∃ next, a.MovesBy next := by
  choose! next hmem hsuccessors using h
  exact ⟨next, hinitial, hmem, hsuccessors⟩

namespace MovesBy

variable {next : State → Symbol → State}

theorem functional (h : a.MovesBy next) : a.Functional := fun s hs x hx =>
  Or.inr ⟨next s x, h.next_mem s hs x hx, h.successors_eq s hs x hx⟩

theorem foldl_mem (h : a.MovesBy next) (hs : s ∈ a.states) (hword : ∀ x ∈ word, x ∈ a.alphabet) :
    word.foldl next s ∈ a.states := by
  induction word generalizing s with
  | nil => exact hs
  | cons x word ih =>
    exact ih (h.next_mem s hs x (hword x List.mem_cons_self))
      fun y hy => hword y (List.mem_cons_of_mem x hy)

/-- On a symbol of the alphabet, a run makes a move and goes on from there. -/
theorem runFrom_cons (h : a.MovesBy next) (hs : s ∈ a.states) (hx : x ∈ a.alphabet) :
    a.runFrom a.index s (x :: word) =
      ⟨s, ⟨x, s, next s x⟩ :: (a.runFrom a.index (next s x) word).moves,
        (a.runFrom a.index (next s x) word).ending⟩ := by
  have hnext : next? a.index s x = some (next s x) := by
    rw [next?, successors_index, h.successors_eq s hs x hx]
    rfl
  simp only [runFrom, hx, if_true, hnext]

/-- A run on symbols of the alphabet ends in the state that the word leads to. -/
theorem ending_runFrom (h : a.MovesBy next) (hs : s ∈ a.states)
    (hword : ∀ x ∈ word, x ∈ a.alphabet) :
    (a.runFrom a.index s word).ending =
      .read (a.isFinal (word.foldl next s)) (word.foldl next s) := by
  induction word generalizing s with
  | nil => rfl
  | cons x word ih =>
    have hx := hword x List.mem_cons_self
    rw [h.runFrom_cons hs hx]
    exact ih (h.next_mem s hs x hx) fun y hy => hword y (List.mem_cons_of_mem x hy)

/-- No run meets a state that leads nowhere, whatever the symbols of its word. -/
theorem ending_runFrom_ne_stuck (h : a.MovesBy next) (hs : s ∈ a.states) :
    (a.runFrom a.index s word).ending ≠ .stuck p x := by
  induction word generalizing s with
  | nil => simp [runFrom]
  | cons y word ih =>
    by_cases hy : y ∈ a.alphabet
    · rw [h.runFrom_cons hs hy]
      exact ih (h.next_mem s hs y hy)
    · simp [runFrom, hy]

/-- A run goes on from where its first part has led. -/
theorem outcome_append (h : a.MovesBy next) (hs : s ∈ a.states)
    (hword : ∀ x ∈ word, x ∈ a.alphabet) :
    a.outcome s (word ++ rest) = a.outcome (word.foldl next s) rest := by
  induction word generalizing s with
  | nil => rfl
  | cons x word ih =>
    have hx := hword x List.mem_cons_self
    rw [List.cons_append, outcome_cons, if_pos hx, h.successors_eq s hs x hx]
    exact ih (h.next_mem s hs x hx) fun y hy => hword y (List.mem_cons_of_mem x hy)

/-- A run on symbols of the alphabet reads to the end. -/
theorem outcome_eq (h : a.MovesBy next) (hs : s ∈ a.states)
    (hword : ∀ x ∈ word, x ∈ a.alphabet) :
    a.outcome s word = some (a.isFinal (word.foldl next s)) := by
  have : a.outcome s (word ++ []) = a.outcome (word.foldl next s) [] := h.outcome_append hs hword
  rwa [List.append_nil] at this

end MovesBy

end Automaton

end Determinize
