import Determinize.Proofs.Subset.Complete
import Mathlib.Data.List.ProdSigma

/-!
# The automaton without epsilon transitions, exactly

Removing epsilon transitions replaces the transitions of an automaton by one for each listed state
and each symbol of the alphabet, the states going slowest. Its targets are all the states that are
reached by epsilon transitions, then one transition on the symbol, then epsilon transitions, in
ascending order; they need not be listed, and there may be none. All else stays as it is, except
that the initial state becomes final where it reaches a final state silently.

These conditions are stated here without the algorithm: reachability is an inductive relation, and
no closure, table or search occurs in them. They leave nothing open, so there is one automaton that
meets them. As the alphabet holds no epsilon symbol, it has no epsilon transition, and removing
epsilon transitions again changes nothing.

## Main definitions

* `Automaton.PassesTo` — epsilon transitions, one transition on a symbol, epsilon transitions
* `Automaton.ClosedForm` — what the automaton without epsilon transitions is asked to be

## Main results

* `Automaton.ClosedForm.unique` — there is one such automaton at most
* `Automaton.closedForm_eliminated` — removing epsilon transitions gives it
* `Automaton.eliminated_exact` — both together, and that the result is left as it is
-/

namespace Determinize

/-- Lists are equal if their images are and an element of the one and an element of the other with
the same image are equal. -/
theorem eq_of_map_eq_map {α β : Type} {f : α → β} {l k : List α} (hmap : l.map f = k.map f)
    (h : ∀ a ∈ l, ∀ b ∈ k, f a = f b → a = b) : l = k := by
  induction l generalizing k with
  | nil => exact (List.map_eq_nil_iff.mp hmap.symm).symm
  | cons a l ih =>
    cases k with
    | nil => exact absurd hmap (by simp)
    | cons b k =>
      rw [List.map_cons, List.map_cons, List.cons.injEq] at hmap
      obtain rfl := h a List.mem_cons_self b List.mem_cons_self hmap.1
      rw [ih hmap.2 fun c hc d hd =>
        h c (List.mem_cons_of_mem _ hc) d (List.mem_cons_of_mem _ hd)]

namespace Automaton

variable {a b c : Automaton} {s t : State} {x : Symbol} {e : Transition}

/-- From `s` epsilon transitions, then one transition on `x`, then epsilon transitions lead to
`t`. -/
def PassesTo (a : Automaton) (s : State) (x : Symbol) (t : State) : Prop :=
  ∃ r, EpsilonReach a.transitions s r ∧
    ∃ e ∈ a.transitions, e.source = r ∧ e.symbol = x ∧
      ∃ u ∈ e.targets, EpsilonReach a.transitions u t

/-- The automaton `b` is `a` with one transition for each listed state and symbol, which takes the
place of all epsilon transitions before and after reading the symbol. -/
structure ClosedForm (a b : Automaton) : Prop where
  /-- The initial state stays as it is. -/
  initial : b.initial = a.initial
  /-- The listed states stay as they are. -/
  states : b.states = a.states
  /-- The alphabet stays as it is. -/
  alphabet : b.alphabet = a.alphabet
  /-- There is one transition for each listed state and symbol, state by state, and for each state
  symbol by symbol. -/
  keys : b.transitions.map Transition.key = a.states ×ˢ a.alphabet
  /-- No two transitions leave the same state on the same symbol. -/
  nodup_keys : (b.transitions.map Transition.key).Nodup
  /-- Targets are in order, and none occurs twice. -/
  ascending : ∀ e ∈ b.transitions, Ascending e.targets
  /-- The targets are the states passed to. -/
  mem_targets : ∀ e ∈ b.transitions, ∀ t, t ∈ e.targets ↔ a.PassesTo e.source e.symbol t
  /-- The initial state becomes final if it was not and a final state is reached from it
  silently. -/
  finals_of_reach : a.initial ∉ a.finals →
    (∃ s ∈ a.finals, EpsilonReach a.transitions a.initial s) → b.finals = a.finals ++ [a.initial]
  /-- In all other cases the final states stay as they are. -/
  finals_of_not_reach : (a.initial ∈ a.finals ∨
    ∀ s ∈ a.finals, ¬EpsilonReach a.transitions a.initial s) → b.finals = a.finals

/-! ### One closed form at most -/

theorem ClosedForm.finals_eq (hb : a.ClosedForm b) (hc : a.ClosedForm c) : b.finals = c.finals := by
  by_cases hinitial : a.initial ∈ a.finals
  · rw [hb.finals_of_not_reach (Or.inl hinitial), hc.finals_of_not_reach (Or.inl hinitial)]
  · by_cases hreach : ∃ s ∈ a.finals, EpsilonReach a.transitions a.initial s
    · rw [hb.finals_of_reach hinitial hreach, hc.finals_of_reach hinitial hreach]
    · have hnone : ∀ s ∈ a.finals, ¬EpsilonReach a.transitions a.initial s :=
        fun s hs hst => hreach ⟨s, hs, hst⟩
      rw [hb.finals_of_not_reach (Or.inr hnone), hc.finals_of_not_reach (Or.inr hnone)]

theorem ClosedForm.transitions_eq (hb : a.ClosedForm b) (hc : a.ClosedForm c) :
    b.transitions = c.transitions := by
  refine eq_of_map_eq_map (hb.keys.trans hc.keys.symm) fun e he d hd hkey => ?_
  obtain ⟨hsource, hsymbol⟩ := Prod.ext_iff.mp hkey
  have htargets : e.targets = d.targets := by
    refine (hb.ascending e he).eq_of_mem_iff (hc.ascending d hd) fun t => ?_
    rw [hb.mem_targets e he, hc.mem_targets d hd, show e.source = d.source from hsource,
      show e.symbol = d.symbol from hsymbol]
  cases e
  cases d
  simp_all [Transition.key]

/-- The conditions leave nothing open. -/
theorem ClosedForm.unique (hb : a.ClosedForm b) (hc : a.ClosedForm c) : b = c := by
  have hinitial := hb.initial.trans hc.initial.symm
  have hstates := hb.states.trans hc.states.symm
  have halphabet := hb.alphabet.trans hc.alphabet.symm
  have hfinals := hb.finals_eq hc
  have htransitions := hb.transitions_eq hc
  cases b
  cases c
  simp_all

theorem ClosedForm.hasEpsilon_eq_false (hb : a.ClosedForm b) (h : a.WellFormed) :
    b.hasEpsilon = false := by
  rw [Bool.eq_false_iff, ne_eq, hasEpsilon_iff]
  rintro ⟨e, he, hsilent⟩
  have hkey : e.key ∈ a.states ×ˢ a.alphabet := hb.keys ▸ List.mem_map_of_mem he
  have hread : e.symbol.isEpsilon = false := h.not_isEpsilon _ (List.mem_product.mp hkey).2
  rw [Transition.isEpsilon, hread] at hsilent
  exact absurd hsilent Bool.false_ne_true

/-! ### The automaton without epsilon transitions is a closed form -/

theorem transitions_eliminated (heps : a.hasEpsilon = true) :
    a.eliminated.transitions = a.states.flatMap (a.closedRow a.symbolIndex) := by
  simp [eliminated, heps, of]

theorem map_key_eliminated (heps : a.hasEpsilon = true) :
    a.eliminated.transitions.map Transition.key = a.states ×ˢ a.alphabet := by
  rw [transitions_eliminated heps, List.map_flatMap]
  refine congrArg a.states.flatMap (funext fun s => ?_)
  rw [closedRow, List.map_map]
  rfl

theorem mem_symbolIndex_of_mem_alphabet (h : a.WellFormed) (hx : x ∈ a.alphabet) :
    t ∈ a.symbolIndex.successors s x ↔
      ∃ e ∈ a.transitions, e.source = s ∧ e.symbol = x ∧ t ∈ e.targets := by
  rw [mem_successors_symbolIndex]
  constructor
  · rintro ⟨e, he, -, hsource, hsymbol, ht⟩
    exact ⟨e, he, hsource, hsymbol, ht⟩
  · rintro ⟨e, he, hsource, rfl, ht⟩
    exact ⟨e, he, h.not_isEpsilon _ hx, hsource, rfl, ht⟩

theorem mem_closedSuccessors_closure_iff (h : a.WellFormed) (hx : x ∈ a.alphabet) :
    t ∈ a.closedSuccessors a.symbolIndex (closure a.transitions s) x ↔ a.PassesTo s x t := by
  simp only [mem_closedSuccessors, mem_closure, mem_symbolIndex_of_mem_alphabet h hx]
  constructor
  · rintro ⟨r, hsr, u, ⟨e, he, hsource, hsymbol, hu⟩, hut⟩
    exact ⟨r, hsr, e, he, hsource, hsymbol, u, hu, hut⟩
  · rintro ⟨r, hsr, e, he, hsource, hsymbol, u, hu, hut⟩
    exact ⟨r, hsr, u, ⟨e, he, hsource, hsymbol, hu⟩, hut⟩

theorem finals_eliminated (h : a.WellFormed) (heps : a.hasEpsilon = true) :
    a.eliminated.finals = a.closedFinals := by
  have hnodup : a.closedFinals.Nodup := by
    rw [closedFinals]
    split
    · rename_i hnew
      refine List.nodup_append.mpr ⟨h.nodup_finals, List.nodup_singleton _, fun s hs t ht hst => ?_⟩
      obtain rfl := List.mem_singleton.mp ht
      exact hnew.1 (hst ▸ hs)
    · exact h.nodup_finals
  rw [eliminated, if_pos heps]
  exact eraseDups_eq_self hnodup

/-- Removing epsilon transitions makes the closed form. -/
theorem closedForm_eliminated (h : a.WellFormed) (heps : a.hasEpsilon = true) :
    a.ClosedForm a.eliminated where
  initial := initial_eliminated a
  states := by
    rw [eliminated, if_pos heps]
    exact eraseDups_eq_self h.nodup_states
  alphabet := h.alphabet_eliminated
  keys := map_key_eliminated heps
  nodup_keys := by
    rw [map_key_eliminated heps]
    exact h.nodup_states.product h.nodup_alphabet
  ascending e he := by
    obtain ⟨s, -, x, -, rfl⟩ := (mem_transitions_eliminated heps).mp he
    exact pairwise_ascending _
  mem_targets e he t := by
    obtain ⟨s, -, x, hx, rfl⟩ := (mem_transitions_eliminated heps).mp he
    exact mem_closedSuccessors_closure_iff h hx
  finals_of_reach hinitial hreach := by
    rw [finals_eliminated h heps, closedFinals,
      if_pos ⟨hinitial, exists_mem_closure_initial_iff.mpr hreach⟩]
  finals_of_not_reach hnot := by
    rw [finals_eliminated h heps, closedFinals, if_neg]
    rintro ⟨hinitial, hclosure⟩
    obtain ⟨s, hs, hst⟩ := exists_mem_closure_initial_iff.mp hclosure
    exact hnot.elim hinitial fun hnone => hnone s hs hst

/-- **Removing epsilon transitions makes the closed form of an automaton**, and nothing else is one.
The result has no epsilon transition, and removing epsilon transitions from it changes nothing. -/
theorem eliminated_exact (h : a.WellFormed) (heps : a.hasEpsilon = true) :
    (∀ b, a.ClosedForm b ↔ b = a.eliminated) ∧
      a.eliminated.hasEpsilon = false ∧
      a.eliminated.eliminated = a.eliminated := by
  have hclosed := closedForm_eliminated h heps
  have hsilent := hclosed.hasEpsilon_eq_false h
  refine ⟨fun b => ⟨fun hb => hb.unique hclosed, ?_⟩, hsilent, eliminated_of_not_hasEpsilon hsilent⟩
  rintro rfl
  exact hclosed

/-- Silent transitions to a state that is not listed, and from another one back. -/
def silentDetour : Automaton :=
  of (.simple "A") [.simple "C"] [.simple "A", .simple "B"] ["0", "1"]
    [⟨.simple "A", [.simple "D", .simple "B"], "λ"⟩, ⟨.simple "D", [.simple "C"], "0"⟩,
      ⟨.simple "C", [.simple "A"], ""⟩, ⟨.simple "A", [.simple "C"], " "⟩]

theorem eliminated_exact_silentDetour :
    silentDetour.WellFormed ∧ silentDetour.hasEpsilon = true ∧
      silentDetour.ClosedForm silentDetour.eliminated ∧
      silentDetour.eliminated.transitions =
        [⟨.simple "A", [.simple "A", .simple "B", .simple "C", .simple "D"], "0"⟩,
          ⟨.simple "A", [], "1"⟩, ⟨.simple "B", [], "0"⟩, ⟨.simple "B", [], "1"⟩] ∧
      silentDetour.eliminated.finals = [.simple "C", .simple "A"] ∧
      silentDetour.eliminated.eliminated = silentDetour.eliminated := by
  have hwell : silentDetour.WellFormed := wellFormed_of ..
  obtain ⟨hclosed, -, hagain⟩ := eliminated_exact hwell (by decide)
  exact ⟨hwell, by decide, (hclosed _).mpr rfl, by decide, by decide, hagain⟩

end Automaton

end Determinize
