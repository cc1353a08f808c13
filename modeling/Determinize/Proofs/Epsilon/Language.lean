import Determinize.Proofs.Run.Reached

/-!
# Removing epsilon transitions keeps the language

The automaton without epsilon transitions starts in the bare initial state and not in its closure,
but each of its steps takes the closure before and after reading. So after the empty word its set
is short of what is reached silently, and after every other word the two runs are in the same set.
Only the initial state may have become final; that is harmless later on, since a set that holds the
initial state holds its whole closure too.

## Main definitions

* `Automaton.SourcesListed` — every transition leaves a listed state
* `Automaton.Quiet` — no epsilon transition leads anywhere

## Main results

* `Automaton.mem_successors_eliminated` — a step of the new automaton, in terms of the old one
* `Automaton.mem_reached_eliminated` — the sets of the two runs, up to closure
* `Automaton.accepts_eliminated` — the two automata accept the same words
-/

namespace Determinize

namespace Automaton

/-- Every transition leaves a listed state. -/
def SourcesListed (a : Automaton) : Prop := ∀ e ∈ a.transitions, e.source ∈ a.states

instance (a : Automaton) : Decidable a.SourcesListed :=
  inferInstanceAs (Decidable (∀ e ∈ a.transitions, e.source ∈ a.states))

/-- No epsilon transition leads anywhere. -/
def Quiet (a : Automaton) : Prop := ∀ e ∈ a.transitions, e.isEpsilon = true → e.targets = []

variable {a : Automaton} {s t : State} {x : Symbol} {word : List Symbol} {e : Transition}

/-! ### Automata whose epsilon transitions lead nowhere -/

theorem Quiet.eq_of_epsilonReach (h : a.Quiet) (hst : EpsilonReach a.transitions s t) : t = s :=
  hst.eq_of_not_leaves fun e he hsilent _ => h e he hsilent

theorem Quiet.mem_symbolIndex_iff (h : a.Quiet) :
    t ∈ a.symbolIndex.successors s x ↔ t ∈ successors a.transitions s x := by
  rw [mem_successors_symbolIndex, mem_successors]
  constructor
  · rintro ⟨e, he, -, hs, hx, ht⟩
    exact ⟨e, he, hs, hx, ht⟩
  · rintro ⟨e, he, hs, hx, ht⟩
    refine ⟨e, he, ?_, hs, hx, ht⟩
    cases hsilent : e.isEpsilon with
    | false => rfl
    | true =>
      rw [h e he hsilent] at ht
      exact absurd ht List.not_mem_nil

theorem Quiet.mem_reached_nil (h : a.Quiet) : t ∈ a.reached [] ↔ t = a.initial := by
  rw [Automaton.mem_reached_nil]
  constructor
  · exact h.eq_of_epsilonReach
  · rintro rfl
    exact .refl

theorem Quiet.mem_reached_append_singleton (h : a.Quiet) :
    t ∈ a.reached (word ++ [x]) ↔ ∃ s ∈ a.reached word, t ∈ successors a.transitions s x := by
  rw [Automaton.mem_reached_append_singleton]
  constructor
  · rintro ⟨s, hs, u, hu, hut⟩
    obtain rfl := h.eq_of_epsilonReach hut
    exact ⟨s, hs, h.mem_symbolIndex_iff.mp hu⟩
  · rintro ⟨s, hs, ht⟩
    exact ⟨s, hs, t, h.mem_symbolIndex_iff.mpr ht, .refl⟩

/-! ### The parts of the automaton without epsilon transitions -/

theorem eliminated_of_not_hasEpsilon (h : a.hasEpsilon = false) : a.eliminated = a := by
  simp [eliminated, h]

@[simp] theorem initial_eliminated (a : Automaton) : a.eliminated.initial = a.initial := by
  rw [eliminated]
  split <;> rfl

theorem mem_alphabet_eliminated (hx : x.isEpsilon = false) :
    x ∈ a.eliminated.alphabet ↔ x ∈ a.alphabet := by
  rw [eliminated]
  split
  · simp [of, List.mem_eraseDups, hx]
  · rfl

theorem mem_transitions_eliminated (h : a.hasEpsilon = true) :
    e ∈ a.eliminated.transitions ↔ ∃ s ∈ a.states, ∃ x ∈ a.alphabet,
      ⟨s, a.closedSuccessors a.symbolIndex (closure a.transitions s) x, x⟩ = e := by
  simp [eliminated, h, of, closedRow, List.mem_flatMap]

theorem exists_mem_closure_initial_iff :
    (∃ s ∈ closure a.transitions a.initial, s ∈ a.finals) ↔
      ∃ s ∈ a.finals, EpsilonReach a.transitions a.initial s := by
  simp only [mem_closure, and_comm]

theorem mem_finals_eliminated (h : a.hasEpsilon = true) :
    t ∈ a.eliminated.finals ↔
      t ∈ a.finals ∨ t = a.initial ∧ ∃ s ∈ a.finals, EpsilonReach a.transitions a.initial s := by
  simp only [eliminated, h, if_true, of, closedFinals, List.mem_eraseDups]
  split
  · rename_i hnew
    simp [exists_mem_closure_initial_iff.mp hnew.2]
  · rename_i hold
    refine ⟨Or.inl, fun ht => ht.elim id ?_⟩
    rintro ⟨rfl, hreach⟩
    by_contra hmem
    exact hold ⟨hmem, exists_mem_closure_initial_iff.mpr hreach⟩

theorem mem_closedSuccessors {l : List State} :
    t ∈ a.closedSuccessors a.symbolIndex l x ↔
      ∃ s ∈ l, ∃ u ∈ a.symbolIndex.successors s x, EpsilonReach a.transitions u t := by
  simp only [closedSuccessors, mem_ascending, mem_closureFrom, List.mem_flatMap]
  constructor
  · rintro ⟨u, ⟨s, hs, hu⟩, hut⟩
    exact ⟨s, hs, u, hu, hut⟩
  · rintro ⟨s, hs, u, hu, hut⟩
    exact ⟨u, ⟨s, hs, hu⟩, hut⟩

/-- Nothing in the table of the reading transitions is found under an epsilon symbol. -/
theorem not_isEpsilon_of_mem_symbolIndex (h : t ∈ a.symbolIndex.successors s x) :
    x.isEpsilon = false := by
  obtain ⟨e, -, hread, -, rfl, -⟩ := mem_successors_symbolIndex.mp h
  exact hread

theorem quiet_eliminated (a : Automaton) : a.eliminated.Quiet := by
  intro e he hsilent
  cases h : a.hasEpsilon with
  | false =>
    rw [eliminated_of_not_hasEpsilon h] at he
    have : a.hasEpsilon = true := hasEpsilon_iff.mpr ⟨e, he, hsilent⟩
    rw [h] at this
    exact absurd this Bool.false_ne_true
  | true =>
    obtain ⟨s, -, x, -, rfl⟩ := (mem_transitions_eliminated h).mp he
    refine List.eq_nil_iff_forall_not_mem.mpr fun t ht => ?_
    obtain ⟨r, -, u, hu, -⟩ := mem_closedSuccessors.mp ht
    have hread := not_isEpsilon_of_mem_symbolIndex hu
    rw [Transition.isEpsilon, hread] at hsilent
    exact absurd hsilent Bool.false_ne_true

/-! ### A step, and a run -/

theorem exists_of_mem_successors_eliminated (h : a.hasEpsilon = true)
    (hmem : t ∈ successors a.eliminated.transitions s x) :
    ∃ r, EpsilonReach a.transitions s r ∧
      ∃ u ∈ a.symbolIndex.successors r x, EpsilonReach a.transitions u t := by
  obtain ⟨e, he, hs, hsymbol, ht⟩ := mem_successors.mp hmem
  obtain ⟨s, -, x, -, rfl⟩ := (mem_transitions_eliminated h).mp he
  subst hs hsymbol
  obtain ⟨r, hr, hu⟩ := mem_closedSuccessors.mp ht
  exact ⟨r, mem_closure.mp hr, hu⟩

/-- A step of the automaton without epsilon transitions takes the closure, then reads, then takes
the closure again. For a state that is not listed this is nothing, as no transition leaves it. -/
theorem mem_successors_eliminated (hsources : a.SourcesListed) (h : a.hasEpsilon = true)
    (hx : x ∈ a.alphabet) :
    t ∈ successors a.eliminated.transitions s x ↔
      ∃ r, EpsilonReach a.transitions s r ∧
        ∃ u ∈ a.symbolIndex.successors r x, EpsilonReach a.transitions u t := by
  refine ⟨exists_of_mem_successors_eliminated h, ?_⟩
  rintro ⟨r, hr, u, hu, hut⟩
  have hs : s ∈ a.states := by
    by_contra hs
    have hleaves : ∀ e ∈ a.transitions, e.source ≠ s := fun e he hsrc =>
      hs (hsrc ▸ hsources e he)
    obtain rfl := hr.eq_of_not_leaves fun e he _ hsrc => absurd hsrc (hleaves e he)
    obtain ⟨e, he, -, hsrc, -⟩ := mem_successors_symbolIndex.mp hu
    exact hleaves e he hsrc
  refine mem_successors.mpr
    ⟨_, (mem_transitions_eliminated h).mpr ⟨s, hs, x, hx, rfl⟩, rfl, rfl, ?_⟩
  exact mem_closedSuccessors.mpr ⟨r, mem_closure.mpr hr, u, hu, hut⟩

/-- After every word the closure of the one set is the other one. -/
theorem mem_reached_eliminated (hsources : a.SourcesListed) (h : a.hasEpsilon = true)
    (hword : ∀ x ∈ word, x ∈ a.alphabet) :
    (∃ s ∈ a.eliminated.reached word, EpsilonReach a.transitions s t) ↔ t ∈ a.reached word := by
  have hquiet := a.quiet_eliminated
  induction word using List.reverseRecOn generalizing t with
  | nil => simp [hquiet.mem_reached_nil, mem_reached_nil]
  | append_singleton word x ih =>
    have hx : x ∈ a.alphabet := hword x (by simp)
    have ih := fun {t} => @ih t fun y hy => hword y (List.mem_append_left _ hy)
    simp only [hquiet.mem_reached_append_singleton, mem_successors_eliminated hsources h hx,
      mem_reached_append_singleton]
    constructor
    · rintro ⟨v, ⟨s, hs, r, hsr, u, hu, huv⟩, hvt⟩
      exact ⟨r, ih.mp ⟨s, hs, hsr⟩, u, hu, huv.trans hvt⟩
    · rintro ⟨r, hr, u, hu, hut⟩
      obtain ⟨s, hs, hsr⟩ := ih.mpr hr
      exact ⟨t, ⟨s, hs, r, hsr, u, hu, hut⟩, .refl⟩

/-- After a word that is not empty the two sets have the same members. -/
theorem mem_reached_eliminated_append_singleton (hsources : a.SourcesListed)
    (h : a.hasEpsilon = true) (hword : ∀ y ∈ word ++ [x], y ∈ a.alphabet) :
    t ∈ a.eliminated.reached (word ++ [x]) ↔ t ∈ a.reached (word ++ [x]) := by
  have hx : x ∈ a.alphabet := hword x (by simp)
  have hquiet := a.quiet_eliminated
  rw [← mem_reached_eliminated hsources h hword]
  constructor
  · intro ht
    exact ⟨t, ht, .refl⟩
  · -- the last step of the run has closed its set
    rintro ⟨s, hs, hst⟩
    obtain ⟨q, hq, hqs⟩ := hquiet.mem_reached_append_singleton.mp hs
    obtain ⟨r, hqr, u, hu, hus⟩ := (mem_successors_eliminated hsources h hx).mp hqs
    refine hquiet.mem_reached_append_singleton.mpr ⟨q, hq, ?_⟩
    exact (mem_successors_eliminated hsources h hx).mpr ⟨r, hqr, u, hu, hus.trans hst⟩

/-! ### Acceptance -/

theorem exists_final_eliminated_nil (h : a.hasEpsilon = true) :
    (∃ t ∈ a.eliminated.reached [], t ∈ a.eliminated.finals) ↔
      ∃ t ∈ a.reached [], t ∈ a.finals := by
  simp only [mem_finals_eliminated h, a.quiet_eliminated.mem_reached_nil, initial_eliminated,
    mem_reached_nil]
  constructor
  · rintro ⟨t, rfl, ht | ⟨-, s, hs, hreach⟩⟩
    · exact ⟨_, .refl, ht⟩
    · exact ⟨s, hreach, hs⟩
  · rintro ⟨t, hreach, ht⟩
    exact ⟨a.initial, rfl, Or.inr ⟨rfl, t, ht, hreach⟩⟩

/-- The initial state may have become final, but where it is reached by reading its closure is
reached too. -/
theorem exists_final_eliminated_append_singleton (hsources : a.SourcesListed)
    (h : a.hasEpsilon = true) (hword : ∀ y ∈ word ++ [x], y ∈ a.alphabet) :
    (∃ t ∈ a.eliminated.reached (word ++ [x]), t ∈ a.eliminated.finals) ↔
      ∃ t ∈ a.reached (word ++ [x]), t ∈ a.finals := by
  simp only [mem_finals_eliminated h, mem_reached_eliminated_append_singleton hsources h hword]
  constructor
  · rintro ⟨t, ht, hfinal | ⟨rfl, s, hs, hreach⟩⟩
    · exact ⟨t, ht, hfinal⟩
    · exact ⟨s, mem_reached_of_epsilonReach ht hreach, hs⟩
  · rintro ⟨t, ht, hfinal⟩
    exact ⟨t, ht, Or.inl hfinal⟩

/-- The one run is in a final state after the word exactly if the other one is. -/
theorem exists_final_eliminated (hsources : a.SourcesListed)
    (hword : ∀ x ∈ word, x ∈ a.alphabet) :
    (∃ t ∈ a.eliminated.reached word, t ∈ a.eliminated.finals) ↔
      ∃ t ∈ a.reached word, t ∈ a.finals := by
  cases h : a.hasEpsilon with
  | false => rw [eliminated_of_not_hasEpsilon h]
  | true =>
    cases word using List.reverseRecOn with
    | nil => exact exists_final_eliminated_nil h
    | append_singleton word x => exact exists_final_eliminated_append_singleton hsources h hword

/-- **Removing epsilon transitions keeps the language.** Nothing is assumed of the epsilon
transitions themselves. -/
theorem accepts_eliminated (hsources : a.SourcesListed) (hword : ∀ x ∈ word, x ∈ a.alphabet) :
    a.eliminated.accepts word = a.accepts word := by
  rw [Bool.eq_iff_iff, accepts_iff, accepts_iff]
  exact exists_final_eliminated hsources hword

/-- Three states on a silent cycle through the final one, in three spellings of the symbol. -/
def silentCycle : Automaton :=
  of (.simple "A") [.simple "C"] [.simple "A", .simple "B", .simple "C"] ["0", "1"]
    [⟨.simple "A", [.simple "B"], "λ"⟩, ⟨.simple "B", [.simple "C"], ""⟩,
      ⟨.simple "C", [.simple "A"], " λ "⟩, ⟨.simple "B", [.simple "B"], "0"⟩]

theorem accepts_eliminated_silentCycle :
    silentCycle.SourcesListed ∧ (∀ x ∈ ["0", "0"], x ∈ silentCycle.alphabet) ∧
      silentCycle.eliminated.accepts ["0", "0"] = silentCycle.accepts ["0", "0"] ∧
      silentCycle.accepts ["0", "0"] = true :=
  ⟨by decide, by decide, accepts_eliminated (by decide) (by decide), by decide⟩

end Automaton

end Determinize
