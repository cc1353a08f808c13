import Determinize.Proofs.Minimal.Language

/-!
# Partition refinement gives the minimal automaton

What is left of an automaton in which no transition is missing accepts, state by state, what it
accepted before, and any two states that are left accept different words, the initial state and the
trap apart. If every listed state is led to by some word, then what is accepted from the states that
are left are all residuals of the language, so there is one state for each residual. If the initial
state and the trap are both left and indistinct, they share the empty residual.

The subset construction lists only sets that some word leads to, so all of this is true of what it
makes.

## Main results

* `Automaton.residuals_mergedByPartition` — residuals and the states that are left
* `Automaton.minimal_determinized` — separated states, and as many as there are residuals
-/

namespace Determinize

namespace Automaton

variable {a : Automaton} {p q s : State} {next : State → Symbol → State}

/-- The states are separated and as many as the residuals, but for the initial state and the trap:
where both are listed and nothing is accepted, they are two states for one residual. -/
structure Minimal (a : Automaton) : Prop where
  /-- No state is listed twice. -/
  nodup_states : a.states.Nodup
  /-- Any two states other than the initial state and the trap are separated. -/
  separated : ∀ p ∈ a.states, ∀ q ∈ a.states, p ≠ q → ({p, q} : Set State) ≠ {a.initial, .trap} →
    a.Separated p q
  /-- The language has finitely many residuals. -/
  finite_residuals : a.residuals.Finite
  /-- There are as many states as residuals, if something is accepted or the trap is not listed. -/
  length_states : ¬(a.language = 0 ∧ .trap ∈ a.states) → a.states.length = a.residuals.ncard
  /-- There is one state more, if nothing is accepted and the trap is listed. -/
  length_states_of_empty :
    a.language = 0 ∧ .trap ∈ a.states → a.states.length = a.residuals.ncard + 1

/-- As many states as there are values of a function that is injective on them. -/
theorem ncard_image_states {α : Type} {f : State → α} {states : List State}
    (hnodup : states.Nodup) (hinj : ∀ p ∈ states, ∀ q ∈ states, f p = f q → p = q) :
    (f '' {s | s ∈ states}).ncard = states.length := by
  have hcoe : {s | s ∈ states} = (states.toFinset : Set State) := by
    ext s
    simp
  have hinj : Set.InjOn f {s | s ∈ states} := fun p hp q hq => hinj p hp q hq
  rw [hinj.ncard_image, hcoe, Set.ncard_coe_finset, List.toFinset_card_of_nodup hnodup]

/-! ### What is left accepts what it accepted before -/

section Merged

variable (hmoves : a.MovesBy next) (hnodup : a.states.Nodup)
include hmoves hnodup

theorem acceptedFrom_mergedByPartition (hs : s ∈ a.mergedByPartition.states) :
    a.mergedByPartition.acceptedFrom s = a.acceptedFrom s := by
  ext word
  rw [mem_acceptedFrom, mem_acceptedFrom, outcome_mergedByPartition hmoves.functional hnodup
    (mem_states_mergedByPartition.mp hs).2, mem_words, mem_words, alphabet_mergedByPartition]

theorem language_mergedByPartition : a.mergedByPartition.language = a.language := by
  rw [language_eq_acceptedFrom, language_eq_acceptedFrom, initial_mergedByPartition,
    acceptedFrom_mergedByPartition hmoves hnodup (initial_mem_mergedByPartition hmoves.initial_mem)]

/-- States that are left and accept the same words are one state, or the initial state and the
trap. -/
theorem eq_or_of_acceptedFrom_eq (hp : p ∈ a.mergedByPartition.states)
    (hq : q ∈ a.mergedByPartition.states)
    (h : a.mergedByPartition.acceptedFrom p = a.mergedByPartition.acceptedFrom q) :
    p = q ∨ p = a.initial ∧ q = .trap ∨ p = .trap ∧ q = a.initial := by
  rw [acceptedFrom_mergedByPartition hmoves hnodup hp,
    acceptedFrom_mergedByPartition hmoves hnodup hq] at h
  exact eq_or_of_indistinct hmoves.functional hnodup hp hq
    ((hmoves.acceptedFrom_eq_iff (mem_states_mergedByPartition.mp hp).1
      (mem_states_mergedByPartition.mp hq).1).mp h)

/-- If every listed state is led to by some word, the residuals are what is accepted from the states
that are left. -/
theorem residuals_mergedByPartition
    (hreached : ∀ s ∈ a.states, ∃ word ∈ a.words, word.foldl next a.initial = s) :
    a.mergedByPartition.residuals =
      a.mergedByPartition.acceptedFrom '' {s | s ∈ a.mergedByPartition.states} := by
  have hresiduals : a.mergedByPartition.residuals = a.residuals := by
    rw [residuals, residuals, language_mergedByPartition hmoves hnodup, words, words,
      alphabet_mergedByPartition]
  rw [hresiduals, hmoves.residuals_eq_image hreached]
  ext l
  constructor
  · rintro ⟨s, hs, rfl⟩
    obtain ⟨t, ht, hst⟩ :=
      exists_indistinct_mergedByPartition hmoves.functional hnodup hs
    refine ⟨t, ht, ?_⟩
    rw [acceptedFrom_mergedByPartition hmoves hnodup ht]
    exact ((hmoves.acceptedFrom_eq_iff hs (mem_states_mergedByPartition.mp ht).1).mpr hst).symm
  · rintro ⟨t, ht, rfl⟩
    exact ⟨t, (mem_states_mergedByPartition.mp ht).1,
      (acceptedFrom_mergedByPartition hmoves hnodup ht).symm⟩

/-- Two states that are left are separated, unless they are the initial state and the trap. -/
theorem separated_mergedByPartition (hp : p ∈ a.mergedByPartition.states)
    (hq : q ∈ a.mergedByPartition.states) (hne : p ≠ q)
    (hpair : ({p, q} : Set State) ≠ {a.initial, .trap}) : a.mergedByPartition.Separated p q := by
  refine separated_of_acceptedFrom_ne fun heq => ?_
  rcases eq_or_of_acceptedFrom_eq hmoves hnodup hp hq heq with h | ⟨rfl, rfl⟩ | ⟨rfl, rfl⟩
  · exact hne h
  · exact hpair rfl
  · exact hpair (Set.pair_comm _ _)

/-! ### Counting -/

/-- The trap that is left accepts nothing. -/
theorem acceptedFrom_trap_mergedByPartition (htrap : .trap ∈ a.states → a.acceptedFrom .trap = 0)
    (h : .trap ∈ a.mergedByPartition.states) : a.mergedByPartition.acceptedFrom .trap = 0 := by
  rw [acceptedFrom_mergedByPartition hmoves hnodup h]
  exact htrap (mem_states_mergedByPartition.mp h).1

/-- States that are left and accept the same words are one state, unless the trap is left beside an
initial state that accepts nothing either. -/
theorem eq_of_acceptedFrom_eq (htrap : .trap ∈ a.states → a.acceptedFrom .trap = 0)
    (h : ¬(a.mergedByPartition.language = 0 ∧ .trap ∈ a.mergedByPartition.states))
    (hp : p ∈ a.mergedByPartition.states) (hq : q ∈ a.mergedByPartition.states)
    (heq : a.mergedByPartition.acceptedFrom p = a.mergedByPartition.acceptedFrom q) : p = q := by
  have hboth : .trap ∈ a.mergedByPartition.states →
      a.mergedByPartition.acceptedFrom a.initial ≠ a.mergedByPartition.acceptedFrom .trap := by
    intro hmem heq
    rw [acceptedFrom_trap_mergedByPartition hmoves hnodup htrap hmem,
      ← initial_mergedByPartition, ← language_eq_acceptedFrom] at heq
    exact h ⟨heq, hmem⟩
  rcases eq_or_of_acceptedFrom_eq hmoves hnodup hp hq heq with h | ⟨rfl, rfl⟩ | ⟨rfl, rfl⟩
  · exact h
  · exact absurd heq (hboth hq)
  · exact absurd heq.symm (hboth hp)

variable (hreached : ∀ s ∈ a.states, ∃ word ∈ a.words, word.foldl next a.initial = s)
  (htrap : .trap ∈ a.states → a.acceptedFrom .trap = 0)
include hreached htrap

/-- One state is left for each residual, unless the trap is left beside an initial state that
accepts nothing either. -/
theorem length_states_mergedByPartition
    (h : ¬(a.mergedByPartition.language = 0 ∧ .trap ∈ a.mergedByPartition.states)) :
    a.mergedByPartition.states.length = a.mergedByPartition.residuals.ncard := by
  rw [residuals_mergedByPartition hmoves hnodup hreached]
  exact (ncard_image_states (nodup_states_mergedByPartition hnodup) fun p hp q hq heq =>
    eq_of_acceptedFrom_eq hmoves hnodup htrap h hp hq heq).symm

/-- If the trap is left beside an initial state that accepts nothing, it is the one state too
many. -/
theorem length_states_mergedByPartition_of_empty (hinitial : a.initial ≠ .trap)
    (hempty : a.mergedByPartition.language = 0) (hmem : .trap ∈ a.mergedByPartition.states) :
    a.mergedByPartition.states.length = a.mergedByPartition.residuals.ncard + 1 := by
  have hstates := nodup_states_mergedByPartition hnodup
  -- what the trap accepts is accepted from the initial state
  have himage : a.mergedByPartition.acceptedFrom '' {s | s ∈ a.mergedByPartition.states} =
      a.mergedByPartition.acceptedFrom '' {s | s ∈ a.mergedByPartition.states.erase .trap} := by
    refine Set.Subset.antisymm ?_ (Set.image_mono fun s hs => List.mem_of_mem_erase hs)
    rintro _ ⟨s, hs, rfl⟩
    by_cases hst : s = .trap
    · subst hst
      refine ⟨a.initial, (List.mem_erase_of_ne hinitial).mpr
        (initial_mem_mergedByPartition hmoves.initial_mem), ?_⟩
      rw [acceptedFrom_trap_mergedByPartition hmoves hnodup htrap hmem, ← hempty,
        language_eq_acceptedFrom, initial_mergedByPartition]
    · exact ⟨s, (List.mem_erase_of_ne hst).mpr hs, rfl⟩
  have hcount := ncard_image_states (f := a.mergedByPartition.acceptedFrom)
    (hstates.erase .trap) fun p hp q hq heq => by
      obtain ⟨hptrap, hp⟩ := hstates.mem_erase_iff.mp hp
      obtain ⟨hqtrap, hq⟩ := hstates.mem_erase_iff.mp hq
      rcases eq_or_of_acceptedFrom_eq hmoves hnodup hp hq heq with h | ⟨-, h⟩ | ⟨h, -⟩
      · exact h
      · exact absurd h hqtrap
      · exact absurd h hptrap
  have hpos := List.length_pos_of_mem hmem
  rw [residuals_mergedByPartition hmoves hnodup hreached, himage, hcount,
    List.length_erase_of_mem hmem]
  omega

/-- What is left is minimal, if every state is led to by some word and the trap accepts nothing. -/
theorem minimal_mergedByPartition (hinitial : a.initial ≠ .trap) : a.mergedByPartition.Minimal where
  nodup_states := nodup_states_mergedByPartition hnodup
  separated p hp q hq hne hpair := by
    rw [initial_mergedByPartition] at hpair
    exact separated_mergedByPartition hmoves hnodup hp hq hne hpair
  finite_residuals := by
    rw [residuals_mergedByPartition hmoves hnodup hreached]
    exact (List.finite_toSet _).image _
  length_states := length_states_mergedByPartition hmoves hnodup hreached htrap
  length_states_of_empty h :=
    length_states_mergedByPartition_of_empty hmoves hnodup hreached htrap hinitial h.1 h.2

end Merged

end Automaton

/-! ### What the subset construction makes -/

namespace Subset

variable {a : Automaton} {s : State}

/-- From the trap nothing is accepted. -/
theorem acceptedFrom_trap (h : a.Plain) (htrap : .trap ∈ (complete a).states) :
    (complete a).acceptedFrom .trap = 0 := by
  have hfold : ∀ word : List Symbol, word.foldl (follow a.index) .trap = .trap := by
    intro word
    induction word with
    | nil => rfl
    | cons x word ih => rw [List.foldl_cons, follow_trap h, ih]
  have hnot : (complete a).isFinal .trap = false := by
    refine Bool.eq_false_iff.mpr fun hfinal => ?_
    obtain ⟨-, n, hn, -⟩ := (isFinal_automaton_of_plain h).mp hfinal
    exact absurd hn List.not_mem_nil
  ext word
  rw [Automaton.mem_acceptedFrom]
  refine iff_of_false ?_ (Language.notMem_zero word)
  rintro ⟨hword, haccepted⟩
  rw [(movesBy_course h).outcome_eq htrap hword, hfold, hnot] at haccepted
  exact absurd haccepted (by simp)

end Subset

namespace Automaton

variable {a : Automaton}

/-- **Partition refinement gives the minimal automaton**: of the states that it leaves of a subset
construction, any two other than the initial state and the trap are separated, and there are as many
as the language has residuals, with one more exactly where nothing is accepted and the trap is
left. -/
theorem minimal_determinized (hwell : a.WellFormed) (hsimple : a.Simple) :
    (a.determinized.automaton.minimized .byBlocks).Minimal := by
  have hplain := hsimple.plain_eliminated
  have hinitial : (Subset.complete a.eliminated).initial ≠ .trap := by
    obtain ⟨n, hn⟩ := exists_of_isSimple hplain.initial
    exact hn ▸ State.noConfusion
  exact minimal_mergedByPartition (Subset.movesBy_course hplain)
    (wellFormed_determinizedWithin a none).nodup_states
    (fun s hs => Subset.exists_word_of_mem_states (wellFormed_eliminated hwell).not_isEpsilon hs)
    (Subset.acceptedFrom_trap hplain) hinitial

/-- Three states in a row, none of them final. -/
def deadEnd : Automaton :=
  of (.simple "A") [] [.simple "A", .simple "B", .simple "C"] ["0"]
    [⟨.simple "A", [.simple "B", .simple "C"], "0"⟩, ⟨.simple "B", [.simple "C"], "0"⟩]

/-- Of the four states of the cycle one is left for each parity. Of the row, where no word tells any
two states apart, the initial state is left and the trap beside it. -/
theorem minimal_determinized_fourCycle_deadEnd :
    (fourCycle.WellFormed ∧ fourCycle.Simple ∧
      (fourCycle.determinized.automaton.minimized .byBlocks).Minimal ∧
      (fourCycle.determinized.automaton.minimized .byBlocks).states =
        [.simple "q0", .simple "q1"]) ∧
    deadEnd.WellFormed ∧ deadEnd.Simple ∧
      (deadEnd.determinized.automaton.minimized .byBlocks).Minimal ∧
      deadEnd.determinized.automaton.states.length = 4 ∧
      (deadEnd.determinized.automaton.minimized .byBlocks).states = [.simple "A", .trap] := by
  have hcycle : fourCycle.WellFormed := ⟨by decide, by decide, by decide, by decide⟩
  have hrow : deadEnd.WellFormed := wellFormed_of ..
  exact ⟨⟨hcycle, by decide, minimal_determinized hcycle (by decide), by decide⟩,
    hrow, by decide, minimal_determinized hrow (by decide), by decide, by decide⟩

end Automaton

end Determinize
