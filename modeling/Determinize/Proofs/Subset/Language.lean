import Determinize.Proofs.Subset.Automaton

/-!
# The subset construction keeps the language

After a word the deterministic automaton is in the set that was followed to, and this set stands
for the states that the given automaton can be in. So the one run is in a final set exactly when
the other one is in a final state. A symbol on which nothing can be read stops both: the
deterministic run since it is not in the alphabet, the other one since no state is left.

## Main definitions

* `Automaton.SymbolsListed` — every symbol that is read is in the alphabet

## Main results

* `Subset.accepted_run_complete` — the two runs on symbols of the alphabet
* `Automaton.accepted_run_determinized` — the two automata accept the same words
-/

namespace Determinize

namespace Automaton

/-- Every symbol that a transition reads is in the alphabet. -/
def SymbolsListed (a : Automaton) : Prop :=
  ∀ e ∈ a.transitions, e.isEpsilon = false → e.symbol ∈ a.alphabet

instance (a : Automaton) : Decidable a.SymbolsListed :=
  inferInstanceAs (Decidable (∀ e ∈ a.transitions, e.isEpsilon = false → e.symbol ∈ a.alphabet))

end Automaton

namespace Subset

variable {a : Automaton} {word : List Symbol}

/-- On symbols of the alphabet, the run of the deterministic automaton accepts if a part of the set
that was followed to is final. -/
theorem accepted_run_complete_iff (hmoves : (complete a).MovesBy (follow a.index))
    (hword : ∀ x ∈ word, x ∈ (complete a).alphabet) :
    ((complete a).run word).accepted = true ↔
      ∃ p ∈ (word.foldl (follow a.index) a.initial).parts, p ∈ a.finals := by
  have hmem : word.foldl (follow a.index) a.initial ∈ (complete a).states :=
    hmoves.foldl_mem hmoves.initial_mem hword
  rw [Automaton.accepted_run, hmoves.outcome_eq hmoves.initial_mem hword, Option.getD_some]
  exact isFinal_automaton.trans (and_iff_right (mem_states_automaton.mp hmem))

/-- So it accepts exactly if some run of the given automaton ends in a final state. -/
theorem accepted_run_complete (h : a.Plain) (hquiet : a.Quiet)
    (hword : ∀ x ∈ word, x ∈ (complete a).alphabet) :
    ((complete a).run word).accepted = true ↔ ∃ t ∈ a.reached word, t ∈ a.finals := by
  rw [accepted_run_complete_iff (movesBy_course h) hword,
    exists_mem_parts_foldl_iff h hquiet h.trap_notMem_finals]

end Subset

namespace Automaton

variable {a : Automaton} {x : Symbol}

theorem mem_alphabet_determinized :
    x ∈ a.determinized.automaton.alphabet ↔ x ∈ a.alphabet ∧ x.isEpsilon = false := by
  rw [determinized_automaton, Subset.mem_alphabet_automaton]
  exact and_congr_left fun hx => mem_alphabet_eliminated hx

/-- **The subset construction keeps the language**, on every word, whatever symbols it is made
of. -/
theorem accepted_run_determinized (hsimple : a.Simple) (hsources : a.SourcesListed)
    (hsymbols : a.SymbolsListed) (word : List Symbol) :
    (a.determinized.automaton.run word).accepted = a.accepts word := by
  by_cases hword : ∀ x ∈ word, x ∈ a.determinized.automaton.alphabet
  · rw [Bool.eq_iff_iff, accepts_iff, determinized_automaton,
      Subset.accepted_run_complete hsimple.plain_eliminated a.quiet_eliminated hword]
    exact exists_final_eliminated hsources fun x hx => (mem_alphabet_determinized.mp (hword x hx)).1
  · push Not at hword
    obtain ⟨x, hx, hforeign⟩ := hword
    have hunread : ∀ e ∈ a.transitions, e.isEpsilon = false → e.symbol ≠ x := by
      rintro e he hread rfl
      exact hforeign (mem_alphabet_determinized.mpr ⟨hsymbols e he hread, hread⟩)
    rw [accepted_run, outcome_eq_none_of_mem hx hforeign, accepts_eq_false_of_mem hx hunread]
    rfl

/-- The word runs through the cycle, and ends where only a silent move leads to the final state. -/
theorem accepted_run_determinized_silentCycle :
    silentCycle.Simple ∧ silentCycle.SourcesListed ∧ silentCycle.SymbolsListed ∧
      (silentCycle.determinized.automaton.run ["0", "0"]).accepted =
        silentCycle.accepts ["0", "0"] ∧
      silentCycle.accepts ["0", "0"] = true :=
  ⟨by decide, by decide, by decide,
    accepted_run_determinized (by decide) (by decide) (by decide) ["0", "0"], by decide⟩

end Automaton

end Determinize
