import Determinize.Proofs.Minimal.Passes
import Determinize.Proofs.Minimal.Representatives
import Determinize.Proofs.Subset.Automaton

/-!
# Minimization keeps the language

A pass merges two states only if they are equivalent at their turn, and equivalent states are
indistinct, so every merge of every pass leaves the runs from the initial state as they were. Merges
by the partition are chosen in advance, and there it is the blocks that make the states indistinct.
In no mode does the initial state go.

## Main definitions

* `Automaton.SameOutcomes` — runs from the initial states have the same outcomes

## Main results

* `Automaton.minimized_induction` — induction on the merges of any mode
* `Automaton.sameOutcomes_scan`, `Automaton.sameOutcomes_passes` — passes
* `Automaton.sameOutcomes_mergedByPartition` — merging by the partition
* `Automaton.accepted_run_minimized` — every mode keeps the language of a deterministic automaton
-/

namespace Determinize

namespace Automaton

variable {a b c : Automaton} {p q remove keep : State}

/-- Runs from the two initial states have the same outcome on every word. -/
def SameOutcomes (a b : Automaton) : Prop :=
  ∀ word, a.outcome a.initial word = b.outcome b.initial word

theorem SameOutcomes.refl (a : Automaton) : a.SameOutcomes a := fun _ => rfl

theorem SameOutcomes.trans (hab : a.SameOutcomes b) (hbc : b.SameOutcomes c) : a.SameOutcomes c :=
  fun word => (hab word).trans (hbc word)

theorem SameOutcomes.accepted_run (h : a.SameOutcomes b) (word : List Symbol) :
    (a.run word).accepted = (b.run word).accepted := by
  rw [Automaton.accepted_run, Automaton.accepted_run, h word]

/-! ### Passes -/

/-- What a pass merges is a pair of different, indistinct states, of which it removes neither the
initial state nor the trap. -/
theorem of_verdict_eq_merge (h : a.verdict a.index p q = .merge remove keep) :
    a.Admits remove keep ∧ a.Indistinct remove keep := by
  obtain ⟨⟨hp, hq, hne, hequivalent⟩, htrap, hpair⟩ := verdict_eq_merge_iff.mp h
  have hindistinct := indistinct_of_equivalent hequivalent
  rcases hpair with ⟨hinitial, rfl, rfl⟩ | ⟨hinitial, rfl, rfl⟩
  · exact ⟨⟨hp, hne, hinitial ▸ hne, Ne.symm htrap⟩, hindistinct.symm⟩
  · exact ⟨⟨hq, Ne.symm hne, Ne.symm hinitial, Ne.symm htrap⟩, hindistinct⟩

theorem sameOutcomes_merged (h : a.verdict a.index p q = .merge remove keep) :
    (a.merged remove keep).SameOutcomes a := by
  obtain ⟨hadmits, hindistinct⟩ := of_verdict_eq_merge h
  exact fun word => outcome_merged hadmits.keep_ne hindistinct hadmits.initial_ne

/-- A pass leaves the runs from the initial state as they were, whatever pairs it goes through. -/
theorem sameOutcomes_scan (pairs : List (State × State)) :
    (a.scan a.index pairs).automaton.SameOutcomes a :=
  scan_induction (motive := (SameOutcomes · a)) (.refl a)
    (fun _ _ _ _ _ hb hmerge => (sameOutcomes_merged hmerge).trans hb) pairs

theorem sameOutcomes_passes (n : ℕ) : (passes n a).SameOutcomes a :=
  passes_induction (motive := (SameOutcomes · a)) (.refl a)
    (fun _ _ _ _ _ hb hmerge => (sameOutcomes_merged hmerge).trans hb) n

/-! ### All modes -/

/-- What a merge keeps that keeps what has to be kept, every mode keeps. -/
theorem minimized_induction {motive : Automaton → Prop} (hnodup : a.states.Nodup) (h : motive a)
    (hmerge : ∀ b remove keep, motive b → b.Admits remove keep → motive (b.merged remove keep))
    (mode : Mode) : motive (a.minimized mode) := by
  have hpass : ∀ b p q remove keep, motive b → b.verdict b.index p q = .merge remove keep →
      motive (b.merged remove keep) := fun b _ _ remove keep hb hverdict =>
    hmerge b remove keep hb (of_verdict_eq_merge hverdict).1
  cases mode with
  | single => exact scan_induction h hpass a.pairs
  | converge => exact passes_induction h hpass _
  | byBlocks => exact (admitsAll_partitionMerges hnodup).induction h hmerge

theorem sameOutcomes_mergedByPartition (hfunctional : a.Functional) (hnodup : a.states.Nodup) :
    a.mergedByPartition.SameOutcomes a := by
  intro word
  rw [initial_mergedByPartition]
  exact outcome_mergedByPartition hfunctional hnodup initial_not_mem_removed

/-- Every mode leaves the runs from the initial state as they were. -/
theorem sameOutcomes_minimized (hfunctional : a.Functional) (hnodup : a.states.Nodup)
    (mode : Mode) : (a.minimized mode).SameOutcomes a := by
  cases mode with
  | single => exact sameOutcomes_scan a.pairs
  | converge => exact sameOutcomes_passes _
  | byBlocks => exact sameOutcomes_mergedByPartition hfunctional hnodup

/-- **Minimization keeps the language** of every deterministic automaton, in every mode and on every
word. What a subset construction has made, to its end or up to a limit, is such an automaton. -/
theorem accepted_run_minimized (mode : Mode) :
    (∀ a : Automaton, a.WellFormed → a.Deterministic → ∀ word,
      ((a.copy.minimized mode).run word).accepted = (a.run word).accepted) ∧
    ∀ (a : Automaton) (limit : Option ℕ), a.WellFormed →
      (a.determinizedWithin limit).automaton.WellFormed ∧
        (a.determinizedWithin limit).automaton.Deterministic := by
  refine ⟨fun a hwell hdet word => ?_, fun a limit hwell => ⟨?_, ?_⟩⟩
  · rw [hwell.copy_eq]
    exact (sameOutcomes_minimized hdet.functional hwell.nodup_states mode).accepted_run word
  · exact wellFormed_determinizedWithin a limit
  · exact deterministic_determinizedWithin hwell limit

/-- Four states that count zeros up to four, of which every second one is final. No two have the
same successor, so no pass merges any. -/
def fourCycle : Automaton where
  initial := .simple "q0"
  finals := [.simple "q0", .simple "q2"]
  states := [.simple "q0", .simple "q1", .simple "q2", .simple "q3"]
  alphabet := ["0"]
  transitions := [⟨.simple "q0", [.simple "q1"], "0"⟩, ⟨.simple "q1", [.simple "q2"], "0"⟩,
    ⟨.simple "q2", [.simple "q3"], "0"⟩, ⟨.simple "q3", [.simple "q0"], "0"⟩]

/-- The blocks are those of even and of odd counts. -/
theorem accepted_run_minimized_fourCycle :
    fourCycle.WellFormed ∧ fourCycle.Deterministic ∧
      ((fourCycle.copy.minimized .byBlocks).run ["0", "0"]).accepted =
        (fourCycle.run ["0", "0"]).accepted ∧
      (fourCycle.run ["0", "0"]).accepted = true ∧
      (fourCycle.copy.minimized .byBlocks).states = [.simple "q0", .simple "q1"] := by
  have hwell : fourCycle.WellFormed := ⟨by decide, by decide, by decide, by decide⟩
  have hdet : fourCycle.Deterministic := ⟨by decide, by decide, by decide⟩
  exact ⟨hwell, hdet, (accepted_run_minimized .byBlocks).1 fourCycle hwell hdet ["0", "0"],
    by decide, by decide⟩

end Automaton

end Determinize
