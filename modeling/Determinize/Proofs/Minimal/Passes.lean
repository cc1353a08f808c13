import Determinize.Automaton.Reading
import Determinize.Minimal.Mode
import Mathlib.Data.Nat.Notation

/-!
# What every merge keeps, minimization keeps

Each mode makes merges one after the other, and only the choice of the pairs differs. A property
that a merge keeps is kept by a pass over any pairs, by passes until nothing merges, and by merges
that were chosen in advance. In a pass it may be used that the pair is one which the pass merges,
and of such a pair everything is known that the pass has looked at.

A merge edits the lists of an automaton where they are, without putting them in order again. That is
not needed: it only takes away from lists in which nothing occurs twice, and leaves the alphabet as
it is.

## Main results

* `Automaton.verdict_eq_merge_iff` — which pairs a pass merges, and in favour of which state
* `Automaton.scan_induction`, `Automaton.passes_induction`, `Automaton.mergedAll_induction` —
  induction on the merges
* `Automaton.WellFormed.minimized` — what is left of a well-formed automaton is well formed
-/

namespace Determinize

namespace Automaton

variable {a : Automaton} {index : Index} {p q remove keep : State} {motive : Automaton → Prop}

/-! ### One pair -/

/-- A pass merges two listed states that are equivalent, and removes the first one, or the second
one if the first is the initial state, as long as that is not the trap. -/
theorem verdict_eq_merge_iff :
    a.verdict index p q = .merge remove keep ↔
      (p ∈ a.states ∧ q ∈ a.states ∧ p ≠ q ∧ a.equivalent index p q = true) ∧ remove ≠ .trap ∧
        (p = a.initial ∧ remove = q ∧ keep = p ∨ p ≠ a.initial ∧ remove = p ∧ keep = q) := by
  rw [verdict]
  by_cases hpair : p ∈ a.states ∧ q ∈ a.states ∧ p ≠ q ∧ a.equivalent index p q = true
  · -- the pair has its turn, and its order decides which state would go
    rw [if_pos hpair]
    by_cases hinitial : p = a.initial
    · grind
    · grind
  · simp [hpair]

/-! ### All pairs -/

/-- What the merges of a pass keep, a pass over any pairs keeps. -/
theorem scan_induction (h : motive a)
    (hmerge : ∀ b p q remove keep, motive b → b.verdict b.index p q = .merge remove keep →
      motive (b.merged remove keep)) (pairs : List (State × State)) :
    motive (a.scan a.index pairs).automaton := by
  induction pairs generalizing a with
  | nil => exact h
  | cons pair pairs ih =>
    obtain ⟨p, q⟩ := pair
    rw [scan]
    split
    case h_1 hverdict => exact ih (hmerge a p q _ _ h hverdict)
    case h_2 => exact ih h

/-- What the merges of a pass keep, passes until nothing merges keep. -/
theorem passes_induction (h : motive a)
    (hmerge : ∀ b p q remove keep, motive b → b.verdict b.index p q = .merge remove keep →
      motive (b.merged remove keep)) (n : ℕ) : motive (passes n a) := by
  induction n generalizing a with
  | zero => exact h
  | succ n ih =>
    have hpass : motive a.onePass.automaton := scan_induction h hmerge a.pairs
    rw [passes]
    by_cases hmerges : a.onePass.merges = 0
    · simpa only [hmerges, if_true] using hpass
    · simpa only [hmerges, if_false] using ih hpass

/-- What every merge keeps, merges chosen in advance keep. -/
theorem mergedAll_induction (h : motive a)
    (hmerge : ∀ b remove keep, motive b → motive (b.merged remove keep))
    (merges : List (State × State)) : motive (a.mergedAll merges) := by
  induction merges generalizing a with
  | nil => exact h
  | cons m merges ih => exact ih (hmerge a m.1 m.2 h)

theorem WellFormed.merged (h : a.WellFormed) (remove keep : State) :
    (a.merged remove keep).WellFormed where
  nodup_states := h.nodup_states.filter _
  nodup_finals := h.nodup_finals.filter _
  nodup_alphabet := h.nodup_alphabet
  not_isEpsilon := h.not_isEpsilon

/-- What is left of a well-formed automaton is well formed, in every mode. -/
theorem WellFormed.minimized (h : a.WellFormed) (mode : Mode) : (a.minimized mode).WellFormed := by
  have hmerge : ∀ (b : Automaton) remove keep, b.WellFormed → (b.merged remove keep).WellFormed :=
    fun _ remove keep hb => hb.merged remove keep
  cases mode with
  | single => exact scan_induction h (fun b _ _ remove keep hb _ => hmerge b remove keep hb) a.pairs
  | converge => exact passes_induction h (fun b _ _ remove keep hb _ => hmerge b remove keep hb) _
  | byBlocks => exact mergedAll_induction h hmerge a.partitionMerges

end Automaton

end Determinize
