import Determinize.Proofs.Subset.Prefixes
import Determinize.Subset.Replay

/-!
# A limited construction shows the beginning of the whole one

A construction that stops early has made a beginning of what the whole one makes. What is final is
decided at the end, but set by set, so the final sets make up a beginning as well. A limit stops a
construction between two steps, where every set with a transition has them all.

The limit `k` is met when the `k`-th set is taken off the stack, before that set is explored. A
construction that comes to its end after `n` steps meets the limits up to `n`, and every other limit
lets it through. A replay is the series of what these limits show, up to the first that lets the
construction through.

## Main definitions

* `Construction.IsPrefix` — one construction shows the beginning of another
* `Automaton.WholeRows` — a state with a transition has one on every symbol
* `Automaton.StoppedAt` — what a limit that is met leaves of a construction

## Main results

* `Automaton.determinizedUpTo_of_le`, `Automaton.determinizedUpTo_of_lt` — which limits are met
* `Automaton.determinizedUpTo_prefixes` — what each limit shows, and a replay with it
-/

namespace Determinize

namespace Construction

/-- What the construction `c` shows is the beginning of what `d` shows. -/
structure IsPrefix (c d : Construction) : Prop where
  /-- The states come first. -/
  states : c.automaton.states <+: d.automaton.states
  /-- The transitions come first. -/
  transitions : c.automaton.transitions <+: d.automaton.transitions
  /-- The final states come first. -/
  finals : c.automaton.finals <+: d.automaton.finals

end Construction

namespace Automaton

variable {a : Automaton} {j k : ℕ}

/-- A state that a transition leaves has a transition on every symbol. -/
def WholeRows (a : Automaton) : Prop :=
  ∀ e ∈ a.transitions, ∀ x ∈ a.alphabet, ∃ f ∈ a.transitions, f.source = e.source ∧ f.symbol = x

theorem wholeRows_course (a : Automaton) (j : ℕ) :
    ((Subset.course a j).automaton a).WholeRows := by
  intro e he x hx
  have hsettled := Subset.settled_course a j
  have hlawful := hsettled.lawful e he
  exact hsettled.covered e.source hlawful.source_mem hlawful.source_explored x
    (Subset.mem_alphabet_automaton.mp hx).1

/-- While sets are pending, the next one has no transitions, and one step later it has them all. -/
theorem exists_halted_course (h : (Subset.course a j).pending ≠ []) :
    ∃ s ∈ (Subset.course a j).states, (∀ e ∈ (Subset.course a j).transitions, e.source ≠ s) ∧
      ∀ x ∈ a.alphabet, ∃ e ∈ (Subset.course a (j + 1)).transitions, e.source = s ∧ e.symbol = x := by
  obtain ⟨s, rest, hp⟩ := List.exists_cons_of_ne_nil h
  have hsettled := Subset.settled_course a j
  have hs : s ∈ (Subset.course a j).pending := hp ▸ List.mem_cons_self
  refine ⟨s, hsettled.pending_subset hs, fun e he hsource => ?_, fun x hx => ?_⟩
  · exact (hsettled.lawful e he).source_explored (hsource ▸ hs)
  · have hexplored : (Subset.course a (j + 1)).Explored s := by
      rw [Subset.course_add, Subset.Course.run_succ]
      exact hsettled.explored_step hp
    exact (Subset.settled_course a (j + 1)).covered s hexplored.1 hexplored.2 x hx

/-- A construction stopped earlier is the beginning of one stopped later. -/
theorem isPrefix_ofCourse (a : Automaton) (h : j ≤ k) :
    (Construction.ofCourse a (Subset.course a j)).IsPrefix
      (.ofCourse a (Subset.course a k)) where
  states := by
    rw [Construction.ofCourse, Construction.ofCourse, Subset.states_automaton_course,
      Subset.states_automaton_course]
    exact (Subset.isPrefix_course a h).states
  transitions := (Subset.isPrefix_course a h).transitions
  finals := by
    rw [Construction.ofCourse, Construction.ofCourse, Subset.finals_automaton_course,
      Subset.finals_automaton_course]
    exact (Subset.isPrefix_course a h).states.filter _

theorem steps_determinized (a : Automaton) :
    a.determinized.steps = Subset.completedSteps a.eliminated := by
  have hpending := Subset.pending_course a.eliminated
  simp [determinized, Construction.ofCourse, Subset.completedSteps, hpending]

theorem interrupted_determinized (a : Automaton) : a.determinized.interrupted = false := by
  have hpending := Subset.pending_course a.eliminated
  simp [determinized, Construction.ofCourse, hpending]

theorem completedSteps?_determinized (a : Automaton) :
    a.determinized.completedSteps? = some (Subset.completedSteps a.eliminated) := by
  rw [Construction.completedSteps?, interrupted_determinized, steps_determinized]
  rfl

/-! ### Limits -/

/-- A limit beyond the last step lets the construction through. -/
theorem determinizedUpTo_of_lt (h : a.determinized.steps < k) :
    a.determinizedUpTo k = a.determinized := by
  rw [steps_determinized] at h
  have hcourse : Subset.course a.eliminated (k - 1) =
      Subset.course a.eliminated (Subset.bound a.eliminated) :=
    Subset.course_eq_complete (by omega)
  rw [determinizedUpTo, determinized, hcourse]

theorem pending_ne_nil_of_lt (h : j < a.determinized.steps) :
    (Subset.course a.eliminated j).pending ≠ [] := by
  rw [steps_determinized] at h
  exact fun hp => absurd (Subset.pending_course_eq_nil_iff.mp hp) (Nat.not_le_of_lt h)

/-- Any other limit is met, at the step that it names. -/
theorem determinizedUpTo_of_le (hk : 1 ≤ k) (h : k ≤ a.determinized.steps) :
    (a.determinizedUpTo k).interrupted = true ∧ (a.determinizedUpTo k).steps = k := by
  have hpending : (Subset.course a.eliminated (k - 1)).pending ≠ [] :=
    pending_ne_nil_of_lt (by omega)
  have hsteps := Subset.steps_course hpending
  constructor
  · simp [determinizedUpTo, Construction.ofCourse, hpending]
  · simp only [determinizedUpTo, Construction.ofCourse, List.isEmpty_iff, hpending, if_false]
    omega

theorem isPrefix_determinizedUpTo (hk : k ≤ a.determinized.steps) :
    (a.determinizedUpTo k).IsPrefix a.determinized := by
  have hlast : a.determinizedUpTo (a.determinized.steps + 1) = a.determinized :=
    determinizedUpTo_of_lt (Nat.lt_succ_self _)
  rw [← hlast]
  exact isPrefix_ofCourse a.eliminated (by omega)

/-- The limit `k` is met, and what has been made until then is the beginning of what comes after
one more step and in the end. -/
structure StoppedAt (a : Automaton) (k : ℕ) : Prop where
  /-- The construction is interrupted. -/
  interrupted : (a.determinizedUpTo k).interrupted = true
  /-- It is interrupted at the step that the limit names. -/
  steps : (a.determinizedUpTo k).steps = k
  /-- The next limit shows more. -/
  next : (a.determinizedUpTo k).IsPrefix (a.determinizedUpTo (k + 1))
  /-- The whole construction shows more. -/
  whole : (a.determinizedUpTo k).IsPrefix a.determinized
  /-- The symbols are those of the given automaton. -/
  mem_alphabet_iff : ∀ x, x ∈ (a.determinizedUpTo k).automaton.alphabet ↔
    x ∈ a.alphabet ∧ x.isEpsilon = false
  /-- No set has been left in the middle of its transitions. -/
  wholeRows : (a.determinizedUpTo k).automaton.WholeRows
  /-- The set at which it stops is listed without transitions; one step later it has them all. -/
  halted : ∃ s ∈ (a.determinizedUpTo k).automaton.states,
    (∀ e ∈ (a.determinizedUpTo k).automaton.transitions, e.source ≠ s) ∧
    ∀ x ∈ (a.determinizedUpTo k).automaton.alphabet,
      ∃ e ∈ (a.determinizedUpTo (k + 1)).automaton.transitions, e.source = s ∧ e.symbol = x

theorem stoppedAt_of_le (hk : 1 ≤ k) (h : k ≤ a.determinized.steps) : a.StoppedAt k where
  interrupted := (determinizedUpTo_of_le hk h).1
  steps := (determinizedUpTo_of_le hk h).2
  next := isPrefix_ofCourse a.eliminated (Nat.sub_le_sub_right (Nat.le_succ k) 1)
  whole := isPrefix_determinizedUpTo h
  mem_alphabet_iff _ :=
    Subset.mem_alphabet_automaton.trans (and_congr_left fun hx => mem_alphabet_eliminated hx)
  wholeRows := wholeRows_course a.eliminated (k - 1)
  halted := by
    obtain ⟨j, rfl⟩ := Nat.exists_eq_add_of_le' hk
    obtain ⟨s, hs, hnone, hall⟩ := exists_halted_course (pending_ne_nil_of_lt h)
    exact ⟨s, Subset.mem_states_automaton.mpr hs, hnone,
      fun x hx => hall x (Subset.mem_alphabet_automaton.mp hx).1⟩

/-! ### Replays -/

/-- A replay shows the construction after so many steps, and only at the last step the whole. -/
theorem interrupted_iff_of_mem_stepNumbers (hk : k ∈ (Replay.of a).stepNumbers) :
    (a.determinizedUpTo k).interrupted = true ↔ (Replay.of a).isFinalStep k = false := by
  obtain ⟨hpos, hlast⟩ := Replay.mem_stepNumbers.mp hk
  have hsteps : (Replay.of a).lastStep = a.determinized.steps + 1 := rfl
  rw [hsteps] at hlast
  rw [Replay.isFinalStep, hsteps, decide_eq_false_iff_not]
  rcases Nat.lt_or_ge a.determinized.steps k with hlt | hle
  · rw [determinizedUpTo_of_lt hlt, interrupted_determinized]
    simp only [Bool.false_eq_true, false_iff, not_not]
    omega
  · simp only [(determinizedUpTo_of_le hpos hle).1, true_iff]
    omega

/-- **A limited construction shows the beginning of the whole one.** Up to the number of steps of
the whole construction every limit is met, before the set at which it is met has been explored, and
every other one lets the whole construction through.
A replay has the steps from the first to one more than this number. At each of them it shows the
construction with that limit, and it is interrupted at each but the last. -/
theorem determinizedUpTo_prefixes (a : Automaton) :
    ∃ n, a.determinized.completedSteps? = some n ∧ (Replay.of a).completedSteps = n ∧
      (∀ k, 1 ≤ k → k ≤ n → a.StoppedAt k) ∧
      (∀ k, n < k → (a.determinizedUpTo k).interrupted = false ∧
        a.determinizedUpTo k = a.determinized) ∧
      (∀ k, k ∈ (Replay.of a).stepNumbers ↔ 1 ≤ k ∧ k ≤ n + 1) ∧
      ∀ k ∈ (Replay.of a).stepNumbers,
        (Replay.of a).stepAt? k = some (a.determinizedUpTo k) ∧
        (Replay.of a).stepAtRaw (.int k) = .ok (k, a.determinizedUpTo k) ∧
        ((a.determinizedUpTo k).interrupted = true ↔ (Replay.of a).isFinalStep k = false) := by
  refine ⟨a.determinized.steps, ?_, rfl, fun k hk h => stoppedAt_of_le hk h, fun k h => ?_,
    fun k => Replay.mem_stepNumbers, fun k hk => ?_⟩
  · rw [Construction.completedSteps?, interrupted_determinized]
    rfl
  · rw [determinizedUpTo_of_lt h]
    exact ⟨interrupted_determinized a, rfl⟩
  · exact ⟨Replay.stepAt?_eq_some_iff.mpr ⟨hk, rfl⟩, Replay.stepAtRaw_int hk,
      interrupted_iff_of_mem_stepNumbers hk⟩

/-- The limit is met when the second of two sets is taken off the stack, with four of the six
transitions made, and a replay shows this; its third step shows the whole. -/
theorem determinizedUpTo_prefixes_silentCycle :
    silentCycle.determinized.completedSteps? = some 2 ∧ 1 ≤ 2 ∧ 2 ≤ 2 ∧
      silentCycle.StoppedAt 2 ∧
      (silentCycle.determinizedUpTo 2).automaton.transitions.length = 4 ∧
      silentCycle.determinized.automaton.transitions.length = 6 ∧
      silentCycle.determinizedUpTo 3 = silentCycle.determinized ∧
      2 ∈ (Replay.of silentCycle).stepNumbers ∧ 3 ∈ (Replay.of silentCycle).stepNumbers ∧
      (Replay.of silentCycle).stepAt? 2 = some (silentCycle.determinizedUpTo 2) ∧
      (Replay.of silentCycle).stepAt? 3 = some silentCycle.determinized := by
  obtain ⟨n, hn, -, hstopped, hthrough, hnumbers, hshown⟩ := determinizedUpTo_prefixes silentCycle
  have htwo : silentCycle.determinized.completedSteps? = some 2 := by decide
  obtain rfl : n = 2 := Option.some.inj (hn.symm.trans htwo)
  have hwhole : silentCycle.determinizedUpTo 3 = silentCycle.determinized :=
    (hthrough 3 (by decide)).2
  have hsecond := (hnumbers 2).mpr (by decide)
  have hthird := (hnumbers 3).mpr (by decide)
  exact ⟨htwo, by decide, by decide, hstopped 2 (by decide) (by decide), by decide, by decide,
    hwhole, hsecond, hthird, (hshown 2 hsecond).1, hwhole ▸ (hshown 3 hthird).1⟩

end Automaton

end Determinize
