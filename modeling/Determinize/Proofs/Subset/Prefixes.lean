import Determinize.Proofs.Subset.Automaton

/-!
# A construction only adds

Sets and transitions are appended, and nothing is taken back. So what a construction has found and
made after some steps is the beginning of what it has found and made after more steps, and of what
there is in the end. The steps are counted, and the stack is empty exactly from the last one on.

## Main definitions

* `Subset.Course.IsPrefix` — one course is the beginning of another
* `Subset.completedSteps` — the number of steps after which a construction is over

## Main results

* `Subset.Course.isPrefix_step`, `Subset.Course.isPrefix_run` — a construction only adds
* `Subset.pending_course_eq_nil_iff` — when a construction is over
-/

namespace Determinize

namespace Subset

variable {index : Index} {alphabet : List Symbol} {s t : State} {x : Symbol}

namespace Course

variable {b c d : Course}

/-- What the course `c` has found and made is the beginning of what `d` has found and made. -/
structure IsPrefix (c d : Course) : Prop where
  /-- The sets found come first. -/
  states : c.states <+: d.states
  /-- The transitions made come first. -/
  transitions : c.transitions <+: d.transitions

theorem IsPrefix.refl (c : Course) : c.IsPrefix c :=
  ⟨List.prefix_refl _, List.prefix_refl _⟩

theorem IsPrefix.trans (hbc : b.IsPrefix c) (hcd : c.IsPrefix d) : b.IsPrefix d :=
  ⟨hbc.states.trans hcd.states, hbc.transitions.trans hcd.transitions⟩

/-! ### A construction only adds -/

theorem isPrefix_discover (c : Course) (t : State) : c.IsPrefix (c.discover t) := by
  rw [discover]
  split
  · exact .refl c
  · exact ⟨List.prefix_append _ _, List.prefix_refl _⟩

theorem isPrefix_discoverTrap (alphabet : List Symbol) (c : Course) :
    c.IsPrefix (c.discoverTrap alphabet) := by
  rw [discoverTrap]
  split
  · exact .refl c
  · exact ⟨List.prefix_append _ _, List.prefix_append _ _⟩

theorem isPrefix_addTransition (c : Course) (s t : State) (x : Symbol) :
    c.IsPrefix (c.addTransition s t x) :=
  ⟨List.prefix_refl _, List.prefix_append _ _⟩

theorem isPrefix_addMove (c : Course) (t? : Option State) :
    c.IsPrefix (c.addMove alphabet s x t?) := by
  cases t? with
  | some t => exact (isPrefix_addTransition c s t x).trans (isPrefix_discover _ t)
  | none => exact (isPrefix_discoverTrap alphabet c).trans (isPrefix_addTransition _ s .trap x)

theorem isPrefix_explore (c : Course) : c.IsPrefix (c.explore index alphabet s) :=
  explore_induction (fun _ _ hd => hd.trans (isPrefix_addMove _ _)) (.refl c)

theorem isPrefix_step (c : Course) : c.IsPrefix (c.step index alphabet) := by
  cases hp : c.pending with
  | nil =>
    rw [step_of_pending_eq_nil hp]
    exact .refl c
  | cons s rest =>
    have htaken : c.IsPrefix { c with pending := rest, steps := c.steps + 1 } :=
      ⟨List.prefix_refl _, List.prefix_refl _⟩
    simp only [step, hp]
    exact htaken.trans (isPrefix_explore _)

theorem isPrefix_run (c : Course) (n : ℕ) : c.IsPrefix (run index alphabet n c) :=
  run_induction (fun _ hd => hd.trans (isPrefix_step _)) (.refl c) n

/-! ### Counting the steps -/

theorem steps_run_le (n : ℕ) : (run index alphabet n c).steps ≤ c.steps + n := by
  induction n generalizing c with
  | zero => exact Nat.le_refl _
  | succ n ih =>
    cases hp : c.pending with
    | nil =>
      rw [run_of_pending_eq_nil hp]
      omega
    | cons s rest =>
      have hstep : (c.step index alphabet).steps = c.steps + 1 := steps_step (by simp [hp])
      have hrest := @ih (c.step index alphabet)
      rw [run_succ]
      omega

theorem le_steps_run (n : ℕ) : c.steps ≤ (run index alphabet n c).steps := by
  induction n generalizing c with
  | zero => exact Nat.le_refl _
  | succ n ih =>
    cases hp : c.pending with
    | nil => rw [run_of_pending_eq_nil hp]
    | cons s rest =>
      have hstep : (c.step index alphabet).steps = c.steps + 1 := steps_step (by simp [hp])
      have hrest := @ih (c.step index alphabet)
      rw [run_succ]
      omega

end Course

variable {a : Automaton} {j k : ℕ}

theorem course_add (a : Automaton) (j m : ℕ) :
    course a (j + m) = Course.run a.index a.alphabet m (course a j) :=
  Course.run_add j m

theorem isPrefix_course (a : Automaton) (h : j ≤ k) : (course a j).IsPrefix (course a k) := by
  obtain ⟨m, rfl⟩ := Nat.exists_eq_add_of_le h
  rw [course_add]
  exact Course.isPrefix_run _ m

/-- Once the stack is empty nothing changes any more. -/
theorem course_eq_of_pending_eq_nil (h : (course a j).pending = []) (hjk : j ≤ k) :
    course a k = course a j := by
  obtain ⟨m, rfl⟩ := Nat.exists_eq_add_of_le hjk
  rw [course_add, Course.run_of_pending_eq_nil h]

/-- The number of steps after which the construction is over. -/
def completedSteps (a : Automaton) : ℕ := (course a (bound a)).steps

theorem steps_course (h : (course a j).pending ≠ []) : (course a j).steps = j := by
  have hsteps : (course a j).steps = 0 + j := Course.steps_run j h
  omega

/-- A construction is over as soon as it has made all its steps, and not before. -/
theorem pending_course_eq_nil_iff : (course a j).pending = [] ↔ completedSteps a ≤ j := by
  have hbound := pending_course a
  constructor
  · intro hp
    have hj : course a (j + bound a) = course a j :=
      course_eq_of_pending_eq_nil hp (Nat.le_add_right _ _)
    have hend : course a (j + bound a) = course a (bound a) :=
      course_eq_of_pending_eq_nil hbound (Nat.le_add_left _ _)
    have hle : (course a j).steps ≤ 0 + j := Course.steps_run_le j
    rw [completedSteps, ← hend, hj]
    omega
  · intro hle
    by_contra hp
    have hj : j < bound a := by
      by_contra hlt
      rw [course_eq_of_pending_eq_nil hbound (Nat.le_of_not_lt hlt)] at hp
      exact hp hbound
    -- one more step is made, and it is counted
    obtain ⟨m, hm⟩ := Nat.exists_eq_add_of_lt hj
    have hmore : course a (bound a) =
        Course.run a.index a.alphabet m ((course a j).step a.index a.alphabet) := by
      rw [hm, Nat.add_assoc, course_add, Course.run_succ]
    have hcounted : ((course a j).step a.index a.alphabet).steps ≤ (course a (bound a)).steps := by
      rw [hmore]
      exact Course.le_steps_run m
    rw [Course.steps_step hp, steps_course hp] at hcounted
    rw [completedSteps] at hle
    omega

/-- What is made after enough steps is all there is. -/
theorem course_eq_complete (h : completedSteps a ≤ j) : course a j = course a (bound a) := by
  have hj := pending_course_eq_nil_iff.mpr h
  rcases Nat.le_total j (bound a) with hle | hle
  · exact (course_eq_of_pending_eq_nil hj hle).symm
  · exact course_eq_of_pending_eq_nil (pending_course a) hle

/-! ### The automata made so far -/

theorem states_automaton_course (a : Automaton) (j : ℕ) :
    ((course a j).automaton a).states = (course a j).states :=
  eraseDups_eq_self (settled_course a j).nodup_states

theorem finals_automaton_course (a : Automaton) (j : ℕ) :
    ((course a j).automaton a).finals =
      (course a j).states.filter fun s => s.parts.any a.isFinal :=
  eraseDups_eq_self ((settled_course a j).nodup_states.filter _)

end Subset

end Determinize
