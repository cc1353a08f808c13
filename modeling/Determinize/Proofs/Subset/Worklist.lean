import Determinize.Proofs.Subset.Extent
import Determinize.Proofs.Subset.Limits

/-!
# What a construction takes off its stack

Each step takes one set off the stack, until the stack is empty. A set that was on the stack is
listed, and only a set that is not listed is put there. So a set that has been taken off never comes
back, and no set is taken off twice. Nothing is assumed of the automaton for that: its states may be
sets or the trap already, and transitions may leave states that are not listed.

How many steps there are is known where runs meet only states that the user named. Then every set
listed is put onto the stack, the trap apart, and so the steps are as many as those sets. A set is
made of states that a run may be in, which are the initial state and the targets of transitions;
removing epsilon transitions adds none to them. With `k` such states there are `2 ^ k - 1` sets that
are not empty. All of them may be needed.

## Main definitions

* `Subset.taken` — the set that a step takes off the stack
* `Automaton.met` — the states that a run may be in

## Main results

* `Subset.Course.Explored.run` — a set that has been taken off the stack stays off
* `Subset.taken_ne_of_lt` — no set is taken off the stack twice
* `Automaton.steps_determinized_lt` — how many steps there may be
* `Automaton.taken_determinized` — the steps of a construction
-/

namespace Determinize

namespace Subset

variable {a : Automaton} {index : Index} {alphabet : List Symbol} {init s t : State} {x : Symbol}
  {i j n : ℕ}

/-! ### A set that has been taken off stays off -/

namespace Course

variable {c : Course}

theorem Explored.addMove (h : Explored s c) (t? : Option State) :
    Explored s (c.addMove alphabet t x t?) := by
  cases t? with
  | some u =>
    have hsame : Explored s (c.addTransition t u x) := h
    exact hsame.discover u
  | none =>
    show Explored s (c.discoverTrap alphabet)
    exact h.discoverTrap

/-- A step takes another set off the stack, and what it finds is new. -/
theorem Explored.step (h : Explored s c) : Explored s (c.step index alphabet) := by
  cases hp : c.pending with
  | nil => rwa [step_of_pending_eq_nil hp]
  | cons t rest =>
    have hrest : s ∉ rest := fun hs => h.2 (hp ▸ List.mem_cons_of_mem t hs)
    simp only [Course.step, hp]
    exact explore_induction (fun _ _ hc => hc.addMove _) ⟨h.1, hrest⟩

theorem Explored.run (h : Explored s c) (n : ℕ) : Explored s (run index alphabet n c) :=
  run_induction (fun _ hc => hc.step) h n

end Course

/-- The set that step `i`, counted from zero, takes off the stack, if there is such a step. -/
def taken (a : Automaton) (i : ℕ) : Option State := (course a i).pending.head?

/-- There are steps as long as the construction is not over. -/
theorem isSome_taken_iff : (taken a i).isSome ↔ i < completedSteps a := by
  rw [taken, List.isSome_head?, Ne, pending_course_eq_nil_iff]
  omega

/-- **No set is taken off the stack twice.** -/
theorem taken_ne_of_lt (hij : i < j) (h : taken a i = some s) : taken a j ≠ some s := by
  obtain ⟨rest, hp⟩ := List.head?_eq_some_iff.mp h
  obtain ⟨m, rfl⟩ := Nat.exists_eq_add_of_lt hij
  have hexplored : Course.Explored s (course a (i + (m + 1))) := by
    rw [course_add, Course.run_succ]
    exact ((settled_course a i).explored_step hp).run m
  intro hagain
  obtain ⟨rest', hp'⟩ := List.head?_eq_some_iff.mp hagain
  have hmem : s ∈ (course a (i + (m + 1))).pending := by
    rw [show i + (m + 1) = i + m + 1 from rfl, hp']
    exact List.mem_cons_self
  exact hexplored.2 hmem

theorem eq_of_taken_eq (hi : taken a i = some s) (hj : taken a j = some s) : i = j := by
  rcases Nat.lt_trichotomy i j with hij | hij | hij
  · exact absurd hj (taken_ne_of_lt hij hi)
  · exact hij
  · exact absurd hi (taken_ne_of_lt hij hj)

end Subset

/-! ### How many steps there may be -/

namespace Automaton

variable {a : Automaton} {s t : State} {n : String} {l : List State}

/-- The states that a run may be in: the initial state and the targets of transitions, once each. -/
def met (a : Automaton) : List State := (a.initial :: a.transitions.flatMap (·.targets)).eraseDups

theorem mem_met : s ∈ a.met ↔ s = a.initial ∨ ∃ e ∈ a.transitions, s ∈ e.targets := by
  rw [met, List.mem_eraseDups, List.mem_cons, List.mem_flatMap]

theorem Simple.isSimple_of_mem_met (h : a.Simple) (hs : s ∈ a.met) : s.isSimple := by
  rcases mem_met.mp hs with rfl | ⟨e, he, hs⟩
  · exact h.initial
  · exact h.targets e he s hs

theorem mem_met_of_epsilonReach (hs : s ∈ a.met) (hst : EpsilonReach a.transitions s t) :
    t ∈ a.met := by
  cases hst with
  | refl => exact hs
  | tail _ he _ _ ht => exact mem_met.mpr (Or.inr ⟨_, he, ht⟩)

/-- Without its epsilon transitions the automaton leads to no further states. -/
theorem mem_met_of_mem_met_eliminated (hs : s ∈ a.eliminated.met) : s ∈ a.met := by
  cases h : a.hasEpsilon with
  | false => rwa [eliminated_of_not_hasEpsilon h] at hs
  | true =>
    rcases mem_met.mp hs with rfl | ⟨e, he, hs⟩
    · exact mem_met.mpr (Or.inl (initial_eliminated a))
    · obtain ⟨r, -, x, -, rfl⟩ := (mem_transitions_eliminated h).mp he
      obtain ⟨q, -, u, hu, hus⟩ := mem_closedSuccessors.mp hs
      obtain ⟨f, hf, -, -, -, hu⟩ := mem_successors_symbolIndex.mp hu
      exact mem_met_of_epsilonReach (mem_met.mpr (Or.inr ⟨f, hf, hu⟩)) hus

/-- A set that a construction lists is made of states that a run may be in. -/
theorem exists_mem_met_of_mem_names (hs : s ∈ (Subset.complete a).states) (hn : n ∈ s.names) :
    ∃ t ∈ a.met, n ∈ t.names := by
  have hsettled := Subset.settled_course a (Subset.bound a)
  obtain ⟨word, -, rfl⟩ := hsettled.reached s (Subset.mem_states_automaton.mp hs)
  have hfold : word.foldl (Subset.follow a.index) a.initial = a.initial ∨
      (word.foldl (Subset.follow a.index) a.initial).names ⊆ Subset.targetNames a :=
    Subset.names_subset_of_foldl a word
  rcases hfold with hinitial | hsubset
  · rw [hinitial] at hn
    exact ⟨a.initial, mem_met.mpr (Or.inl rfl), hn⟩
  · obtain ⟨t, ht, hnt⟩ := List.mem_flatMap.mp (List.mem_eraseDups.mp (hsubset hn))
    exact ⟨t, mem_met.mpr (Or.inr (List.mem_flatMap.mp ht)), hnt⟩

/-- A state that the user named has one name. -/
theorem length_flatMap_names (h : ∀ s ∈ l, s.isSimple) :
    (l.flatMap State.names).length = l.length := by
  induction l with
  | nil => rfl
  | cons s l ih =>
    obtain ⟨n, rfl⟩ := exists_of_isSimple (h s List.mem_cons_self)
    have hrest := ih fun t ht => h t (List.mem_cons_of_mem _ ht)
    rw [List.flatMap_cons, List.length_append, State.names_simple, hrest, List.length_cons,
      List.length_cons, List.length_nil]
    omega

/-- There are fewer steps than there are sets of states that a run may be in. -/
theorem steps_determinized_lt (h : a.Simple) : a.determinized.steps < 2 ^ a.met.length := by
  have hlength : (a.met.flatMap State.names).length = a.met.length :=
    length_flatMap_names fun s hs => h.isSimple_of_mem_met hs
  have hnodup : (Subset.complete a.eliminated).states.Nodup :=
    (wellFormed_determinizedWithin a none).nodup_states
  rw [steps_determinized, Subset.completedSteps_eq h.plain_eliminated, ← hlength]
  refine Subset.length_lt_of_names (hnodup.filter _) fun s hs => ?_
  obtain ⟨hs, htrap⟩ := List.mem_filter.mp hs
  refine ⟨of_decide_eq_true htrap, fun n hn => ?_⟩
  obtain ⟨t, ht, hnt⟩ := exists_mem_met_of_mem_names hs hn
  exact List.mem_flatMap.mpr ⟨t, mem_met_of_mem_met_eliminated ht, hnt⟩

/-- **The construction ends after the steps that it counts, and takes no set off the stack twice.**
If runs meet only states that the user named, the steps are as many as the states of the automaton
that is made, the trap apart, and at most `2 ^ k - 1` where the initial state and the targets are
`k` states. -/
theorem taken_determinized (a : Automaton) :
    ∃ n, a.determinized.completedSteps? = some n ∧ a.determinized.steps = n ∧
      a.determinized = .ofCourse a.eliminated (Subset.course a.eliminated n) ∧
      (∀ i, (Subset.taken a.eliminated i).isSome ↔ i < n) ∧
      (∀ i j s, Subset.taken a.eliminated i = some s → Subset.taken a.eliminated j = some s →
        i = j) ∧
      (a.Simple → n = (a.determinized.automaton.states.filter fun s => s ≠ .trap).length ∧
        n ≤ 2 ^ a.met.length - 1) := by
  refine ⟨Subset.completedSteps a.eliminated, completedSteps?_determinized a,
    steps_determinized a, ?_, fun i => Subset.isSome_taken_iff,
    fun i j s => Subset.eq_of_taken_eq, fun h => ⟨?_, ?_⟩⟩
  · rw [Subset.course_eq_complete (Nat.le_refl _)]
    rfl
  · exact Subset.completedSteps_eq h.plain_eliminated
  · have hlt := steps_determinized_lt h
    rw [steps_determinized] at hlt
    omega

/-- Two states, of which every set that is not empty is needed. -/
def everySet : Automaton :=
  of (.simple "A") [.simple "B"] [.simple "A", .simple "B"] ["0", "1"]
    [⟨.simple "A", [.simple "A", .simple "B"], "0"⟩, ⟨.simple "A", [.simple "B"], "1"⟩]

/-- There are three such sets and three steps. The trap is a fourth state, and no step takes it off
the stack. -/
theorem taken_determinized_everySet :
    everySet.Simple ∧ everySet.determinized.completedSteps? = some 3 ∧
      (Subset.taken everySet.eliminated 2).isSome ∧ Subset.taken everySet.eliminated 3 = none ∧
      3 = (everySet.determinized.automaton.states.filter fun s => s ≠ .trap).length ∧
      3 ≤ 2 ^ everySet.met.length - 1 ∧ everySet.met.length = 2 ∧
      everySet.determinized.automaton.states.length = 4 := by
  have hsimple : everySet.Simple := by decide
  obtain ⟨n, hn, -, -, htaken, -, hexact⟩ := taken_determinized everySet
  have hthree : everySet.determinized.completedSteps? = some 3 := by decide
  obtain rfl : n = 3 := Option.some.inj (hn.symm.trans hthree)
  obtain ⟨hstates, hbound⟩ := hexact hsimple
  have hover : Subset.taken everySet.eliminated 3 = none := by
    rw [← Option.not_isSome_iff_eq_none, htaken]
    omega
  exact ⟨hsimple, hthree, (htaken 2).mpr (by omega), hover, hstates, hbound, by decide, by decide⟩

end Automaton

end Determinize
