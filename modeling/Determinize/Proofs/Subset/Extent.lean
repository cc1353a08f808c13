import Determinize.Proofs.Subset.Prefixes

/-!
# What a construction lists, whatever its order

The stack decides in which order sets are found and when the trap is made. What is found in the end
does not depend on that, as long as no state of the given automaton is a set or a trap already: the
sets listed are those that words lead to, and each has one transition on each symbol, for the set
that follows.

The number of steps does not depend on it either. Every set found is put onto the stack once and
taken off once, except for the trap, which is listed without being put there. So the steps of a
whole construction are as many as the sets listed besides the trap.

## Main definitions

* `Subset.Course.Counted` — the sets found, the trap apart, are those on the stack and those taken off

## Main results

* `Subset.mem_states_complete_iff`, `Subset.mem_finals_complete_iff`,
  `Subset.mem_transitions_complete_iff` — what is listed
* `Subset.completedSteps_eq` — the number of steps
-/

namespace Determinize

namespace Subset

variable {a : Automaton} {index : Index} {alphabet : List Symbol} {s t : State} {x : Symbol}
  {e : Transition}

/-! ### Sets and transitions -/

/-- The sets listed are those that words lead to. -/
theorem mem_states_complete_iff (h : a.Plain) (hsymbols : ∀ x ∈ a.alphabet, x.isEpsilon = false) :
    s ∈ (complete a).states ↔ ∃ word ∈ a.words, word.foldl (follow a.index) a.initial = s := by
  constructor
  · intro hs
    exact (settled_course a (bound a)).reached s (mem_states_automaton.mp hs)
  · rintro ⟨word, hword, rfl⟩
    have hmoves := movesBy_course h
    exact hmoves.foldl_mem hmoves.initial_mem fun x hx =>
      mem_alphabet_automaton.mpr ⟨hword x hx, hsymbols x (hword x hx)⟩

/-- The final sets are the listed ones with a part that is final. -/
theorem mem_finals_complete_iff :
    s ∈ (complete a).finals ↔ s ∈ (complete a).states ∧ ∃ p ∈ s.parts, p ∈ a.finals := by
  rw [← Automaton.isFinal_iff, isFinal_automaton, mem_states_automaton]

/-- Every transition leads to the set that follows; for a loop of the trap that is the trap. -/
theorem targets_eq_of_mem_complete (h : a.Plain) (he : e ∈ (complete a).transitions) :
    e.targets = [follow a.index e.source e.symbol] := by
  obtain ⟨t, -, htargets, ht | ⟨hsource, ht⟩⟩ := ((settled_course a (bound a)).lawful e he).target
  · rw [htargets, ht]
  · rw [htargets, ht, hsource, follow_trap h]

/-- Each set listed has one transition on each symbol, for the set that follows. -/
theorem mem_transitions_complete_iff (h : a.Plain) :
    e ∈ (complete a).transitions ↔ e.source ∈ (complete a).states ∧ e.symbol ∈ a.alphabet ∧
      e.targets = [follow a.index e.source e.symbol] := by
  have hsettled := settled_course a (bound a)
  constructor
  · intro he
    have hlawful := hsettled.lawful e he
    exact ⟨mem_states_automaton.mpr hlawful.source_mem, hlawful.symbol_mem,
      targets_eq_of_mem_complete h he⟩
  · rintro ⟨hs, hx, htargets⟩
    obtain ⟨f, hf, hsource, hsymbol⟩ :=
      hsettled.covered e.source (mem_states_automaton.mp hs) (by simp [pending_course]) e.symbol hx
    have hfe : f = e := by
      have hftargets := targets_eq_of_mem_complete h hf
      rw [hsource, hsymbol, ← htargets] at hftargets
      cases f
      cases e
      simp_all
    exact hfe ▸ hf

/-! ### Steps -/

namespace Course

variable {c : Course}

/-- The sets found, the trap apart, are as many as have been taken off the stack or are on it. -/
def Counted (c : Course) : Prop :=
  (c.states.filter fun s => s ≠ .trap).length = c.steps + c.pending.length

theorem Counted.start (h : s ≠ .trap) : (start s).Counted := by
  simp [Counted, Course.start, h]

theorem Counted.discover (h : c.Counted) (ht : t ≠ .trap) : (c.discover t).Counted := by
  rw [Course.discover]
  split
  · exact h
  · rw [Counted] at h
    simp only [Counted, List.filter_append, List.length_append, h]
    simp [ht, Nat.add_assoc]

theorem Counted.discoverTrap (h : c.Counted) : (c.discoverTrap alphabet).Counted := by
  rw [Course.discoverTrap]
  split
  · exact h
  · simpa [Counted] using h

theorem Counted.addMove (h : c.Counted) (ht : target? index s x ≠ some .trap) :
    (c.addMove alphabet s x (target? index s x)).Counted := by
  cases htarget : target? index s x with
  | some t =>
    have hcounted : (c.addTransition s t x).Counted := h
    refine hcounted.discover ?_
    rintro rfl
    exact ht htarget
  | none => exact h.discoverTrap

theorem Counted.explore (h : c.Counted) (ht : ∀ x, target? index s x ≠ some .trap) :
    (c.explore index alphabet s).Counted :=
  explore_induction (fun _ x hc => hc.addMove (ht x)) h

/-- A step takes one set off the stack and counts it. -/
theorem Counted.step (h : c.Counted) (ht : ∀ s x, target? index s x ≠ some .trap) :
    (c.step index alphabet).Counted := by
  cases hp : c.pending with
  | nil => rwa [step_of_pending_eq_nil hp]
  | cons s rest =>
    simp only [Course.step, hp]
    refine Counted.explore ?_ (ht s)
    rw [Counted, hp] at h
    simp only [Counted, h, List.length_cons]
    omega

theorem Counted.run (h : c.Counted) (ht : ∀ s x, target? index s x ≠ some .trap) (n : ℕ) :
    (run index alphabet n c).Counted :=
  run_induction (fun _ hc => hc.step ht) h n

end Course

/-- No set leads to the trap of itself, since the states it leads to have names. -/
theorem target?_ne_trap (h : a.Plain) : target? a.index s x ≠ some .trap := by
  intro htrap
  have hsome : ∃ q, some q ∈ (s.parts.flatMap fun p => a.index.successors p x).map some := by
    by_contra hnone
    push Not at hnone
    have := State.combine_eq_none_iff.mpr hnone
    rw [target?, this] at htrap
    exact absurd htrap (by simp)
  obtain ⟨q, hq⟩ := hsome
  obtain ⟨p, -, hpq⟩ : ∃ p ∈ s.parts, q ∈ successors a.transitions p x := by
    simpa [List.mem_flatMap] using hq
  obtain ⟨e, he, -, -, hqe⟩ := mem_successors.mp hpq
  obtain ⟨n, rfl⟩ := Automaton.exists_of_isSimple (h.targets e he q hqe)
  have hn : n ∈ State.trap.names :=
    (State.mem_names_of_combine htrap).mpr ⟨_, hq, List.mem_singleton.mpr rfl⟩
  exact List.not_mem_nil hn

/-- **The steps of a construction are as many as the sets it lists besides the trap.** -/
theorem completedSteps_eq (h : a.Plain) :
    completedSteps a = ((complete a).states.filter fun s => s ≠ .trap).length := by
  have hinitial : a.initial ≠ .trap := by
    intro htrap
    exact absurd h.initial (by simp [htrap, State.isSimple])
  have hcounted : (course a (bound a)).Counted :=
    (Course.Counted.start hinitial).run (fun _ _ => target?_ne_trap h) (bound a)
  rw [Course.Counted, pending_course] at hcounted
  rw [complete, states_automaton_course, hcounted]
  rfl

end Subset

end Determinize
