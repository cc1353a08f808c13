import Determinize.Proofs.State.Members
import Determinize.Proofs.Subset.Course
import Determinize.Proofs.Successors
import Mathlib.Data.Finset.Powerset

/-!
# Every subset construction comes to its end

A set that follows another one stands for names of targets of transitions. There are finitely many
such names, so there are finitely many sets, and each is put onto the stack once. A construction
that was still going on after `Subset.bound` steps would have listed more sets than there are.

## Main results

* `Subset.mem_names_follow` — the names that a following set stands for
* `Subset.length_lt_of_names`, `Subset.length_le_of_names` — how many sets of given names there are
* `Subset.pending_course` — after `Subset.bound` steps the stack is empty
-/

namespace Determinize

namespace Subset

variable {index : Index} {alphabet : List Symbol} {init s t : State} {x : Symbol} {n : String}

/-! ### The names of the set that follows -/

/-- The set that follows stands for the names of all successors of its parts. -/
theorem mem_names_follow :
    n ∈ (follow index s x).names ↔
      ∃ p ∈ s.parts, ∃ q ∈ index.successors p x, n ∈ q.names := by
  have hentries : ∀ q, some q ∈ (s.parts.flatMap fun p => index.successors p x).map some ↔
      ∃ p ∈ s.parts, q ∈ index.successors p x := by
    simp [List.mem_flatMap]
  cases ht : target? index s x with
  | some t =>
    rw [follow, ht, Option.getD_some, State.mem_names_of_combine ht]
    simp only [hentries]
    constructor
    · rintro ⟨q, ⟨p, hp, hq⟩, hn⟩
      exact ⟨p, hp, q, hq, hn⟩
    · rintro ⟨p, hp, q, hq, hn⟩
      exact ⟨q, ⟨p, hp, hq⟩, hn⟩
  | none =>
    rw [follow, ht, Option.getD_none, State.names_trap]
    refine ⟨fun h => absurd h List.not_mem_nil, ?_⟩
    rintro ⟨p, hp, q, hq, -⟩
    exact absurd ((hentries q).mpr ⟨p, hp, hq⟩) (State.combine_eq_none_iff.mp ht q)

/-! ### How many sets there are -/

/-- Besides the trap there are fewer than `2 ^ k` states with names among `k`. -/
theorem length_lt_of_names {l : List State} {names : List String} (hl : l.Nodup)
    (h : ∀ s ∈ l, s ≠ .trap ∧ s.names ⊆ names) : l.length < 2 ^ names.length := by
  classical
  -- a state other than the trap is the set of its names, which is not empty
  have hnamed : l.toFinset.card ≤ (names.toFinset.powerset.erase ∅).card := by
    refine Finset.card_le_card_of_injOn (fun s => s.names.toFinset) (fun s hs => ?_) ?_
    · obtain ⟨htrap, hsub⟩ := h s (List.mem_toFinset.mp hs)
      simp only [Finset.coe_erase, Set.mem_sdiff, Finset.mem_coe, Finset.mem_powerset,
        Set.mem_singleton_iff, List.toFinset_eq_empty_iff]
      exact ⟨fun n hn => List.mem_toFinset.mpr (hsub (List.mem_toFinset.mp hn)),
        fun hnil => htrap (State.names_eq_nil_iff.mp hnil)⟩
    · intro s _ t _ hst
      refine State.eq_of_mem_names_iff fun n => ?_
      rw [← List.mem_toFinset, ← List.mem_toFinset]
      exact Finset.ext_iff.mp hst n
  have hpowerset : (names.toFinset.powerset.erase ∅).card + 1 = 2 ^ names.toFinset.card := by
    rw [Finset.card_erase_add_one (Finset.empty_mem_powerset _), Finset.card_powerset]
  have hpow : 2 ^ names.toFinset.card ≤ 2 ^ names.length :=
    Nat.pow_le_pow_right (by omega) names.toFinset_card_le
  rw [← List.toFinset_card_of_nodup hl]
  omega

/-- Besides two given states there are fewer than `2 ^ k` states with names among `k`. -/
theorem length_le_of_names (init : State) {l : List State} {names : List String} (hl : l.Nodup)
    (h : ∀ s ∈ l, s = init ∨ s = .trap ∨ s.names ⊆ names) : l.length ≤ 2 ^ names.length + 1 := by
  have herase : ∀ (k : List State) s, k.length ≤ (k.erase s).length + 1 := by
    intro k s
    rw [List.length_erase]
    split <;> omega
  have hrest : ((l.erase init).erase .trap).length < 2 ^ names.length := by
    refine length_lt_of_names ((hl.erase init).erase .trap) fun s hs => ?_
    obtain ⟨htrap, hs⟩ := (hl.erase init).mem_erase_iff.mp hs
    obtain ⟨hinit, hs⟩ := hl.mem_erase_iff.mp hs
    exact ⟨htrap, ((h s hs).resolve_left hinit).resolve_left htrap⟩
  have hinit := herase l init
  have htrap := herase (l.erase init) .trap
  omega

/-! ### The number of steps -/

namespace Course

variable {c : Course}

@[simp] theorem steps_discover : (c.discover t).steps = c.steps := by
  rw [discover]
  split <;> rfl

@[simp] theorem steps_discoverTrap : (c.discoverTrap alphabet).steps = c.steps := by
  rw [discoverTrap]
  split <;> rfl

theorem steps_addMove (t? : Option State) : (c.addMove alphabet s x t?).steps = c.steps := by
  cases t? with
  | some t => simp [addMove, addTransition]
  | none => simp [addMove, addTransition]

theorem steps_explore : (c.explore index alphabet s).steps = c.steps :=
  explore_induction (motive := fun d => d.steps = c.steps)
    (fun _ _ hd => (steps_addMove _).trans hd) rfl

theorem steps_step (h : c.pending ≠ []) : (c.step index alphabet).steps = c.steps + 1 := by
  obtain ⟨s, rest, hp⟩ := List.exists_cons_of_ne_nil h
  simp only [step, hp, steps_explore]

/-- A run that leaves something on the stack has made all its steps. -/
theorem steps_run (k : ℕ) (h : (run index alphabet k c).pending ≠ []) :
    (run index alphabet k c).steps = c.steps + k := by
  induction k generalizing c with
  | zero => rfl
  | succ k ih =>
    have hpending : c.pending ≠ [] := by
      intro hp
      rw [run_of_pending_eq_nil hp] at h
      exact h hp
    rw [run_succ] at h ⊢
    rw [ih h, steps_step hpending]
    omega

end Course

/-- The names that targets of transitions stand for. -/
def targetNames (a : Automaton) : List String :=
  ((a.transitions.flatMap (·.targets)).flatMap State.names).eraseDups

theorem names_follow_subset (a : Automaton) (s : State) (x : Symbol) :
    (follow a.index s x).names ⊆ targetNames a := by
  intro n hn
  obtain ⟨p, -, q, hq, hnq⟩ := mem_names_follow.mp hn
  rw [Automaton.successors_index] at hq
  obtain ⟨e, he, -, -, hqe⟩ := mem_successors.mp hq
  exact List.mem_eraseDups.mpr
    (List.mem_flatMap.mpr ⟨q, List.mem_flatMap.mpr ⟨e, he, hqe⟩, hnq⟩)

/-- What a construction lists besides its first set follows some set. -/
theorem names_subset_of_foldl (a : Automaton) (word : List Symbol) :
    word.foldl (follow a.index) init = init ∨
      (word.foldl (follow a.index) init).names ⊆ targetNames a := by
  induction word using List.reverseRecOn with
  | nil => exact Or.inl rfl
  | append_singleton word x _ =>
    rw [List.foldl_append, List.foldl_cons, List.foldl_nil]
    exact Or.inr (names_follow_subset a _ x)

theorem settled_course (a : Automaton) (k : ℕ) :
    Course.Settled a.index a.alphabet a.initial (course a k) :=
  (Course.Settled.start a.index a.alphabet a.initial).run k

/-- **The construction comes to its end** within the steps it is given. -/
theorem pending_course (a : Automaton) : (course a (bound a)).pending = [] := by
  by_contra hpending
  have hsettled := settled_course a (bound a)
  have hsteps : (course a (bound a)).steps = 0 + bound a := Course.steps_run (bound a) hpending
  have hlength : (course a (bound a)).states.length ≤ 2 ^ (targetNames a).length + 1 := by
    refine length_le_of_names a.initial hsettled.nodup_states fun t ht => ?_
    obtain ⟨word, -, rfl⟩ := hsettled.reached t ht
    exact (names_subset_of_foldl a word).imp_right Or.inr
  have hbound : bound a = 2 ^ (targetNames a).length + 1 := rfl
  have := hsettled.steps_le
  have := List.length_pos_iff.mpr hpending
  omega

end Subset

end Determinize
