import Determinize.Epsilon.Closure
import Determinize.Order.Distinct
import Mathlib.Data.List.Nodup
import Mathlib.Data.List.Perm.Subperm
import Mathlib.Logic.Relation

/-!
# The closure search finds what is reached, and nothing else

The search keeps the states found and a stack of those whose successors are still to be looked at.
Its invariant says that everything found is reached from the roots, and that a state which has
left the stack has all its successors found. So when the stack is empty, the states found are
those reached. The stack does become empty within the steps the search is given: each step takes
one state off it, and each state is put onto it once.

## Main definitions

* `Closure.Leads` — one state follows another
* `Closure.Search.Sound` — the invariant of the search

## Main results

* `Closure.Search.Sound.step`, `Closure.Search.Sound.run` — the invariant is kept
* `Closure.Search.pending_run`, `Closure.Search.pending_run_start` — enough steps empty the stack
* `mem_closureFrom`, `mem_closure` — a closure is the set of the states reached
-/

namespace Determinize

variable {transitions : List Transition} {s t u : State} {l : List State}

namespace Closure

/-- The state `t` comes directly after `s`. -/
def Leads (next : State → List State) (s t : State) : Prop := t ∈ next s

namespace Search

variable {next : State → List State} {search : Search}

/-- What is true of a search from the roots `l` at every moment. -/
structure Sound (next : State → List State) (l : List State) (search : Search) : Prop where
  /-- No state is found twice. -/
  nodup : search.found.Nodup
  /-- What is still to be looked at has been found. -/
  pending_subset : search.pending ⊆ search.found
  /-- The roots have been found. -/
  roots_subset : l ⊆ search.found
  /-- Whatever has been found is reached from a root. -/
  reached : ∀ t ∈ search.found, ∃ s ∈ l, Relation.ReflTransGen (Leads next) s t
  /-- The successors of a state that has been looked at have been found. -/
  closed : ∀ t ∈ search.found, t ∉ search.pending → next t ⊆ search.found

theorem Sound.start (next : State → List State) (l : List State) : Sound next l (start l) where
  nodup := nodup_eraseDups l
  pending_subset := List.Subset.refl _
  roots_subset _ hs := List.mem_eraseDups.mpr hs
  reached t ht := ⟨t, List.mem_eraseDups.mp ht, .refl⟩
  closed _ ht hp := absurd ht hp

/-! ### One step -/

/-- The successors of `s` that a step finds for the first time. -/
def fresh (next : State → List State) (search : Search) (s : State) : List State :=
  ((next s).filter fun t => t ∉ search.found).eraseDups

theorem mem_fresh : t ∈ fresh next search s ↔ t ∈ next s ∧ t ∉ search.found := by
  simp [fresh, List.mem_eraseDups]

theorem step_of_pending {rest : List State} (h : search.pending = s :: rest) :
    search.step next =
      ⟨search.found ++ fresh next search s, (fresh next search s).reverse ++ rest⟩ := by
  simp only [Search.step, h, fresh]

theorem nodup_found_append_fresh (h : search.found.Nodup) :
    (search.found ++ fresh next search s).Nodup := by
  refine List.nodup_append.mpr ⟨h, nodup_eraseDups _, fun a ha b hb hab => ?_⟩
  exact (mem_fresh.mp hb).2 (hab ▸ ha)

theorem Sound.step (h : Sound next l search) : Sound next l (search.step next) := by
  cases hp : search.pending with
  | nil => simpa only [Search.step, hp] using h
  | cons s rest =>
    have hs : s ∈ search.found := h.pending_subset (by simp [hp])
    rw [step_of_pending hp]
    refine ⟨nodup_found_append_fresh h.nodup, fun t ht => ?_, fun t ht => ?_, fun t ht => ?_,
      fun t ht htp u hu => ?_⟩
    · rcases List.mem_append.mp ht with ht | ht
      · exact List.mem_append_right _ (List.mem_reverse.mp ht)
      · exact List.mem_append_left _ (h.pending_subset (by simp [hp, ht]))
    · exact List.mem_append_left _ (h.roots_subset ht)
    · rcases List.mem_append.mp ht with ht | ht
      · exact h.reached t ht
      · obtain ⟨r, hr, hrs⟩ := h.reached s hs
        exact ⟨r, hr, hrs.tail (mem_fresh.mp ht).1⟩
    · -- a state that has left the stack is `s` itself or had left it before
      simp only [List.mem_append, List.mem_reverse, not_or] at ht htp ⊢
      have htf : t ∈ search.found := ht.resolve_right htp.1
      by_cases hts : t = s
      · subst hts
        by_cases hu' : u ∈ search.found
        · exact Or.inl hu'
        · exact Or.inr (mem_fresh.mpr ⟨hu, hu'⟩)
      · exact Or.inl (h.closed t htf (by simp [hp, hts, htp.2]) hu)

/-! ### The whole search -/

theorem Sound.run (h : Sound next l search) (n : ℕ) : Sound next l (run next n search) := by
  induction n generalizing search with
  | zero => exact h
  | succ n ih =>
    cases hp : search.pending with
    | nil => simpa only [Search.run, hp] using h
    | cons s rest => simpa only [Search.run, hp] using ih h.step

/-- A search that stays within `univ` has looked at everything after as many steps as there are
members of `univ` it has not looked at. -/
theorem pending_run (univ : List State) (hs : Sound next l search) (hl : l ⊆ univ)
    (hnext : ∀ s, next s ⊆ univ) {n : ℕ}
    (hn : univ.length + search.pending.length ≤ n + search.found.length) :
    (run next n search).pending = [] := by
  induction n generalizing search with
  | zero =>
    have hfound : search.found ⊆ univ := by
      intro t ht
      obtain ⟨s, hs', hst⟩ := hs.reached t ht
      rcases Relation.ReflTransGen.cases_tail hst with rfl | ⟨u, -, hu⟩
      · exact hl hs'
      · exact hnext u hu
    have hle : search.found.length ≤ univ.length := (hs.nodup.subperm hfound).length_le
    exact List.eq_nil_of_length_eq_zero (by simp only [Search.run]; omega)
  | succ n ih =>
    cases hp : search.pending with
    | nil => simp only [Search.run, hp]
    | cons s rest =>
      simp only [Search.run, hp]
      refine ih hs.step ?_
      rw [step_of_pending hp]
      simp only [hp, List.length_cons, List.length_append, List.length_reverse] at hn ⊢
      omega

/-- When the stack is empty, the states found are those reached from the roots. -/
theorem Sound.mem_found_iff (h : Sound next l search) (hp : search.pending = []) :
    t ∈ search.found ↔ ∃ s ∈ l, Relation.ReflTransGen (Leads next) s t := by
  constructor
  · exact h.reached t
  · rintro ⟨s, hs, hst⟩
    induction hst with
    | refl => exact h.roots_subset hs
    | tail _ hbc ih => exact h.closed _ ih (by simp [hp]) hbc

end Search

end Closure

/-! ### Reached by epsilon transitions -/

theorem epsilonReach_iff_reflTransGen :
    EpsilonReach transitions s t ↔
      Relation.ReflTransGen (Closure.Leads (targetsFrom (silent transitions))) s t := by
  constructor
  · intro h
    induction h with
    | refl => exact .refl
    | tail _ he hsil hsrc hu ih =>
      exact ih.tail (mem_targetsFrom_silent.mpr ⟨_, he, hsil, hsrc, hu⟩)
  · intro h
    induction h with
    | refl => exact .refl
    | tail _ hbc ih =>
      obtain ⟨e, he, hsil, hsrc, hu⟩ := mem_targetsFrom_silent.mp hbc
      exact ih.tail he hsil hsrc hu

theorem EpsilonReach.trans (hst : EpsilonReach transitions s t)
    (htu : EpsilonReach transitions t u) : EpsilonReach transitions s u :=
  epsilonReach_iff_reflTransGen.mpr
    ((epsilonReach_iff_reflTransGen.mp hst).trans (epsilonReach_iff_reflTransGen.mp htu))

/-- A state that no epsilon transition leaves reaches itself only. -/
theorem EpsilonReach.eq_of_not_leaves (h : EpsilonReach transitions s t)
    (hs : ∀ e ∈ transitions, e.isEpsilon = true → e.source = s → e.targets = []) : t = s := by
  induction h with
  | refl => rfl
  | tail _ he hsil hsrc hu ih =>
    rw [hs _ he hsil (hsrc.trans ih)] at hu
    exact absurd hu List.not_mem_nil

/-- The search for a closure is given enough steps to look at everything it finds. -/
theorem Closure.Search.pending_run_start (transitions : List Transition) (l : List State) :
    (run (targetsFrom (silent transitions))
      (l.length + ((silent transitions).flatMap (·.targets)).length) (start l)).pending = [] := by
  refine pending_run (l ++ (silent transitions).flatMap (·.targets)) (Sound.start _ l)
    (List.subset_append_left _ _) (fun s u hu => ?_) ?_
  · obtain ⟨e, he, hu⟩ := List.mem_flatMap.mp hu
    exact List.mem_append_right _ (List.mem_flatMap.mpr ⟨e, List.mem_of_mem_filter he, hu⟩)
  · simp [start]

/-- **A closure is the set of the states reached.** -/
theorem mem_closureFrom :
    t ∈ closureFrom transitions l ↔ ∃ s ∈ l, EpsilonReach transitions s t := by
  have hsound := Closure.Search.Sound.start (targetsFrom (silent transitions)) l
  rw [closureFrom, (hsound.run _).mem_found_iff (Closure.Search.pending_run_start transitions l)]
  simp only [epsilonReach_iff_reflTransGen]

theorem mem_closure : t ∈ closure transitions s ↔ EpsilonReach transitions s t := by
  simp [closure, mem_closureFrom]

end Determinize
