import Determinize.Proofs.Epsilon.Reachability
import Mathlib.Data.List.Infix
import Mathlib.Logic.Function.Iterate

/-!
# The closure search comes to an end

A closure is defined by a search that is run for a fixed number of steps. The number is of no
importance: a search with nothing left to look at stays as it is, so two searches from the same
roots that have both come to their end have found the same states, in the same order.

The length of a search is known exactly. Each step takes one state off the stack and puts on the
stack whatever it finds, so the states found are those on the stack and one for each step. Hence
the stack is empty as soon as there have been as many steps as there are states in the closure,
and not before, whatever cycles the epsilon transitions make.

## Main definitions

* `Closure.searched` — the search for a closure after some steps

## Main results

* `Closure.Search.run_eq_iterate` — a run of the search is one step after another
* `Closure.Search.length_found_iterate` — steps taken, states found and states on the stack
* `pending_searched_eq_nil_iff` — the search ends after one step for each state of the closure
* `closure_exact` — the search ends, and finds each state that is reached once
-/

namespace Determinize

variable {transitions : List Transition} {l : List State}

namespace Closure.Search

variable {next : State → List State} {search : Search} {n m : ℕ}

/-! ### A search that has come to its end -/

theorem step_of_pending_eq_nil (h : search.pending = []) : search.step next = search := by
  simp only [Search.step, h]

/-- A run of at most `n` steps is `n` steps, since a step that has nothing to look at does
nothing. -/
theorem run_eq_iterate (next : State → List State) (n : ℕ) (search : Search) :
    run next n search = (step next)^[n] search := by
  induction n generalizing search with
  | zero => rfl
  | succ n ih =>
    rw [Function.iterate_succ_apply]
    cases hp : search.pending with
    | nil =>
      rw [step_of_pending_eq_nil hp, Function.iterate_fixed (step_of_pending_eq_nil hp) n]
      simp only [Search.run, hp]
    | cons s rest =>
      simp only [Search.run, hp]
      exact ih (search.step next)

theorem iterate_eq_of_le (h : ((step next)^[n] search).pending = []) (hnm : n ≤ m) :
    (step next)^[m] search = (step next)^[n] search := by
  obtain ⟨k, rfl⟩ := Nat.exists_eq_add_of_le hnm
  rw [Nat.add_comm, Function.iterate_add_apply]
  exact Function.iterate_fixed (step_of_pending_eq_nil h) k

/-- It does not matter after how many steps one looks at a search that has come to its end. -/
theorem iterate_eq_iterate (hn : ((step next)^[n] search).pending = [])
    (hm : ((step next)^[m] search).pending = []) :
    (step next)^[n] search = (step next)^[m] search := by
  rcases Nat.le_total n m with h | h
  · exact (iterate_eq_of_le hn h).symm
  · exact iterate_eq_of_le hm h

/-! ### How long it takes -/

theorem length_found_step (next : State → List State) (h : search.pending ≠ []) :
    (search.step next).found.length + search.pending.length =
      search.found.length + (search.step next).pending.length + 1 := by
  obtain ⟨s, rest, hp⟩ := List.exists_cons_of_ne_nil h
  rw [step_of_pending hp]
  simp only [hp, List.length_append, List.length_reverse, List.length_cons]
  omega

/-- A search that begins with all it has found on the stack has looked at `k` states when it has
found `k` more than are on the stack; and it looks at one in each step until the stack is empty. -/
theorem length_found_iterate (h : search.found.length = search.pending.length) (n : ℕ) :
    ∃ k ≤ n, ((step next)^[n] search).found.length =
        k + ((step next)^[n] search).pending.length ∧
      (k = n ∨ ((step next)^[n] search).pending = []) := by
  induction n with
  | zero =>
    refine ⟨0, Nat.le_refl 0, ?_, Or.inl rfl⟩
    show search.found.length = 0 + search.pending.length
    omega
  | succ n ih =>
    obtain ⟨k, hk, hlength, hcases⟩ := ih
    rw [Function.iterate_succ_apply']
    by_cases hp : ((step next)^[n] search).pending = []
    · rw [step_of_pending_eq_nil hp]
      exact ⟨k, Nat.le_succ_of_le hk, hlength, Or.inr hp⟩
    · have hstep := length_found_step next hp
      obtain rfl : k = n := hcases.resolve_right hp
      exact ⟨k + 1, Nat.le_refl _, by omega, Or.inl rfl⟩

/-! ### What comes first -/

theorem isPrefix_found_step (next : State → List State) (search : Search) :
    search.found <+: (search.step next).found := by
  cases hp : search.pending with
  | nil => rw [step_of_pending_eq_nil hp]
  | cons s rest =>
    rw [step_of_pending hp]
    exact List.prefix_append ..

/-- States that are found stay where they are in the order of discovery. -/
theorem isPrefix_found_iterate (next : State → List State) (search : Search) (n : ℕ) :
    search.found <+: ((step next)^[n] search).found := by
  induction n with
  | zero => exact List.prefix_rfl
  | succ n ih =>
    rw [Function.iterate_succ_apply']
    exact ih.trans (isPrefix_found_step next _)

end Closure.Search

/-! ### The search for a closure -/

/-- The search for what is reached from the states `l` by epsilon transitions, after `n` steps. -/
def Closure.searched (transitions : List Transition) (l : List State) (n : ℕ) : Closure.Search :=
  (Closure.Search.step (targetsFrom (silent transitions)))^[n] (.start l)

open Closure (searched)

/-- The search for a closure at the end of the steps it is given. -/
theorem exists_searched_eq (transitions : List Transition) (l : List State) :
    ∃ n, (searched transitions l n).pending = [] ∧
      (searched transitions l n).found = closureFrom transitions l := by
  have hpending := Closure.Search.pending_run_start transitions l
  rw [Closure.Search.run_eq_iterate] at hpending
  refine ⟨_, hpending, ?_⟩
  rw [searched, ← Closure.Search.run_eq_iterate]
  rfl

theorem nodup_closureFrom (transitions : List Transition) (l : List State) :
    (closureFrom transitions l).Nodup :=
  ((Closure.Search.Sound.start (targetsFrom (silent transitions)) l).run _).nodup

theorem head?_closure (transitions : List Transition) (s : State) :
    (closure transitions s).head? = some s := by
  obtain ⟨n, -, hfound⟩ := exists_searched_eq transitions [s]
  obtain ⟨rest, hrest⟩ :=
    Closure.Search.isPrefix_found_iterate (targetsFrom (silent transitions)) (.start [s]) n
  rw [closure, ← hfound, searched, ← hrest]
  rfl

theorem found_searched_of_pending_eq_nil {n : ℕ} (h : (searched transitions l n).pending = []) :
    (searched transitions l n).found = closureFrom transitions l := by
  obtain ⟨m, hm, hfound⟩ := exists_searched_eq transitions l
  rw [← hfound]
  exact congrArg _ (Closure.Search.iterate_eq_iterate h hm)

/-- At no time has the search found more than the closure. -/
theorem length_found_searched_le (transitions : List Transition) (l : List State) (n : ℕ) :
    (searched transitions l n).found.length ≤ (closureFrom transitions l).length := by
  have hsound := (Closure.Search.Sound.start (targetsFrom (silent transitions)) l).run n
  rw [Closure.Search.run_eq_iterate] at hsound
  refine (hsound.nodup.subperm fun t ht => ?_).length_le
  obtain ⟨s, hs, hst⟩ := hsound.reached t ht
  exact mem_closureFrom.mpr ⟨s, hs, epsilonReach_iff_reflTransGen.mpr hst⟩

/-- As long as there is something on the stack, the states found are those on the stack and one for
each step. -/
theorem length_found_searched (transitions : List Transition) (l : List State) (n : ℕ) :
    ∃ k ≤ n, (searched transitions l n).found.length =
        k + (searched transitions l n).pending.length ∧
      (k = n ∨ (searched transitions l n).pending = []) :=
  Closure.Search.length_found_iterate rfl n

/-- The search has looked at everything exactly when it has taken one step for each state of the
closure. -/
theorem pending_searched_eq_nil_iff {n : ℕ} :
    (searched transitions l n).pending = [] ↔ (closureFrom transitions l).length ≤ n := by
  obtain ⟨k, hk, hlength, hcases⟩ := length_found_searched transitions l n
  constructor
  · intro hp
    rw [← found_searched_of_pending_eq_nil hp, hlength, hp]
    exact hk
  · intro hn
    rcases hcases with rfl | hp
    · -- a state has been looked at in each step, and there are no more states than steps
      have hle := length_found_searched_le transitions l k
      exact List.eq_nil_of_length_eq_zero (by omega)
    · exact hp

/-- **The closure of a state is found exactly.** The search for it ends, after one step for each
state it finds; what it has found then is the closure; and the closure begins with the state, has no
repetitions and holds the states that are reached by epsilon transitions, and no others. -/
theorem closure_exact (transitions : List Transition) (s : State) :
    (∀ n, (searched transitions [s] n).pending = [] ↔ (closure transitions s).length ≤ n) ∧
      (∀ n, (closure transitions s).length ≤ n →
        (searched transitions [s] n).found = closure transitions s) ∧
      (closure transitions s).head? = some s ∧
      (closure transitions s).Nodup ∧
      ∀ t, t ∈ closure transitions s ↔ EpsilonReach transitions s t := by
  refine ⟨fun n => pending_searched_eq_nil_iff, fun n hn => ?_, head?_closure transitions s,
    nodup_closureFrom transitions [s], fun t => mem_closure⟩
  exact found_searched_of_pending_eq_nil (pending_searched_eq_nil_iff.mpr hn)

/-- A silent loop, and a silent cycle in two spellings. -/
def silentLoops : List Transition :=
  [⟨.simple "A", [.simple "A", .simple "B"], ""⟩, ⟨.simple "B", [.simple "A"], "λ"⟩,
    ⟨.simple "B", [.simple "C"], "0"⟩]

theorem closure_exact_silentLoops :
    closure silentLoops (.simple "B") = [.simple "B", .simple "A"] ∧
      EpsilonReach silentLoops (.simple "B") (.simple "A") ∧
      (searched silentLoops [.simple "B"] 1).pending ≠ [] ∧
      (searched silentLoops [.simple "B"] 2).found = closure silentLoops (.simple "B") := by
  obtain ⟨hended, hfound, -, -, hmem⟩ := closure_exact silentLoops (.simple "B")
  have hclosure : closure silentLoops (.simple "B") = [.simple "B", .simple "A"] := by decide
  refine ⟨hclosure, (hmem _).mp (by simp [hclosure]), ?_, hfound 2 (by simp [hclosure])⟩
  intro hone
  have hle := (hended 1).mp hone
  rw [hclosure] at hle
  exact absurd hle (by decide)

end Determinize
