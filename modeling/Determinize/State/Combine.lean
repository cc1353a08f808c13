import Determinize.State.Order
/-!
# Combining states

A set of states is named by one state. Composite states are flattened, nothing at all has no
name, a single member is its own name, and the trap disappears beside any other state, since it
accepts nothing.

## Main definitions

* `State.ofNames?` — the state that stands for a set of names
* `State.combine` — the state that stands for a collection of states, absent entries ignored

## Main results

* `State.names_of_ofNames?` — the names of the state are the names it was made from
* `State.ofNames?_names` — a state other than the trap is determined by its names
-/

namespace Determinize

namespace State

/-- The state that stands for the ascending list of names `l`, if there is a name. -/
def ofAscending? : (l : List String) → Ascending l → Option State
  | [], _ => none
  | [n], _ => some (simple n)
  | n :: m :: l, h => some (composite ⟨n :: m :: l, h, Nat.le_add_left 2 l.length⟩)

theorem ascending_ascending_names (l : List String) : Ascending (ascending l) :=
  pairwise_ascending l

/-- The state that stands for the set of the names `l`, if there is a name. -/
def ofNames? (l : List String) : Option State :=
  ofAscending? (ascending l) (ascending_ascending_names l)

/-- The state that stands for all entries together; `none` if there is no entry. -/
def combine (entries : List (Option State)) : Option State :=
  (ofNames? (entries.reduceOption.flatMap names)).or
    (if trap ∈ entries.reduceOption then some trap else none)

variable {s : State} {l : List String}

/-! ### The names of the result -/

theorem ofAscending?_eq_none_iff (h : Ascending l) : ofAscending? l h = none ↔ l = [] := by
  cases l with
  | nil => simp [ofAscending?]
  | cons n l => cases l <;> simp [ofAscending?]

theorem names_of_ofAscending? {h : Ascending l} (hs : ofAscending? l h = some s) :
    s.names = l ∧ s ≠ trap := by
  cases l with
  | nil => simp [ofAscending?] at hs
  | cons n l =>
    cases l with
    | nil =>
      simp only [ofAscending?, Option.some.injEq] at hs
      subst hs
      exact ⟨rfl, by simp⟩
    | cons m l =>
      simp only [ofAscending?, Option.some.injEq] at hs
      subst hs
      exact ⟨rfl, by simp⟩

theorem names_of_ofNames? (hs : ofNames? l = some s) : s.names = ascending l ∧ s ≠ trap :=
  names_of_ofAscending? hs

theorem ofNames?_eq_none_iff : ofNames? l = none ↔ l = [] := by
  rw [ofNames?, ofAscending?_eq_none_iff]
  constructor
  · intro h
    cases l with
    | nil => rfl
    | cons n l =>
      have : n ∈ ascending (n :: l) := mem_ascending.2 List.mem_cons_self
      rw [h] at this
      exact absurd this List.not_mem_nil
  · rintro rfl
    rfl

/-- A state other than the trap is the state of its names. -/
theorem ofNames?_names (h : s ≠ trap) : ofNames? s.names = some s := by
  cases hs : ofNames? s.names with
  | none =>
    cases s with
    | simple n => exact absurd (ofNames?_eq_none_iff.1 hs) (by simp)
    | composite g =>
      have := g.two_le
      rw [show g.names = [] from ofNames?_eq_none_iff.1 hs] at this
      exact absurd this (by decide)
    | trap => exact absurd rfl h
  | some t =>
    have ht := names_of_ofNames? hs
    rw [s.ascending_names.ascending_eq] at ht
    -- the same names, and neither is the trap: so the same kind
    cases s with
    | simple n =>
      cases t with
      | simple m => simpa using ht.1
      | composite g =>
        have := g.two_le
        rw [show g.names = [n] from ht.1] at this
        exact absurd this (by simp)
      | trap => exact absurd rfl ht.2
    | composite g =>
      cases t with
      | simple m =>
        have := g.two_le
        rw [show g.names = [m] from ht.1.symm] at this
        exact absurd this (by simp)
      | composite k =>
        refine congrArg some (eq_of_rank_of_names rfl ht.1)
      | trap => exact absurd rfl ht.2
    | trap => exact absurd rfl h

example : combine [some (simple "B"), none, some (simple "A"), some trap] = ofNames? ["A", "B"] := by
  decide

end State

end Determinize
