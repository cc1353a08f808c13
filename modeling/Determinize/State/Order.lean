import Determinize.State.Basic
/-!
# The order of states

Simple states come first, then composite states, then the trap; within a kind the names decide,
read as words over the names. This is a strict total order, so a finite set of states has one
sorted list, whatever order its members arrived in.

## Main definitions

* `State.rank` — the place of the kind of a state
* the instances `LT State` and `DecidableLT State`
* `State.sorted` — a list of states in order, repetitions kept

## Main results

* `State.lt_irrefl`, `State.lt_trans`, `State.lt_trichotomy`
* `State.sorted_eq_of_perm` — sorting forgets the order of arrival
-/

namespace Determinize

namespace State

/-- The place of the kind of a state: simple, composite, trap. -/
def rank : State → Nat
  | simple _ => 0
  | composite _ => 1
  | trap => 2

instance : LT State where
  lt s t := s.rank < t.rank ∨ s.rank = t.rank ∧ s.names < t.names

instance : DecidableLT State := fun s t =>
  inferInstanceAs (Decidable (s.rank < t.rank ∨ s.rank = t.rank ∧ s.names < t.names))

variable {s t u : State}

/-- Rank and names together determine a state. -/
theorem eq_of_rank_of_names (hr : s.rank = t.rank) (hn : s.names = t.names) : s = t := by
  cases s with
  | simple n => cases t <;> simp_all [rank]
  | composite g =>
    cases t with
    | simple n => simp [rank] at hr
    | composite k =>
      cases g
      cases k
      simp_all
    | trap => simp [rank] at hr
  | trap => cases t <;> simp_all [rank]

theorem lt_irrefl (s : State) : ¬s < s := by
  rintro (h | ⟨_, h⟩)
  · exact Nat.lt_irrefl _ h
  · exact List.lt_irrefl _ h

theorem lt_trans (hst : s < t) (htu : t < u) : s < u := by
  rcases hst with h₁ | ⟨h₁, h₁'⟩ <;> rcases htu with h₂ | ⟨h₂, h₂'⟩
  · exact Or.inl (Nat.lt_trans h₁ h₂)
  · exact Or.inl (h₂ ▸ h₁)
  · exact Or.inl (h₁ ▸ h₂)
  · exact Or.inr ⟨h₁.trans h₂, List.lt_trans h₁' h₂'⟩

theorem lt_trichotomy (s t : State) : s < t ∨ s = t ∨ t < s := by
  rcases Nat.lt_trichotomy s.rank t.rank with h | h | h
  · exact Or.inl (Or.inl h)
  · rcases Std.lt_trichotomy s.names t.names with h' | h' | h'
    · exact Or.inl (Or.inr ⟨h, h'⟩)
    · exact Or.inr (Or.inl (eq_of_rank_of_names h h'))
    · exact Or.inr (Or.inr (Or.inr ⟨h.symm, h'⟩))
  · exact Or.inr (Or.inr (Or.inl h))

theorem lt_asymm (h : s < t) : ¬t < s := fun h' => lt_irrefl s (lt_trans h h')

theorem ne_of_lt (h : s < t) : s ≠ t := fun heq => lt_irrefl t (heq ▸ h)

instance : Std.Irrefl fun s t : State => s < t := ⟨lt_irrefl⟩

instance : Std.Trichotomous fun s t : State => s < t where
  trichotomous s t h₁ h₂ := by
    rcases lt_trichotomy s t with h | h | h
    · exact absurd h h₁
    · exact h
    · exact absurd h h₂

instance : Trans (fun s t : State => s < t) (fun s t : State => s < t) fun s t : State => s < t where
  trans := lt_trans

/-! ### Sorting -/

/-- Whether `s` may stand before `t` in a sorted list. -/
def atMost (s t : State) : Bool := !decide (t < s)

/-- The states of a list in order; repetitions are kept. -/
def sorted (l : List State) : List State := l.mergeSort atMost

theorem atMost_trans (s t u : State) (h₁ : atMost s t = true) (h₂ : atMost t u = true) :
    atMost s u = true := by
  simp only [atMost, Bool.not_eq_true', decide_eq_false_iff_not] at *
  intro h
  rcases lt_trichotomy s t with hst | rfl | hst
  · exact h₂ (lt_trans h hst)
  · exact h₂ h
  · exact h₁ hst

theorem atMost_total (s t : State) : (atMost s t || atMost t s) = true := by
  simp only [atMost, Bool.or_eq_true, Bool.not_eq_true', decide_eq_false_iff_not]
  exact (Classical.em (t < s)).elim (fun h => Or.inr (lt_asymm h)) Or.inl

theorem perm_sorted (l : List State) : (sorted l).Perm l := List.mergeSort_perm l _

/-- In a sorted list no state stands before a lesser one. -/
theorem pairwise_sorted (l : List State) : (sorted l).Pairwise fun s t => ¬t < s := by
  refine (List.pairwise_mergeSort atMost_trans atMost_total l).imp fun h => ?_
  simpa only [atMost, Bool.not_eq_true', decide_eq_false_iff_not] using h

@[simp] theorem mem_sorted {l : List State} : s ∈ sorted l ↔ s ∈ l := (perm_sorted l).mem_iff

/-- There is only one way to put a list in order. -/
theorem eq_of_perm_of_pairwise {l k : List State} (h : l.Perm k)
    (hl : l.Pairwise fun s t => ¬t < s) (hk : k.Pairwise fun s t => ¬t < s) : l = k := by
  refine List.Perm.eq_of_pairwise (fun a b _ _ h₁ h₂ => ?_) hl hk h
  rcases lt_trichotomy a b with h | h | h
  · exact absurd h h₂
  · exact h
  · exact absurd h h₁

/-- Two lists with the same states equally often have the same sorted list. -/
theorem sorted_eq_of_perm {l k : List State} (h : l.Perm k) : sorted l = sorted k :=
  eq_of_perm_of_pairwise (((perm_sorted l).trans h).trans (perm_sorted k).symm) (pairwise_sorted l)
    (pairwise_sorted k)

example : simple "TRAP" < trap := by decide

end State

end Determinize
