/-!
# Strictly ascending lists

A finite set of ordered things is kept as its strictly ascending list. Two such lists with the
same members are equal, so the list is a name of the set that does not remember how the set was
put together.

## Main definitions

* `Ascending` — the lists in question
* `insertAscending` — adds a member, unless it is there
* `ascending` — the ascending list of the members of a list

## Main results

* `mem_ascending`, `pairwise_ascending` — what `ascending` holds, and in which order
* `Ascending.eq_of_mem_iff` — a strictly ascending list is determined by its members
-/

namespace Determinize

variable {α : Type}

/-- A list is ascending when each member is less than every later one. -/
def Ascending [LT α] (l : List α) : Prop := l.Pairwise (· < ·)

instance [LT α] [DecidableLT α] (l : List α) : Decidable (Ascending l) :=
  inferInstanceAs (Decidable (l.Pairwise (· < ·)))

/-- The ascending list `l` with `a` added at its place; unchanged if `a` is a member. -/
def insertAscending [LT α] [DecidableLT α] (a : α) : List α → List α
  | [] => [a]
  | b :: l => if a < b then a :: b :: l else if b < a then b :: insertAscending a l else b :: l

/-- The ascending list of the members of `l`. -/
def ascending [LT α] [DecidableLT α] (l : List α) : List α := l.foldr insertAscending []

variable {a b : α} {l k : List α}

/-! ### Members -/

@[simp] theorem mem_insertAscending [LT α] [DecidableLT α]
    [Std.Trichotomous fun a b : α => a < b] :
    a ∈ insertAscending b l ↔ a = b ∨ a ∈ l := by
  induction l with
  | nil => simp [insertAscending]
  | cons c l ih =>
    simp only [insertAscending]
    split
    · simp
    · split
      · simp only [List.mem_cons, ih]
        exact or_left_comm
      · rename_i h₁ h₂
        have : b = c := by
          rcases Std.lt_trichotomy b c with h | h | h
          · exact absurd h h₁
          · exact h
          · exact absurd h h₂
        subst this
        simp

@[simp] theorem mem_ascending [LT α] [DecidableLT α] [Std.Trichotomous fun a b : α => a < b] :
    a ∈ ascending l ↔ a ∈ l := by
  induction l with
  | nil => simp [ascending]
  | cons c l ih =>
    simp only [ascending, List.foldr_cons, mem_insertAscending, List.mem_cons]
    exact or_congr_right ih

/-! ### Order -/

theorem Ascending.insertAscending [LT α] [DecidableLT α] [Std.Trichotomous fun a b : α => a < b]
    [Trans (fun a b : α => a < b) (fun a b : α => a < b) fun a b : α => a < b]
    (h : Ascending l) : Ascending (insertAscending a l) := by
  induction l with
  | nil => simp [Determinize.insertAscending, Ascending]
  | cons c l ih =>
    have hc := List.pairwise_cons.1 h
    simp only [Determinize.insertAscending]
    split
    · rename_i hac
      refine List.pairwise_cons.2 ⟨fun x hx => ?_, h⟩
      rcases List.mem_cons.1 hx with rfl | hx
      · exact hac
      · exact Std.lt_trans hac (hc.1 x hx)
    · split
      · rename_i hca
        refine List.pairwise_cons.2 ⟨fun x hx => ?_, ih hc.2⟩
        rcases mem_insertAscending.1 hx with rfl | hx
        · exact hca
        · exact hc.1 x hx
      · exact h

theorem pairwise_ascending [LT α] [DecidableLT α] [Std.Trichotomous fun a b : α => a < b]
    [Trans (fun a b : α => a < b) (fun a b : α => a < b) fun a b : α => a < b]
    (l : List α) : Ascending (ascending l) := by
  induction l with
  | nil => exact List.Pairwise.nil
  | cons c l ih => exact ih.insertAscending

/-- A strictly ascending list is determined by its members. -/
theorem Ascending.eq_of_mem_iff [LT α] [Std.Irrefl fun a b : α => a < b]
    [Trans (fun a b : α => a < b) (fun a b : α => a < b) fun a b : α => a < b]
    (hl : Ascending l) (hk : Ascending k)
    (h : ∀ a, a ∈ l ↔ a ∈ k) : l = k := by
  induction l generalizing k with
  | nil =>
    cases k with
    | nil => rfl
    | cons c k => exact absurd ((h c).2 List.mem_cons_self) List.not_mem_nil
  | cons c l ih =>
    cases k with
    | nil => exact absurd ((h c).1 List.mem_cons_self) List.not_mem_nil
    | cons d k =>
      have hl' := List.pairwise_cons.1 hl
      have hk' := List.pairwise_cons.1 hk
      -- the two heads are the two least members
      have hcd : c = d := by
        rcases List.mem_cons.1 ((h c).1 List.mem_cons_self) with hc | hc
        · exact hc
        · rcases List.mem_cons.1 ((h d).2 List.mem_cons_self) with hd | hd
          · exact hd.symm
          · exact absurd (Std.lt_trans (hl'.1 d hd) (hk'.1 c hc)) Std.lt_irrefl
      subst hcd
      refine congrArg (c :: ·) (ih hl'.2 hk'.2 fun a => ⟨fun ha => ?_, fun ha => ?_⟩)
      · rcases List.mem_cons.1 ((h a).1 (List.mem_cons_of_mem _ ha)) with rfl | ha'
        · exact absurd (hl'.1 a ha) Std.lt_irrefl
        · exact ha'
      · rcases List.mem_cons.1 ((h a).2 (List.mem_cons_of_mem _ ha)) with rfl | ha'
        · exact absurd (hk'.1 a ha) Std.lt_irrefl
        · exact ha'

/-- An ascending list is its own ascending list. -/
theorem Ascending.ascending_eq [LT α] [DecidableLT α] [Std.Irrefl fun a b : α => a < b]
    [Std.Trichotomous fun a b : α => a < b]
    [Trans (fun a b : α => a < b) (fun a b : α => a < b) fun a b : α => a < b]
    (h : Ascending l) : ascending l = l :=
  (pairwise_ascending l).eq_of_mem_iff h fun _ => mem_ascending

/-- Lists with the same members have the same ascending list. -/
theorem ascending_eq_ascending [LT α] [DecidableLT α] [Std.Irrefl fun a b : α => a < b]
    [Std.Trichotomous fun a b : α => a < b]
    [Trans (fun a b : α => a < b) (fun a b : α => a < b) fun a b : α => a < b]
    (h : ∀ a, a ∈ l ↔ a ∈ k) : ascending l = ascending k :=
  (pairwise_ascending l).eq_of_mem_iff (pairwise_ascending k) fun a => by simp [h a]

example : ascending ["q1", "q0", "q1"] = ["q0", "q1"] := by decide

end Determinize
