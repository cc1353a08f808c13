/-!
# Lists without repetitions

What the library keeps of a collection is the first occurrence of each member, in order of
arrival. The operation is `List.eraseDups`; this file says what it returns.
-/

namespace Determinize

variable {α : Type} [BEq α] [LawfulBEq α] {l : List α}

theorem nodup_eraseDups (l : List α) : l.eraseDups.Nodup := by
  -- the tail loses every copy of the head before it is cleaned, so induct on the length
  generalize hn : l.length = n
  induction n using Nat.strongRecOn generalizing l with
  | _ n ih =>
    cases l with
    | nil => simp
    | cons a l =>
      rw [List.eraseDups_cons, List.nodup_cons]
      constructor
      · simp [List.mem_eraseDups]
      · refine ih _ ?_ _ rfl
        have := List.length_filter_le (fun b => !b == a) l
        simp only [List.length_cons] at hn
        omega

/-- A list without repetitions stays as it is. -/
theorem eraseDups_eq_self (h : l.Nodup) : l.eraseDups = l := by
  induction l with
  | nil => simp
  | cons a l ih =>
    have ha := List.nodup_cons.1 h
    rw [List.eraseDups_cons, List.filter_eq_self.2, ih ha.2]
    intro b hb
    have : b ≠ a := fun he => ha.1 (he ▸ hb)
    simp [this]

end Determinize
