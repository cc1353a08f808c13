import Determinize.State.Combine
import Mathlib.Data.List.ReduceOption
import Mathlib.Tactic.ByContra

/-!
# The names of a combined state

A combination of states stands for the names of all of them together. It has no name only where no
entry has one, and it is missing only where there is no entry.

## Main results

* `State.names_eq_nil_iff` — only the trap has no names
* `State.eq_of_names_eq` — a state is determined by its names
* `State.parts_of_mem_parts`, `State.exists_mem_parts_iff` — the parts of a state
* `State.mem_names_of_combine`, `State.combine_eq_none_iff` — what a combination stands for
-/

namespace Determinize

namespace State

variable {s t : State} {n : String} {entries : List (Option State)}

theorem names_eq_nil_iff : s.names = [] ↔ s = trap := by
  constructor
  · intro h
    by_contra hs
    have := ofNames?_names hs
    rw [h, ofNames?_eq_none_iff.mpr rfl] at this
    exact absurd this (by simp)
  · rintro rfl
    rfl

/-- A state is determined by its names. -/
theorem eq_of_names_eq (h : s.names = t.names) : s = t := by
  by_cases hs : s = trap
  · rw [hs, names_trap] at h
    rw [hs, names_eq_nil_iff.mp h.symm]
  · have ht : t ≠ trap := by
      rintro rfl
      exact hs (names_eq_nil_iff.mp h)
    have := ofNames?_names hs
    rw [h, ofNames?_names ht] at this
    exact (Option.some.inj this).symm

theorem eq_of_mem_names_iff (h : ∀ n, n ∈ s.names ↔ n ∈ t.names) : s = t :=
  eq_of_names_eq (s.ascending_names.eq_of_mem_iff t.ascending_names h)

/-- A part is made of itself alone. -/
theorem parts_of_mem_parts (h : t ∈ s.parts) : t.parts = [t] := by
  by_cases hs : s = trap
  · subst hs
    obtain rfl := List.mem_singleton.mp h
    rfl
  · rw [parts_eq_map_names hs] at h
    obtain ⟨n, -, rfl⟩ := List.mem_map.mp h
    rfl

/-- Apart from the trap, the parts of a state are its names. -/
theorem exists_mem_parts_iff {l : List State} (h : trap ∉ l) :
    (∃ p ∈ s.parts, p ∈ l) ↔ ∃ n ∈ s.names, simple n ∈ l := by
  by_cases hs : s = trap
  · subst hs
    simpa [parts] using h
  · simp [parts_eq_map_names hs]

/-- A combination stands for the names of all its entries. -/
theorem mem_names_of_combine (h : combine entries = some t) :
    n ∈ t.names ↔ ∃ s, some s ∈ entries ∧ n ∈ s.names := by
  have hmem : n ∈ entries.reduceOption.flatMap names ↔ ∃ s, some s ∈ entries ∧ n ∈ s.names := by
    simp [List.mem_flatMap, List.reduceOption_mem_iff]
  rw [combine] at h
  cases hnames : ofNames? (entries.reduceOption.flatMap names) with
  | some u =>
    rw [hnames, Option.some_or] at h
    obtain rfl := Option.some.inj h
    rw [(names_of_ofNames? hnames).1, mem_ascending, hmem]
  | none =>
    rw [hnames, Option.none_or] at h
    have hnil := ofNames?_eq_none_iff.mp hnames
    split at h
    · obtain rfl := Option.some.inj h
      rw [← hmem, hnil, names_trap]
    · exact absurd h (by simp)

theorem combine_eq_none_iff : combine entries = none ↔ ∀ s, some s ∉ entries := by
  constructor
  · intro h s hs
    rw [combine] at h
    rw [Option.or_eq_none_iff, ofNames?_eq_none_iff] at h
    have hnames : s.names = [] := by
      refine List.eq_nil_iff_forall_not_mem.mpr fun n hn => ?_
      have : n ∈ entries.reduceOption.flatMap names :=
        List.mem_flatMap.mpr ⟨s, List.reduceOption_mem_iff.mpr hs, hn⟩
      rw [h.1] at this
      exact absurd this List.not_mem_nil
    rw [names_eq_nil_iff] at hnames
    rw [hnames] at hs
    exact absurd h.2 (by simp [List.reduceOption_mem_iff.mpr hs])
  · intro h
    have hnil : entries.reduceOption = [] :=
      List.eq_nil_iff_forall_not_mem.mpr fun s hs => h s (List.reduceOption_mem_iff.mp hs)
    simp [combine, hnil, ofNames?_eq_none_iff.mpr]

end State

end Determinize
