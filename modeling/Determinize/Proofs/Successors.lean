import Determinize.Epsilon.Elimination
import Determinize.Order.Distinct
import Mathlib.Data.List.Induction
import Mathlib.Data.List.Nodup

/-!
# The table of successors answers like the scan

A table groups a list of transitions once, by source and symbol. What it answers is what the scan
of the list answers, as an ordered list, whatever the order in which the keys are mixed. From here
on every question about successors is a question about membership in the list of transitions.

## Main results

* `Index.successors_ofTransitions` — the table and the scan agree
* `mem_successors`, `Automaton.mem_successors_symbolIndex` — which states are successors
* `successors_eq_singleton` — when there is exactly one
-/

namespace Determinize

variable {transitions : List Transition} {s t u : State} {x : Symbol}

/-! ### Inserting into the table -/

/-- Dropping repetitions early does not change what is left in the end. -/
theorem eraseDups_eraseDups_append (l k : List State) :
    (l.eraseDups ++ k).eraseDups = (l ++ k).eraseDups := by
  have hmem : k.removeAll l.eraseDups = k.removeAll l := by
    rw [List.removeAll]
    refine List.filter_congr fun t _ => ?_
    simp [List.mem_eraseDups]
  rw [List.eraseDups_append, List.eraseDups_append, eraseDups_eq_self (nodup_eraseDups l), hmem]

namespace Index

theorem lookup_insertTargets (key k : State × Symbol) (targets : List State)
    (entries : List ((State × Symbol) × List State)) :
    ((insertTargets key targets entries).lookup k).getD [] =
      if key = k then ((entries.lookup k).getD [] ++ targets).eraseDups
      else (entries.lookup k).getD [] := by
  induction entries with
  | nil =>
    by_cases h : key = k
    · subst h
      simp [insertTargets]
    · have hk : (k == key) = false := by simpa using Ne.symm h
      simp [insertTargets, h, List.lookup_cons, hk]
  | cons entry rest ih =>
    obtain ⟨j, l⟩ := entry
    by_cases hj : j = key
    · subst hj
      by_cases h : j = k
      · subst h
        simp [insertTargets]
      · have hk : (k == j) = false := by simpa using Ne.symm h
        simp [insertTargets, h, List.lookup_cons, hk]
    · by_cases h : k = j
      · subst h
        simp [insertTargets, hj, Ne.symm hj]
      · have hk : (k == j) = false := by simpa using h
        simp only [insertTargets, hj, if_false, List.lookup_cons, hk]
        exact ih

theorem successors_insert (ix : Index) (e : Transition) (s : State) (x : Symbol) :
    (ix.insert e).successors s x =
      if e.leaves s x then (ix.successors s x ++ e.targets).eraseDups else ix.successors s x := by
  have := lookup_insertTargets (e.source, e.symbol) (s, x) e.targets ix.entries
  simpa [Index.insert, Index.successors, Prod.ext_iff] using this

/-- **The table and the scan agree.** -/
@[simp] theorem successors_ofTransitions (transitions : List Transition) (s : State) (x : Symbol) :
    (ofTransitions transitions).successors s x = Determinize.successors transitions s x := by
  -- the table grows at its end, so induct from there
  induction transitions using List.reverseRecOn with
  | nil => simp [ofTransitions, empty, Index.successors, Determinize.successors]
  | append_singleton l e ih =>
    have hstep : ofTransitions (l ++ [e]) = (ofTransitions l).insert e := by
      simp [ofTransitions]
    rw [hstep, successors_insert, ih]
    by_cases h : e.leaves s x = true
    · simp [Determinize.successors, h, eraseDups_eraseDups_append]
    · simp [Determinize.successors, h]

end Index

@[simp] theorem Automaton.successors_index (a : Automaton) (s : State) (x : Symbol) :
    a.index.successors s x = successors a.transitions s x :=
  Index.successors_ofTransitions a.transitions s x

/-! ### Which states are successors -/

theorem mem_successors :
    u ∈ successors transitions s x ↔
      ∃ e ∈ transitions, e.source = s ∧ e.symbol = x ∧ u ∈ e.targets := by
  simp [successors, List.mem_eraseDups, and_assoc]

theorem Automaton.mem_successors_symbolIndex {a : Automaton} :
    u ∈ a.symbolIndex.successors s x ↔
      ∃ e ∈ a.transitions, e.isEpsilon = false ∧ e.source = s ∧ e.symbol = x ∧ u ∈ e.targets := by
  simp [symbolIndex, mem_successors, and_assoc]

/-- The first successor is the first target of the transitions in question. -/
theorem head?_successors :
    (successors transitions s x).head? =
      ((transitions.filter (·.leaves s x)).flatMap (·.targets)).head? := by
  rw [successors]
  cases (transitions.filter (·.leaves s x)).flatMap (·.targets) with
  | nil => rfl
  | cons t l => rw [List.eraseDups_cons]; rfl

/-- A list without repetitions that has one member is that member alone. -/
theorem eq_singleton_of_nodup {α : Type} {l : List α} {a : α} (hnodup : l.Nodup)
    (h : ∀ b, b ∈ l ↔ b = a) : l = [a] := by
  have hperm : l.Perm [a] := by
    rw [List.perm_ext_iff_of_nodup hnodup (List.nodup_singleton a)]
    intro b
    rw [h, List.mem_singleton]
  exact List.perm_singleton.mp hperm

/-- There is one successor when there is a transition and all of them lead to it alone. -/
theorem successors_eq_singleton (hex : ∃ e ∈ transitions, e.source = s ∧ e.symbol = x)
    (hall : ∀ e ∈ transitions, e.source = s → e.symbol = x → e.targets = [t]) :
    successors transitions s x = [t] := by
  refine eq_singleton_of_nodup (nodup_eraseDups _) fun u => ?_
  rw [mem_successors]
  constructor
  · rintro ⟨e, he, hs, hx, hu⟩
    rw [hall e he hs hx] at hu
    exact List.mem_singleton.mp hu
  · rintro rfl
    obtain ⟨e, he, hs, hx⟩ := hex
    exact ⟨e, he, hs, hx, by rw [hall e he hs hx]; exact List.mem_singleton.mpr rfl⟩

end Determinize
