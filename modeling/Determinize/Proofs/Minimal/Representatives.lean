import Determinize.Proofs.Minimal.Merge
import Determinize.Proofs.Minimal.Refinement

/-!
# One state for each block

A block is merged into one of its members, so that merging by the partition is a chain of merges of
indistinct states, each of which removes another state and none of which removes a state that
another one is kept for. What a block is left with is its representative, and the trap if that is
not the representative already, which happens only where the block holds the initial state too.

## Main definitions

* `Automaton.removed` — the states that merging by the partition removes

## Main results

* `Automaton.outcome_mergedByPartition` — from the states that are left, outcomes are as they were
* `Automaton.exists_indistinct_mergedByPartition` — every state is indistinct from one that is left
* `Automaton.eq_or_of_indistinct` — the states that are left are distinct, the initial state and the
  trap apart
-/

namespace Determinize

namespace Automaton

variable {a : Automaton} {p q s : State} {word : List Symbol} {block : List State}
  {merges : List (State × State)} {m : State × State}

/-! ### The parts after some merges -/

@[simp] theorem initial_mergedAll : (a.mergedAll merges).initial = a.initial := by
  induction merges generalizing a with
  | nil => rfl
  | cons m merges ih => exact ih

@[simp] theorem alphabet_mergedAll : (a.mergedAll merges).alphabet = a.alphabet := by
  induction merges generalizing a with
  | nil => rfl
  | cons m merges ih => exact ih

theorem filter_ne_filter_not_mem (l : List State) :
    (l.filter fun s => s ≠ m.1).filter (fun s => s ∉ merges.map Prod.fst) =
      l.filter fun s => s ∉ (m :: merges).map Prod.fst := by
  rw [List.filter_filter]
  refine List.filter_congr fun s _ => ?_
  rw [Bool.eq_iff_iff]
  simp only [Bool.and_eq_true, decide_eq_true_eq, List.map_cons, List.mem_cons, not_or]
  exact and_comm

/-- The states that are left are those that were not removed. -/
theorem states_mergedAll :
    (a.mergedAll merges).states = a.states.filter fun s => s ∉ merges.map Prod.fst := by
  induction merges generalizing a with
  | nil => exact (List.filter_eq_self.mpr fun s _ => by simp).symm
  | cons m merges ih =>
    have : (a.mergedAll (m :: merges)).states = ((a.merged m.1 m.2).mergedAll merges).states := rfl
    rw [this, ih, merged, filter_ne_filter_not_mem]

/-- The final states that are left are those that were not removed. -/
theorem finals_mergedAll :
    (a.mergedAll merges).finals = a.finals.filter fun s => s ∉ merges.map Prod.fst := by
  induction merges generalizing a with
  | nil => exact (List.filter_eq_self.mpr fun s _ => by simp).symm
  | cons m merges ih =>
    have : (a.mergedAll (m :: merges)).finals = ((a.merged m.1 m.2).mergedAll merges).finals := rfl
    rw [this, ih, merged, filter_ne_filter_not_mem]

/-! ### The merges of a partition -/

theorem representative_mem (h : block ≠ []) : a.representative block ∈ block := by
  rw [representative]
  split
  · assumption
  · split
    · assumption
    · cases hleast : ascending block with
      | nil =>
        obtain ⟨s, hs⟩ := List.exists_mem_of_ne_nil block h
        exact absurd (mem_ascending.mpr hs) (hleast ▸ List.not_mem_nil)
      | cons s l =>
        have hs : s ∈ ascending block := by
          rw [hleast]
          exact List.mem_cons_self
        exact mem_ascending.mp hs

/-- A member of a block that may not be removed is its representative, unless it is the trap and the
initial state is the representative. -/
theorem eq_representative_or (hs : s ∈ block) (hstays : a.removable s = false) :
    s = a.representative block ∨ s = .trap ∧ a.representative block = a.initial := by
  rw [representative]
  have hs' : s = .trap ∨ s = a.initial := by
    by_cases htrap : s = .trap
    · exact Or.inl htrap
    · exact Or.inr (by simpa [removable, htrap] using hstays)
  rcases hs' with rfl | rfl
  · by_cases hinitial : a.initial ∈ block
    · simp [hinitial]
    · simp [hinitial, hs]
  · simp [hs]

/-- The states that merging by the partition removes. -/
def removed (a : Automaton) : List State := a.partitionMerges.map Prod.fst

theorem removed_eq :
    a.removed = a.partition.flatMap fun block => (a.superfluous block).filter a.removable := by
  simp [removed, partitionMerges, List.map_flatMap, Function.comp_def]

theorem mem_partitionMerges :
    m ∈ a.partitionMerges ↔ ∃ block ∈ a.partition, m.1 ∈ block ∧ m.1 ≠ a.representative block ∧
      a.removable m.1 = true ∧ m.2 = a.representative block := by
  obtain ⟨remove, keep⟩ := m
  simp only [partitionMerges, List.mem_flatMap, List.mem_map, List.mem_filter, superfluous,
    Prod.mk.injEq, decide_eq_true_eq]
  constructor
  · rintro ⟨block, hblock, s, ⟨⟨hs, hne⟩, hremovable⟩, rfl, rfl⟩
    exact ⟨block, hblock, hs, hne, hremovable, rfl⟩
  · rintro ⟨block, hblock, hs, hne, hremovable, rfl⟩
    exact ⟨block, hblock, remove, ⟨⟨hs, hne⟩, hremovable⟩, rfl, rfl⟩

theorem mem_removed :
    s ∈ a.removed ↔ ∃ block ∈ a.partition,
      s ∈ block ∧ s ≠ a.representative block ∧ a.removable s = true := by
  simp only [removed, List.mem_map, mem_partitionMerges]
  constructor
  · rintro ⟨m, ⟨block, hblock, hs, hne, hremovable, -⟩, rfl⟩
    exact ⟨block, hblock, hs, hne, hremovable⟩
  · rintro ⟨block, hblock, hs, hne, hremovable⟩
    exact ⟨(s, _), ⟨block, hblock, hs, hne, hremovable, rfl⟩, rfl⟩

/-- The initial state is never removed. -/
theorem initial_not_mem_removed : a.initial ∉ a.removed := by
  intro h
  obtain ⟨block, -, -, -, hremovable⟩ := mem_removed.mp h
  simp [removable] at hremovable

/-- Each state is removed once, since it is in one block. -/
theorem nodup_removed (hnodup : a.states.Nodup) : a.removed.Nodup := by
  rw [removed_eq]
  refine ((splits_partition a).nodup_flatten hnodup).sublist ?_
  rw [← List.flatMap_id]
  exact List.Sublist.flatMap_right _ fun block _ =>
    List.filter_sublist.trans List.filter_sublist

/-- A representative stays, since it is in one block. -/
theorem representative_not_mem_removed (hnodup : a.states.Nodup) (hblock : block ∈ a.partition) :
    a.representative block ∉ a.removed := by
  have hsplits := splits_partition a
  intro h
  obtain ⟨block', hblock', hmem, hne, -⟩ := mem_removed.mp h
  have hrepresentative := representative_mem (a := a) (hsplits.ne_nil block hblock)
  exact hne (by rw [hsplits.eq_of_mem hnodup hblock hblock' hrepresentative hmem])

/-- The merges keep representatives, which are listed and stay. -/
theorem admitsAll_partitionMerges (hnodup : a.states.Nodup) : a.AdmitsAll a.partitionMerges where
  admits m hm := by
    obtain ⟨block, hblock, -, hne, hremovable, hkeep⟩ := mem_partitionMerges.mp hm
    have hsplits := splits_partition a
    have hmem := representative_mem (a := a) (hsplits.ne_nil block hblock)
    have hremovable : m.1 ≠ .trap ∧ m.1 ≠ a.initial := of_decide_eq_true hremovable
    rw [hkeep]
    exact ⟨hsplits.mem_iff.mpr ⟨block, hblock, hmem⟩, hne.symm, hremovable.2.symm,
      hremovable.1.symm⟩
  kept m hm := by
    obtain ⟨block, hblock, -, -, -, hkeep⟩ := mem_partitionMerges.mp hm
    rw [hkeep]
    exact representative_not_mem_removed hnodup hblock

/-! ### Merging by the partition -/

@[simp] theorem initial_mergedByPartition : a.mergedByPartition.initial = a.initial :=
  initial_mergedAll

@[simp] theorem alphabet_mergedByPartition : a.mergedByPartition.alphabet = a.alphabet :=
  alphabet_mergedAll

theorem mem_states_mergedByPartition :
    s ∈ a.mergedByPartition.states ↔ s ∈ a.states ∧ s ∉ a.removed := by
  rw [mergedByPartition, states_mergedAll, List.mem_filter, decide_eq_true_eq]
  rfl

theorem mem_finals_mergedByPartition :
    s ∈ a.mergedByPartition.finals ↔ s ∈ a.finals ∧ s ∉ a.removed := by
  rw [mergedByPartition, finals_mergedAll, List.mem_filter, decide_eq_true_eq]
  rfl

theorem nodup_finals_mergedByPartition (hnodup : a.finals.Nodup) :
    a.mergedByPartition.finals.Nodup := by
  rw [mergedByPartition, finals_mergedAll]
  exact hnodup.filter _

theorem nodup_states_mergedByPartition (hnodup : a.states.Nodup) :
    a.mergedByPartition.states.Nodup := by
  rw [mergedByPartition, states_mergedAll]
  exact hnodup.filter _

theorem initial_mem_mergedByPartition (hinitial : a.initial ∈ a.states) :
    a.initial ∈ a.mergedByPartition.states :=
  mem_states_mergedByPartition.mpr ⟨hinitial, initial_not_mem_removed⟩

/-- From the states that are left every word has the outcome it had before. -/
theorem outcome_mergedByPartition (hfunctional : a.Functional) (hnodup : a.states.Nodup)
    (hs : s ∉ a.removed) : a.mergedByPartition.outcome s word = a.outcome s word := by
  refine outcome_mergedAll (admitsAll_partitionMerges hnodup) (fun m hm => ?_)
    (nodup_removed hnodup) hs
  obtain ⟨block, hblock, hremove, -, -, hkeep⟩ := mem_partitionMerges.mp hm
  have hrepresentative := representative_mem (a := a) ((splits_partition a).ne_nil block hblock)
  exact indistinct_of_together hfunctional ⟨block, hblock, hremove, hkeep ▸ hrepresentative⟩

/-- Where nothing is missing, nothing is missing from what is left. -/
theorem exists_movesBy_mergedByPartition {next : State → Symbol → State} (h : a.MovesBy next)
    (hnodup : a.states.Nodup) : ∃ next, a.mergedByPartition.MovesBy next :=
  exists_movesBy_mergedAll h (admitsAll_partitionMerges hnodup)

/-- Every listed state is indistinct from one that is left. -/
theorem exists_indistinct_mergedByPartition (hfunctional : a.Functional)
    (hnodup : a.states.Nodup) (hs : s ∈ a.states) :
    ∃ t ∈ a.mergedByPartition.states, a.Indistinct s t := by
  have hsplits := splits_partition a
  obtain ⟨block, hblock, hsb⟩ := hsplits.mem_iff.mp hs
  have hmem := representative_mem (a := a) (hsplits.ne_nil block hblock)
  refine ⟨a.representative block, mem_states_mergedByPartition.mpr ⟨?_, ?_⟩, ?_⟩
  · exact hsplits.mem_iff.mpr ⟨block, hblock, hmem⟩
  · exact representative_not_mem_removed hnodup hblock
  · exact indistinct_of_together hfunctional ⟨block, hblock, hsb, hmem⟩

/-- Of a block only its representative is left, and the trap where the representative is the initial
state. -/
theorem eq_representative_or_of_left (hs : s ∈ a.mergedByPartition.states)
    (hblock : block ∈ a.partition) (hsb : s ∈ block) :
    s = a.representative block ∨ s = .trap ∧ a.representative block = a.initial := by
  by_cases hne : s = a.representative block
  · exact Or.inl hne
  · refine eq_representative_or hsb (Bool.eq_false_iff.mpr fun hremovable => ?_)
    exact (mem_states_mergedByPartition.mp hs).2
      (mem_removed.mpr ⟨block, hblock, hsb, hne, hremovable⟩)

/-- Two indistinct states that are left are one state, or the initial state and the trap. -/
theorem eq_or_of_indistinct (hfunctional : a.Functional) (hnodup : a.states.Nodup)
    (hp : p ∈ a.mergedByPartition.states)
    (hq : q ∈ a.mergedByPartition.states) (h : a.Indistinct p q) :
    p = q ∨ p = a.initial ∧ q = .trap ∨ p = .trap ∧ q = a.initial := by
  obtain ⟨block, hblock, hpb, hqb⟩ := together_of_indistinct hfunctional hnodup
    (mem_states_mergedByPartition.mp hp).1 (mem_states_mergedByPartition.mp hq).1 h
  rcases eq_representative_or_of_left hp hblock hpb with hp | ⟨hp, hinitial⟩ <;>
    rcases eq_representative_or_of_left hq hblock hqb with hq | ⟨hq, hinitial'⟩
  · exact Or.inl (hp.trans hq.symm)
  · exact Or.inr (Or.inl ⟨hp.trans hinitial', hq⟩)
  · exact Or.inr (Or.inr ⟨hp, hq.trans hinitial⟩)
  · exact Or.inl (hp.trans hq.symm)

end Automaton

end Determinize
