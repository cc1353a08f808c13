import Determinize.Proofs.Minimal.Blocks
import Determinize.Proofs.Run.Deterministic
import Mathlib.Data.List.Perm.Basic

/-!
# Partition refinement stops at the indistinct states

A round of refinement splits blocks and never joins them. When it makes no new block it has left
every block as it was, so the blocks it stops at are those of a last round that changes nothing,
and the fuel lasts until then. Two states of one block then lead to one block on every symbol, so no
word tells them apart. Two states that no word tells apart are never split in the first place.

## Main definitions

* `Automaton.splitBlock` — what a round makes of one block

## Main results

* `Automaton.refined_partition` — one more round changes nothing
* `Automaton.indistinct_of_together` — states of one block are indistinct
* `Automaton.together_partition_iff` — the blocks are those of indistinct states
-/

namespace Determinize

namespace Automaton

variable {a : Automaton} {index : Index} {blocks : Partition} {states block : List State}
  {p q : State} {n : ℕ}

/-! ### One round -/

/-- What a round makes of one block. -/
def splitBlock (a : Automaton) (index : Index) (blocks : Partition) (block : List State) :
    Partition :=
  if block.length ≤ 1 then [block] else Partition.groupBy (a.signature index blocks) block

theorem refined_eq_flatMap : a.refined index blocks = blocks.flatMap (a.splitBlock index blocks) :=
  rfl

theorem splits_splitBlock (h : block ≠ []) : (a.splitBlock index blocks block).Splits block := by
  rw [splitBlock]
  split
  · exact ⟨by simp, by simpa using h⟩
  · exact Partition.splits_groupBy _ _

theorem together_splitBlock :
    (a.splitBlock index blocks block).Together p q ↔
      p ∈ block ∧ q ∈ block ∧ a.signature index blocks p = a.signature index blocks q := by
  rw [splitBlock]
  split
  · rename_i hlength
    constructor
    · rintro ⟨b, hb, hp, hq⟩
      obtain rfl := List.mem_singleton.mp hb
      obtain ⟨r, rfl⟩ := List.length_eq_one_iff.mp
        (Nat.le_antisymm hlength (List.length_pos_of_mem hp))
      exact ⟨hp, hq, by rw [List.mem_singleton.mp hp, List.mem_singleton.mp hq]⟩
    · rintro ⟨hp, hq, -⟩
      exact ⟨block, List.mem_singleton.mpr rfl, hp, hq⟩
  · exact Partition.together_groupBy

theorem length_splitBlock_pos (h : block ≠ []) :
    0 < (a.splitBlock index blocks block).length := by
  rw [splitBlock]
  split
  · exact Nat.one_pos
  · exact Partition.length_groupBy_pos h

theorem splitBlock_eq_singleton (h : (a.splitBlock index blocks block).length = 1) :
    a.splitBlock index blocks block = [block] := by
  rw [splitBlock] at h ⊢
  split at h
  · rename_i hlength
    rw [if_pos hlength]
  · rename_i hlength
    rw [if_neg hlength]
    exact Partition.groupBy_eq_singleton h

/-- A round keeps the blocks a splitting of the states. -/
theorem splits_refined (h : blocks.Splits states) : (a.refined index blocks).Splits states where
  perm := by
    have hflatten : (a.refined index blocks).flatten =
        blocks.flatMap fun b => (a.splitBlock index blocks b).flatten := by
      simp only [refined_eq_flatMap, ← List.flatMap_id, List.flatMap_assoc]
    rw [hflatten]
    refine (List.Perm.flatMap_left blocks fun b hb => ?_).trans (List.flatMap_id ▸ h.perm)
    exact (splits_splitBlock (h.ne_nil b hb)).perm
  ne_nil c hc := by
    obtain ⟨b, hb, hc⟩ := List.mem_flatMap.mp hc
    exact (splits_splitBlock (h.ne_nil b hb)).ne_nil c hc

/-- A round keeps two states together when their successors are together. -/
theorem together_refined :
    (a.refined index blocks).Together p q ↔
      blocks.Together p q ∧ a.signature index blocks p = a.signature index blocks q := by
  constructor
  · rintro ⟨c, hc, hp, hq⟩
    obtain ⟨b, hb, hc⟩ := List.mem_flatMap.mp hc
    obtain ⟨hp, hq, hsignature⟩ := together_splitBlock.mp ⟨c, hc, hp, hq⟩
    exact ⟨⟨b, hb, hp, hq⟩, hsignature⟩
  · rintro ⟨⟨b, hb, hp, hq⟩, hsignature⟩
    obtain ⟨c, hc, hp, hq⟩ := together_splitBlock.mpr ⟨hp, hq, hsignature⟩
    exact ⟨c, List.mem_flatMap.mpr ⟨b, hb, hc⟩, hp, hq⟩

/-! ### When a round makes no new block -/

theorem length_le_length_flatMap {f : List State → Partition}
    (hpos : ∀ b ∈ blocks, 0 < (f b).length) : blocks.length ≤ (blocks.flatMap f).length := by
  induction blocks with
  | nil => exact Nat.le_refl 0
  | cons b blocks ih =>
    have hb := hpos b List.mem_cons_self
    have hrest := ih fun c hc => hpos c (List.mem_cons_of_mem b hc)
    rw [List.flatMap_cons, List.length_append, List.length_cons]
    omega

/-- If each block is split into at least one and there are no more blocks than before, then each
block was split into one. -/
theorem length_eq_one_of_length_flatMap {f : List State → Partition}
    (hpos : ∀ b ∈ blocks, 0 < (f b).length) (h : (blocks.flatMap f).length = blocks.length) :
    ∀ b ∈ blocks, (f b).length = 1 := by
  induction blocks with
  | nil => simp
  | cons b blocks ih =>
    have hb := hpos b List.mem_cons_self
    have hposrest : ∀ c ∈ blocks, 0 < (f c).length := fun c hc =>
      hpos c (List.mem_cons_of_mem b hc)
    have hrest := length_le_length_flatMap hposrest
    rw [List.flatMap_cons, List.length_append, List.length_cons] at h
    intro c hc
    rcases List.mem_cons.mp hc with rfl | hc
    · omega
    · exact ih hposrest (by omega) c hc

theorem refineWithin_succ :
    a.refineWithin index (n + 1) blocks =
      if (a.refined index blocks).length = blocks.length then a.refined index blocks
      else a.refineWithin index n (a.refined index blocks) :=
  rfl

theorem length_le_length_refined (h : blocks.Splits states) :
    blocks.length ≤ (a.refined index blocks).length :=
  length_le_length_flatMap fun b hb => length_splitBlock_pos (h.ne_nil b hb)

/-- A round that makes no new block changes nothing. -/
theorem refined_eq_of_length_eq (h : blocks.Splits states)
    (hlength : (a.refined index blocks).length = blocks.length) :
    a.refined index blocks = blocks := by
  have hone := length_eq_one_of_length_flatMap
    (fun b hb => length_splitBlock_pos (h.ne_nil b hb)) hlength
  calc a.refined index blocks
      = blocks.flatMap (a.splitBlock index blocks) := refined_eq_flatMap
    _ = blocks.flatMap fun b => [b] :=
        List.flatMap_congr fun b hb => splitBlock_eq_singleton (hone b hb)
    _ = blocks := List.flatMap_singleton' blocks

/-! ### All rounds -/

/-- What every round keeps holds when refinement stops. -/
theorem refineWithin_induction {motive : Partition → Prop} (h : blocks.Splits states)
    (hround : ∀ b : Partition, b.Splits states → motive b → motive (a.refined index b))
    (hstart : motive blocks) :
    (a.refineWithin index n blocks).Splits states ∧ motive (a.refineWithin index n blocks) := by
  induction n generalizing blocks with
  | zero => exact ⟨h, hstart⟩
  | succ n ih =>
    have hnext := hround blocks h hstart
    rw [refineWithin_succ]
    split
    · exact ⟨splits_refined h, hnext⟩
    · exact ih (splits_refined h) hnext

/-- With fuel for the blocks that can still be made, refinement stops at blocks that one more round
would not change. -/
theorem refined_refineWithin (h : blocks.Splits states)
    (hn : states.length < n + blocks.length) :
    a.refined index (a.refineWithin index n blocks) = a.refineWithin index n blocks := by
  induction n generalizing blocks with
  | zero => exact absurd h.length_le (by omega)
  | succ n ih =>
    rw [refineWithin_succ]
    by_cases hlength : (a.refined index blocks).length = blocks.length
    · rw [if_pos hlength]
      exact congrArg _ (refined_eq_of_length_eq h hlength)
    · rw [if_neg hlength]
      have hgrown : blocks.length ≤ (a.refined index blocks).length :=
        length_le_length_refined h
      exact ih (splits_refined h) (by omega)

/-! ### The blocks at the start and at the end -/

theorem splits_byAcceptance (a : Automaton) : a.byAcceptance.Splits a.states where
  perm := by
    rw [byAcceptance, List.flatten_filter_not_isEmpty]
    simpa using List.filter_append_perm a.isFinal a.states
  ne_nil b hb := by
    obtain ⟨-, hb⟩ := List.mem_filter.mp hb
    rintro rfl
    exact absurd hb (by simp)

/-- At the start states are together when they agree on acceptance. -/
theorem together_byAcceptance :
    a.byAcceptance.Together p q ↔ p ∈ a.states ∧ q ∈ a.states ∧ a.isFinal p = a.isFinal q := by
  constructor
  · rintro ⟨b, hb, hp, hq⟩
    obtain ⟨hb, -⟩ := List.mem_filter.mp hb
    rcases List.mem_pair.mp hb with rfl | rfl <;>
      obtain ⟨hp, hpf⟩ := List.mem_filter.mp hp <;>
      obtain ⟨hq, hqf⟩ := List.mem_filter.mp hq
    · exact ⟨hp, hq, hpf.trans hqf.symm⟩
    · exact ⟨hp, hq, Bool.not_inj (hpf.trans hqf.symm)⟩
  · rintro ⟨hp, hq, hpq⟩
    have hblock : ∀ b : List State, p ∈ b → (b = a.states.filter a.isFinal ∨
        b = a.states.filter fun s => !a.isFinal s) → b ∈ a.byAcceptance := fun b hpb hb =>
      List.mem_filter.mpr ⟨List.mem_pair.mpr hb, by simpa using List.ne_nil_of_mem hpb⟩
    cases hpf : a.isFinal p with
    | true =>
      have hp : p ∈ a.states.filter a.isFinal := List.mem_filter.mpr ⟨hp, hpf⟩
      exact ⟨_, hblock _ hp (Or.inl rfl), hp, List.mem_filter.mpr ⟨hq, hpq ▸ hpf⟩⟩
    | false =>
      have hp : p ∈ a.states.filter fun s => !a.isFinal s :=
        List.mem_filter.mpr ⟨hp, by rw [hpf]; rfl⟩
      refine ⟨_, hblock _ hp (Or.inr rfl), hp, List.mem_filter.mpr ⟨hq, ?_⟩⟩
      rw [← hpq, hpf]
      rfl

theorem splits_partition (a : Automaton) : a.partition.Splits a.states :=
  (refineWithin_induction (motive := fun _ => True) (splits_byAcceptance a)
    (fun _ _ _ => trivial) trivial).1

/-- States of one block agree on acceptance. -/
theorem isFinal_eq_of_together (h : a.partition.Together p q) : a.isFinal p = a.isFinal q :=
  (refineWithin_induction (splits_byAcceptance a)
    (motive := fun blocks => ∀ p q, blocks.Together p q → a.isFinal p = a.isFinal q)
    (fun _ _ ih p q hpq => ih p q (together_refined.mp hpq).1)
    fun _ _ hpq => (together_byAcceptance.mp hpq).2.2).2 p q h

/-- One more round would change nothing. -/
theorem refined_partition (a : Automaton) : a.refined a.index a.partition = a.partition :=
  refined_refineWithin (splits_byAcceptance a) (by omega)

/-- States of one block lead to one block on every symbol. -/
theorem signature_eq_of_together (h : a.partition.Together p q) :
    a.signature a.index a.partition p = a.signature a.index a.partition q := by
  rw [← refined_partition] at h
  exact (together_refined.mp h).2

/-! ### Blocks and indistinct states -/

theorem mem_states_of_together (h : a.partition.Together p q) : p ∈ a.states := by
  obtain ⟨b, hb, hp, -⟩ := h
  exact (splits_partition a).mem_iff.mpr ⟨b, hb, hp⟩

/-- States of one block are indistinct. -/
theorem indistinct_of_together (hfunctional : a.Functional) (h : a.partition.Together p q) :
    a.Indistinct p q := by
  intro word
  induction word generalizing p q with
  | nil => rw [outcome_nil, outcome_nil, isFinal_eq_of_together h]
  | cons x word ih =>
    rw [outcome_cons, outcome_cons]
    split
    case isFalse => rfl
    case isTrue hx =>
    have hp : p ∈ a.states := mem_states_of_together h
    have hq : q ∈ a.states := mem_states_of_together h.symm
    have hsignature := List.map_inj_left.mp (signature_eq_of_together h) x hx
    simp only [successors_index] at hsignature
    rcases hfunctional p hp x hx with hpx | ⟨t, ht, hpx⟩ <;>
      rcases hfunctional q hq x hx with hqx | ⟨u, -, hqx⟩ <;> rw [hpx, hqx] at hsignature ⊢
    · exact absurd hsignature (by simp)
    · exact absurd hsignature (by simp)
    · have htu : a.partition.blockOf? t = a.partition.blockOf? u := by simpa using hsignature
      exact ih (Partition.together_of_blockOf?_eq ((splits_partition a).mem_iff.mp ht) htu)

/-- Indistinct states stay together. -/
theorem together_of_indistinct (hfunctional : a.Functional) (hnodup : a.states.Nodup)
    (hp : p ∈ a.states) (hq : q ∈ a.states) (h : a.Indistinct p q) : a.partition.Together p q := by
  refine (refineWithin_induction (splits_byAcceptance a)
    (motive := fun blocks => ∀ p ∈ a.states, ∀ q ∈ a.states, a.Indistinct p q →
      blocks.Together p q) ?_ ?_).2 p hp q hq h
  · intro blocks hblocks ih p hp q hq h
    refine together_refined.mpr ⟨ih p hp q hq h, List.map_inj_left.mpr fun x hx => ?_⟩
    rw [successors_index, successors_index]
    rcases hfunctional.successors_of_indistinct hp hq hx h with
      ⟨hpx, hqx⟩ | ⟨t, ht, u, hu, hpx, hqx, htu⟩
    · rw [hpx, hqx]
    · rw [hpx, hqx, List.map_singleton, List.map_singleton,
        (hblocks.blockOf?_eq_iff hnodup ht).mpr (ih t ht u hu htu)]
  · intro p hp q hq h
    refine together_byAcceptance.mpr ⟨hp, hq, ?_⟩
    exact Option.some.inj (h [])

/-- The blocks are those of indistinct states. -/
theorem together_partition_iff (hfunctional : a.Functional) (hnodup : a.states.Nodup)
    (hp : p ∈ a.states) (hq : q ∈ a.states) :
    a.partition.Together p q ↔ a.Indistinct p q :=
  ⟨indistinct_of_together hfunctional, together_of_indistinct hfunctional hnodup hp hq⟩

end Automaton

end Determinize
