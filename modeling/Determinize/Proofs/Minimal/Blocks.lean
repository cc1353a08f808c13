import Determinize.Minimal.Partition
import Mathlib.Data.List.Flatten
import Mathlib.Data.List.Induction
import Mathlib.Data.List.Nodup

/-!
# Blocks of states

A list of blocks splits the listed states when it holds each of them once and no block is empty.
Then a state has one block, two states have the same block number exactly when some block holds
both, and there are at most as many blocks as states. Grouping a block by a key splits it further:
two states stay together when their keys are equal.

## Main definitions

* `Partition.Splits` — the blocks hold each of the given states once
* `Partition.Together` — some block holds both states

## Main results

* `Partition.Splits.eq_of_mem` — a state is in one block only
* `Partition.Splits.blockOf?_eq_iff` — equal block numbers mean the same block
* `Partition.together_groupBy` — who stays together in a grouping
* `Partition.groupBy_eq_singleton` — a grouping with one group has changed nothing
-/

namespace Determinize

namespace Partition

/-- The blocks hold each of the given states once, and none is empty. -/
structure Splits (blocks : Partition) (states : List State) : Prop where
  /-- The blocks, one after the other, are the states in some order. -/
  perm : blocks.flatten.Perm states
  /-- No block is empty. -/
  ne_nil : ∀ b ∈ blocks, b ≠ []

/-- Some block holds both states. -/
def Together (blocks : Partition) (p q : State) : Prop := ∃ b ∈ blocks, p ∈ b ∧ q ∈ b

variable {blocks : Partition} {states block b c : List State} {p q s : State} {i j : ℕ}

theorem Together.symm (h : blocks.Together p q) : blocks.Together q p := by
  obtain ⟨b, hb, hp, hq⟩ := h
  exact ⟨b, hb, hq, hp⟩

/-! ### Blocks that split the states -/

namespace Splits

theorem mem_iff (h : blocks.Splits states) : s ∈ states ↔ ∃ b ∈ blocks, s ∈ b := by
  rw [← h.perm.mem_iff, List.mem_flatten]

/-- There are at most as many blocks as states. -/
theorem length_le (h : blocks.Splits states) : blocks.length ≤ states.length := by
  rw [← h.perm.length_eq]
  have hne := h.ne_nil
  clear h
  induction blocks with
  | nil => simp
  | cons b blocks ih =>
    have hb : 0 < b.length := List.length_pos_iff.mpr (hne b List.mem_cons_self)
    have := ih fun c hc => hne c (List.mem_cons_of_mem b hc)
    simp only [List.flatten_cons, List.length_append, List.length_cons]
    omega

variable (hnodup : states.Nodup)
include hnodup

theorem nodup_flatten (h : blocks.Splits states) : blocks.flatten.Nodup :=
  h.perm.nodup_iff.mpr hnodup

/-- A state is in one place only. -/
theorem index_eq (h : blocks.Splits states) (hi : blocks[i]? = some b) (hj : blocks[j]? = some c)
    (hb : s ∈ b) (hc : s ∈ c) : i = j := by
  have hdisjoint := List.pairwise_iff_getElem.mp (List.nodup_flatten.mp (h.nodup_flatten hnodup)).2
  obtain ⟨hi', rfl⟩ := List.getElem?_eq_some_iff.mp hi
  obtain ⟨hj', rfl⟩ := List.getElem?_eq_some_iff.mp hj
  rcases Nat.lt_trichotomy i j with hij | hij | hij
  · exact absurd hc (hdisjoint i j hi' hj' hij hb)
  · exact hij
  · exact absurd hb (hdisjoint j i hj' hi' hij hc)

/-- A state is in one block only. -/
theorem eq_of_mem (h : blocks.Splits states) (hb : b ∈ blocks) (hc : c ∈ blocks) (hsb : s ∈ b)
    (hsc : s ∈ c) : b = c := by
  obtain ⟨i, hi⟩ := List.mem_iff_getElem?.mp hb
  obtain ⟨j, hj⟩ := List.mem_iff_getElem?.mp hc
  rw [h.index_eq hnodup hi hj hsb hsc] at hi
  exact Option.some.inj (hi.symm.trans hj)

end Splits

/-! ### Block numbers -/

theorem exists_of_blockOf?_eq_some (h : blocks.blockOf? s = some i) :
    ∃ b, blocks[i]? = some b ∧ s ∈ b := by
  obtain ⟨e, he, rfl⟩ := Option.map_eq_some_iff.mp h
  refine ⟨e.1, ?_, by simpa using List.find?_some he⟩
  exact List.mem_zipIdx_iff_getElem?.mp (List.mem_reverse.mp (List.mem_of_find?_eq_some he))

theorem exists_blockOf?_eq_some (hb : b ∈ blocks) (hs : s ∈ b) :
    ∃ i, blocks.blockOf? s = some i := by
  obtain ⟨i, hi⟩ := List.mem_iff_getElem?.mp hb
  have hmem : (b, i) ∈ blocks.zipIdx.reverse :=
    List.mem_reverse.mpr (List.mem_zipIdx_iff_getElem?.mpr hi)
  cases hfind : blocks.zipIdx.reverse.find? fun e => decide (s ∈ e.1) with
  | none => exact absurd hs (by simpa using List.find?_eq_none.mp hfind _ hmem)
  | some e => exact ⟨e.2, by simp [blockOf?, hfind]⟩

theorem together_of_blockOf?_eq (hs : ∃ b ∈ blocks, p ∈ b)
    (h : blocks.blockOf? p = blocks.blockOf? q) : blocks.Together p q := by
  obtain ⟨b, hb, hp⟩ := hs
  obtain ⟨i, hi⟩ := exists_blockOf?_eq_some hb hp
  obtain ⟨c, hc, hpc⟩ := exists_of_blockOf?_eq_some hi
  obtain ⟨d, hd, hqd⟩ := exists_of_blockOf?_eq_some (h ▸ hi)
  obtain rfl : c = d := Option.some.inj (hc.symm.trans hd)
  exact ⟨c, List.mem_of_getElem? hc, hpc, hqd⟩

/-- Two listed states have the same number exactly if one block holds both. -/
theorem Splits.blockOf?_eq_iff (h : blocks.Splits states) (hnodup : states.Nodup)
    (hp : p ∈ states) : blocks.blockOf? p = blocks.blockOf? q ↔ blocks.Together p q := by
  refine ⟨together_of_blockOf?_eq (h.mem_iff.mp hp), ?_⟩
  rintro ⟨b, hb, hpb, hqb⟩
  obtain ⟨i, hi⟩ := exists_blockOf?_eq_some hb hpb
  obtain ⟨j, hj⟩ := exists_blockOf?_eq_some hb hqb
  obtain ⟨k, hk⟩ := List.mem_iff_getElem?.mp hb
  obtain ⟨c, hc, hpc⟩ := exists_of_blockOf?_eq_some hi
  obtain ⟨d, hd, hqd⟩ := exists_of_blockOf?_eq_some hj
  rw [hi, hj, h.index_eq hnodup hc hk hpc hpb, h.index_eq hnodup hd hk hqd hqb]

/-! ### Grouping by a key -/

variable {κ : Type} [DecidableEq κ] {key : State → κ} {k : κ} {groups : List (κ × List State)}

theorem perm_insertGroup :
    ((insertGroup k s groups).map Prod.snd).flatten.Perm
      ((groups.map Prod.snd).flatten ++ [s]) := by
  induction groups with
  | nil => simp [insertGroup]
  | cons g groups ih =>
    rw [insertGroup]
    split
    · -- the new member moves behind the groups that follow
      simpa using (List.perm_append_singleton s _).symm.append_left g.2
    · simpa using ih.append_left g.2

theorem map_fst_insertGroup :
    (insertGroup k s groups).map Prod.fst =
      if k ∈ groups.map Prod.fst then groups.map Prod.fst else groups.map Prod.fst ++ [k] := by
  induction groups with
  | nil => simp [insertGroup]
  | cons g groups ih =>
    rw [insertGroup]
    by_cases hg : g.1 = k
    · simp [hg]
    · simp only [hg, if_false, List.map_cons, ih, List.mem_cons, Ne.symm hg, false_or]
      split <;> rfl

theorem mem_insertGroup {g : κ × List State} (hg : g ∈ insertGroup k s groups) :
    g ∈ groups ∨ g.1 = k ∧ ∃ l, g.2 = l ++ [s] ∧ (l = [] ∨ (k, l) ∈ groups) := by
  induction groups with
  | nil =>
    obtain rfl := List.mem_singleton.mp hg
    exact Or.inr ⟨rfl, [], rfl, Or.inl rfl⟩
  | cons h groups ih =>
    obtain ⟨j, l⟩ := h
    rw [insertGroup] at hg
    split at hg
    · rename_i hj
      rcases List.mem_cons.mp hg with rfl | hg
      · exact Or.inr ⟨hj, l, rfl, Or.inr (by simp [hj])⟩
      · exact Or.inl (List.mem_cons_of_mem _ hg)
    · rcases List.mem_cons.mp hg with rfl | hg
      · exact Or.inl List.mem_cons_self
      · refine (ih hg).imp (List.mem_cons_of_mem _) (And.imp_right ?_)
        rintro ⟨l', hl', hmem⟩
        exact ⟨l', hl', hmem.imp_right (List.mem_cons_of_mem _)⟩

/-- The groups of `block`, as they are made from its front to its end. -/
structure Grouped (key : State → κ) (block : List State) (groups : List (κ × List State)) :
    Prop where
  /-- The groups hold the members of the block. -/
  perm : (groups.map Prod.snd).flatten.Perm block
  /-- Each key has one group. -/
  nodup : (groups.map Prod.fst).Nodup
  /-- No group is empty. -/
  ne_nil : ∀ g ∈ groups, g.2 ≠ []
  /-- The members of a group have its key. -/
  key_eq : ∀ g ∈ groups, ∀ s ∈ g.2, key s = g.1

theorem Grouped.insert (h : Grouped key block groups) :
    Grouped key (block ++ [s]) (insertGroup (key s) s groups) where
  perm := perm_insertGroup.trans (h.perm.append_right [s])
  nodup := by
    rw [map_fst_insertGroup]
    split
    · exact h.nodup
    · rename_i hnew
      refine List.nodup_append.mpr ⟨h.nodup, List.nodup_singleton _, fun k hk k' hk' hkk' => ?_⟩
      exact hnew (List.mem_singleton.mp hk' ▸ hkk' ▸ hk)
  ne_nil g hg := by
    rcases mem_insertGroup hg with hg | ⟨-, l, hl, -⟩
    · exact h.ne_nil g hg
    · simp [hl]
  key_eq g hg t ht := by
    rcases mem_insertGroup hg with hg | ⟨hk, l, hl, hmem⟩
    · exact h.key_eq g hg t ht
    · rw [hl] at ht
      rcases List.mem_append.mp ht with ht | ht
      · rcases hmem with rfl | hmem
        · exact absurd ht List.not_mem_nil
        · exact (h.key_eq _ hmem t ht).trans hk.symm
      · rw [hk, List.mem_singleton.mp ht]

theorem grouped_foldl (key : State → κ) (block : List State) :
    Grouped key block (block.foldl (fun groups s => insertGroup (key s) s groups) []) := by
  induction block using List.reverseRecOn with
  | nil => exact ⟨List.Perm.refl _, List.nodup_nil, by simp, by simp⟩
  | append_singleton block s ih =>
    rw [List.foldl_append, List.foldl_cons, List.foldl_nil]
    exact ih.insert

theorem splits_groupBy (key : State → κ) (block : List State) :
    (groupBy key block).Splits block where
  perm := (grouped_foldl key block).perm
  ne_nil b hb := by
    obtain ⟨g, hg, rfl⟩ := List.mem_map.mp hb
    exact (grouped_foldl key block).ne_nil g hg

/-- Two members of the block stay together when their keys are equal. -/
theorem together_groupBy :
    (groupBy key block).Together p q ↔ p ∈ block ∧ q ∈ block ∧ key p = key q := by
  have hgrouped := grouped_foldl key block
  constructor
  · rintro ⟨b, hb, hp, hq⟩
    have hmem := fun {s} => (splits_groupBy key block).mem_iff (s := s)
    refine ⟨hmem.mpr ⟨b, hb, hp⟩, hmem.mpr ⟨b, hb, hq⟩, ?_⟩
    obtain ⟨g, hg, rfl⟩ := List.mem_map.mp hb
    exact (hgrouped.key_eq g hg p hp).trans (hgrouped.key_eq g hg q hq).symm
  · rintro ⟨hp, hq, hkey⟩
    obtain ⟨b, hb, hpb⟩ := (splits_groupBy key block).mem_iff.mp hp
    obtain ⟨c, hc, hqc⟩ := (splits_groupBy key block).mem_iff.mp hq
    obtain ⟨g, hg, rfl⟩ := List.mem_map.mp hb
    obtain ⟨g', hg', rfl⟩ := List.mem_map.mp hc
    have hgg' : g.1 = g'.1 := by
      rw [← hgrouped.key_eq g hg p hpb, ← hgrouped.key_eq g' hg' q hqc, hkey]
    obtain rfl := List.inj_on_of_nodup_map hgrouped.nodup hg hg' hgg'
    exact ⟨g.2, hb, hpb, hqc⟩

/-- As long as all keys are equal, the one group there is grows at its end. -/
theorem foldl_insertGroup_of_eq {l : List State} (h : ∀ s ∈ block, key s = k) :
    block.foldl (fun groups s => insertGroup (key s) s groups) [(k, l)] = [(k, l ++ block)] := by
  induction block generalizing l with
  | nil => simp
  | cons s block ih =>
    have hs : key s = k := h s List.mem_cons_self
    have hrest : ∀ t ∈ block, key t = k := fun t ht => h t (List.mem_cons_of_mem s ht)
    rw [List.foldl_cons, hs, insertGroup, if_pos rfl, ih hrest, List.append_assoc]
    rfl

/-- A grouping with one group has changed nothing. -/
theorem groupBy_eq_singleton (h : (groupBy key block).length = 1) :
    groupBy key block = [block] := by
  obtain ⟨b, hb⟩ := List.length_eq_one_iff.mp h
  -- all members are in the one group, so they have the same key
  have hkeys : ∀ p ∈ block, ∀ q ∈ block, key p = key q := by
    intro p hp q hq
    have hmem : ∀ s ∈ block, s ∈ b := by
      intro s hs
      obtain ⟨c, hc, hsc⟩ := (splits_groupBy key block).mem_iff.mp hs
      rw [hb] at hc
      exact List.mem_singleton.mp hc ▸ hsc
    have : (groupBy key block).Together p q := ⟨b, by simp [hb], hmem p hp, hmem q hq⟩
    exact (together_groupBy.mp this).2.2
  cases block with
  | nil => simp [groupBy] at h
  | cons s block =>
    have hrest : ∀ t ∈ block, key t = key s := fun t ht =>
      hkeys t (List.mem_cons_of_mem s ht) s List.mem_cons_self
    rw [groupBy, List.foldl_cons, insertGroup, foldl_insertGroup_of_eq hrest]
    rfl

theorem length_groupBy_pos (h : block ≠ []) : 0 < (groupBy key block).length := by
  obtain ⟨s, hs⟩ := List.exists_mem_of_ne_nil block h
  obtain ⟨b, hb, -⟩ := (splits_groupBy key block).mem_iff.mp hs
  exact List.length_pos_of_mem hb

end Partition

end Determinize
