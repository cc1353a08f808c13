import Determinize.Proofs.Minimal.Stability

/-!
# Stronger modes leave fewer states

Passes until nothing merges begin with the one pass, so they leave a part of what it leaves. That
the partition leaves no more states than such passes is less direct, for of two indistinct states
one mode may keep the first and the other the second.

What passes merge is indistinct, so each listed state is indistinct from one that they leave. Send
each state that the partition leaves to such a state, and to itself if passes leave it too. No two
are sent to the same state: they would be indistinct, and of indistinct states the partition leaves
only the initial state and the trap, which are sent to themselves because every mode leaves them.

For the same reason there is nothing more to do after the stronger modes. Equivalent states are
indistinct, so after the partition no pass meets a pair to merge, and a second partition puts no two
states into one block but the initial state and the trap, which it does not remove. After passes
until nothing merges no pass merges anything, but the partition still may: four states that count
zeros up to four are indistinct in pairs, and no two are equivalent.

## Main definitions

* `Automaton.Condenses` — only indistinct states were merged, and some states always stay
* `Automaton.Reduced` — no two listed states are indistinct, the initial state and the trap apart

## Main results

* `Automaton.Condenses.length_mergedByPartition_le` — no such merging leaves fewer states than the
  partition
* `Automaton.Reduced.minimized_eq`, `Automaton.Stable.minimized_eq` — what no mode changes, and what
  passes do not change
* `Automaton.ordered_minimized` — the modes in order
-/

namespace Determinize

namespace Automaton

variable {a b c : Automaton} {p q s remove keep : State} {mode : Mode}

/-- States of `a` were merged with indistinct ones, and `b` is left. -/
structure Condenses (a b : Automaton) : Prop where
  /-- The initial state is the same. -/
  initial_eq : b.initial = a.initial
  /-- The initial state is left if it was listed. -/
  initial_mem : a.initial ∈ a.states → a.initial ∈ b.states
  /-- The trap is left if it was listed. -/
  trap_mem : .trap ∈ a.states → .trap ∈ b.states
  /-- The states that are left were listed. -/
  subset : ∀ s ∈ b.states, s ∈ a.states
  /-- From a state that is left every word has the outcome it had. -/
  outcome_eq : ∀ s ∈ b.states, ∀ word, b.outcome s word = a.outcome s word
  /-- Every listed state is indistinct from one that is left. -/
  exists_indistinct : ∀ s ∈ a.states, ∃ t ∈ b.states, a.Indistinct s t

/-- No two listed states are indistinct, the initial state and the trap apart. -/
def Reduced (a : Automaton) : Prop :=
  ∀ p ∈ a.states, ∀ q ∈ a.states, p ≠ q → a.Indistinct p q → a.InitialAndTrap p q

/-! ### What passes merge -/

namespace Condenses

theorem refl (a : Automaton) : a.Condenses a where
  initial_eq := rfl
  initial_mem hinitial := hinitial
  trap_mem htrap := htrap
  subset _ hs := hs
  outcome_eq _ _ _ := rfl
  exists_indistinct s hs := ⟨s, hs, fun _ => rfl⟩

/-- States that are left are as indistinct as they were. -/
theorem indistinct_iff (h : a.Condenses b) (hp : p ∈ b.states) (hq : q ∈ b.states) :
    b.Indistinct p q ↔ a.Indistinct p q := by
  refine forall_congr' fun word => ?_
  rw [h.outcome_eq p hp word, h.outcome_eq q hq word]

theorem trans (h : a.Condenses b) (h' : b.Condenses c) : a.Condenses c where
  initial_eq := h'.initial_eq.trans h.initial_eq
  initial_mem hinitial := by
    have hleft : b.initial ∈ b.states := h.initial_eq ▸ h.initial_mem hinitial
    exact h.initial_eq ▸ h'.initial_mem hleft
  trap_mem htrap := h'.trap_mem (h.trap_mem htrap)
  subset s hs := h.subset s (h'.subset s hs)
  outcome_eq s hs word := (h'.outcome_eq s hs word).trans (h.outcome_eq s (h'.subset s hs) word)
  exists_indistinct s hs := by
    obtain ⟨t, ht, hst⟩ := h.exists_indistinct s hs
    obtain ⟨u, hu, htu⟩ := h'.exists_indistinct t ht
    have htu : a.Indistinct t u := (h.indistinct_iff ht (h'.subset u hu)).mp htu
    exact ⟨u, hu, fun word => (hst word).trans (htu word)⟩

end Condenses

/-- A merge of indistinct states that keeps what has to be kept. -/
theorem condenses_merged (hadmits : a.Admits remove keep) (h : a.Indistinct remove keep) :
    a.Condenses (a.merged remove keep) where
  initial_eq := rfl
  initial_mem hinitial := mem_states_merged.mpr ⟨hinitial, hadmits.initial_ne⟩
  trap_mem htrap := mem_states_merged.mpr ⟨htrap, hadmits.trap_ne⟩
  subset _ hs := (mem_states_merged.mp hs).1
  outcome_eq _ hs _ := outcome_merged hadmits.keep_ne h (mem_states_merged.mp hs).2
  exists_indistinct s hs := by
    by_cases hremove : s = remove
    · subst hremove
      exact ⟨keep, mem_states_merged.mpr ⟨hadmits.keep_mem, hadmits.keep_ne⟩, h⟩
    · exact ⟨s, mem_states_merged.mpr ⟨hs, hremove⟩, fun _ => rfl⟩

theorem condenses_passes (n : ℕ) : a.Condenses (passes n a) := by
  refine passes_induction (motive := a.Condenses) (.refl a) ?_ n
  intro b p q remove keep hb hmerge
  obtain ⟨hadmits, hindistinct⟩ := of_verdict_eq_merge hmerge
  exact hb.trans (condenses_merged hadmits hindistinct)

/-- Passes leave a part of the list of states. -/
theorem states_passes_sublist (n : ℕ) : (passes n a).states.Sublist a.states :=
  passes_induction (motive := fun b => b.states.Sublist a.states) (.refl _)
    (fun _ _ _ _ _ hb _ => List.filter_sublist.trans hb) n

/-- Passes until nothing merges leave a part of what the first one leaves. -/
theorem states_converged_sublist : a.converged.states.Sublist a.onePass.automaton.states := by
  rw [converged, passes]
  by_cases hmerges : a.onePass.merges = 0
  · simp only [hmerges, if_true, List.Sublist.refl]
  · simpa only [hmerges, if_false] using states_passes_sublist a.states.length

/-! ### What the partition merges -/

/-- Of indistinct states the partition leaves one, or the initial state and the trap. -/
theorem reduced_mergedByPartition (hfunctional : a.Functional) (hnodup : a.states.Nodup) :
    a.mergedByPartition.Reduced := by
  intro p hp q hq hne h
  have hindistinct : a.Indistinct p q := by
    intro word
    rw [← outcome_mergedByPartition hfunctional hnodup (mem_states_mergedByPartition.mp hp).2,
      ← outcome_mergedByPartition hfunctional hnodup (mem_states_mergedByPartition.mp hq).2, h word]
  rw [InitialAndTrap, initial_mergedByPartition]
  exact (eq_or_of_indistinct hfunctional hnodup hp hq hindistinct).resolve_left hne

/-- A list is at most as long as one to which its members are sent, each to another one. -/
theorem length_le_of_injOn {f : State → State} {l k : List State} (hl : l.Nodup)
    (hf : ∀ s ∈ l, f s ∈ k) (hinj : ∀ p ∈ l, ∀ q ∈ l, f p = f q → p = q) :
    l.length ≤ k.length := by
  have hsubset : l.map f ⊆ k := by
    intro t ht
    obtain ⟨s, hs, rfl⟩ := List.mem_map.mp ht
    exact hf s hs
  calc l.length = (l.map f).length := (List.length_map f).symm
    _ ≤ k.length := (List.subperm_of_subset (List.Nodup.map_on hinj hl) hsubset).length_le

/-- A listed state is indistinct from one that is left, and from itself if it is left. -/
theorem Condenses.exists_indistinct_self (h : a.Condenses b) (hs : s ∈ a.states) :
    ∃ t ∈ b.states, a.Indistinct s t ∧ (s ∈ b.states → t = s) := by
  by_cases hleft : s ∈ b.states
  · exact ⟨s, hleft, fun _ => rfl, fun _ => rfl⟩
  · obtain ⟨t, ht, hst⟩ := h.exists_indistinct s hs
    exact ⟨t, ht, hst, fun hs => absurd hs hleft⟩

/-- **No merging of indistinct states leaves fewer states than the partition.** -/
theorem Condenses.length_mergedByPartition_le (h : a.Condenses b) (hfunctional : a.Functional)
    (hnodup : a.states.Nodup) : a.mergedByPartition.states.length ≤ b.states.length := by
  have hlisted : ∀ s ∈ a.mergedByPartition.states, s ∈ a.states := fun s hs =>
    (mem_states_mergedByPartition.mp hs).1
  choose! f hf hindistinct hself using fun s (hs : s ∈ a.states) => h.exists_indistinct_self hs
  refine length_le_of_injOn (nodup_states_mergedByPartition hnodup)
    (fun s hs => hf s (hlisted s hs)) fun p hp q hq hpq => ?_
  have hsame : a.Indistinct p q := by
    intro word
    rw [hindistinct p (hlisted p hp) word, hindistinct q (hlisted q hq) word, hpq]
  rcases eq_or_of_indistinct hfunctional hnodup hp hq hsame with heq | ⟨rfl, rfl⟩ | ⟨rfl, rfl⟩
  · exact heq
  · -- both are left, so both are sent to themselves
    have hinitial := hself _ (hlisted _ hp) (h.initial_mem (hlisted _ hp))
    have htrap := hself _ (hlisted _ hq) (h.trap_mem (hlisted _ hq))
    rw [← hinitial, ← htrap, hpq]
  · have htrap := hself _ (hlisted _ hp) (h.trap_mem (hlisted _ hp))
    have hinitial := hself _ (hlisted _ hq) (h.initial_mem (hlisted _ hq))
    rw [← hinitial, ← htrap, hpq]

/-! ### What is left stays -/

/-- A merge that keeps a listed state leaves at most one successor where there was at most one. -/
theorem Functional.merged (h : a.Functional) (hadmits : a.Admits remove keep) :
    (a.merged remove keep).Functional := by
  intro s hs x hx
  obtain ⟨hs, hsr⟩ := mem_states_merged.mp hs
  rcases h s hs x hx with hnone | ⟨t, ht, hone⟩
  · left
    rw [← List.head?_eq_none_iff, head?_successors_merged hsr, hnone]
    rfl
  · exact Or.inr ⟨_, hadmits.redirected_mem ht, successors_merged_of_eq_singleton hsr hone⟩

theorem Functional.minimized (h : a.Functional) (hnodup : a.states.Nodup) (mode : Mode) :
    (a.minimized mode).Functional :=
  minimized_induction hnodup h (fun _ _ _ hb hadmits => hb.merged hadmits) mode

theorem Reduced.stable (h : a.Reduced) : a.Stable :=
  fun p hp q hq hne hequivalent => h p hp q hq hne (indistinct_of_equivalent hequivalent)

/-- Where no two states are indistinct, blocks hold nothing that may be removed. -/
theorem Reduced.mergedByPartition_eq (h : a.Reduced) (hfunctional : a.Functional) :
    a.mergedByPartition = a := by
  have hmerges : a.partitionMerges = [] := by
    refine List.eq_nil_iff_forall_not_mem.mpr fun m hm => ?_
    obtain ⟨block, hblock, hmem, hne, hremovable, -⟩ := mem_partitionMerges.mp hm
    have hsplits := splits_partition a
    have hrepresentative := representative_mem (a := a) (hsplits.ne_nil block hblock)
    have hindistinct : a.Indistinct m.1 (a.representative block) :=
      indistinct_of_together hfunctional ⟨block, hblock, hmem, hrepresentative⟩
    obtain ⟨htrap, hinitial⟩ : m.1 ≠ .trap ∧ m.1 ≠ a.initial := of_decide_eq_true hremovable
    rcases h _ (hsplits.mem_iff.mpr ⟨block, hblock, hmem⟩) _
      (hsplits.mem_iff.mpr ⟨block, hblock, hrepresentative⟩) hne hindistinct with
      ⟨heq, -⟩ | ⟨heq, -⟩
    · exact hinitial heq
    · exact htrap heq
  rw [mergedByPartition, hmerges]
  rfl

/-- Passes leave a stable automaton as it is. -/
theorem Stable.minimized_eq (h : a.Stable) (hmode : mode ≠ .byBlocks) : a.minimized mode = a := by
  cases mode with
  | single => exact congrArg Pass.automaton h.onePass_eq
  | converge => exact h.converged_eq
  | byBlocks => exact absurd rfl hmode

/-- Every mode leaves a reduced automaton as it is. -/
theorem Reduced.minimized_eq (h : a.Reduced) (hfunctional : a.Functional) (mode : Mode) :
    a.minimized mode = a := by
  by_cases hmode : mode = .byBlocks
  · subst hmode
    exact h.mergedByPartition_eq hfunctional
  · exact h.stable.minimized_eq hmode

/-! ### The modes in order -/

/-- A copy lists each state once, and takes over the transitions as they are. -/
theorem Deterministic.copy (h : a.Deterministic) : a.copy.Deterministic where
  initial_mem := List.mem_eraseDups.mpr h.initial_mem
  target e he := by
    obtain ⟨t, ht, htargets⟩ := h.target e he
    exact ⟨t, List.mem_eraseDups.mpr ht, htargets⟩
  nodup_keys := h.nodup_keys

theorem length_states_copy_le : a.copy.states.length ≤ a.states.length := by
  have hsubset : a.states.eraseDups ⊆ a.states := fun s hs => List.mem_eraseDups.mp hs
  exact (List.subperm_of_subset (nodup_eraseDups a.states) hsubset).length_le

/-- **The modes are ordered by strength, and what the stronger ones leave stays.** Of a
deterministic automaton the partition leaves no more states than passes until nothing merges, these
no more than one pass, and that no more than there were. What the partition leaves no mode changes,
and what passes until nothing merges leave no pass changes. -/
theorem ordered_minimized (hdet : a.Deterministic) :
    ((a.copy.minimized .byBlocks).states.length ≤ (a.copy.minimized .converge).states.length ∧
      (a.copy.minimized .converge).states.length ≤ (a.copy.minimized .single).states.length ∧
      (a.copy.minimized .single).states.length ≤ a.states.length) ∧
    (∀ mode, (a.copy.minimized .byBlocks).minimized mode = a.copy.minimized .byBlocks) ∧
    ∀ mode ≠ .byBlocks,
      (a.copy.minimized .converge).minimized mode = a.copy.minimized .converge := by
  have hfunctional : a.copy.Functional := hdet.copy.functional
  have hnodup : a.copy.states.Nodup := nodup_eraseDups a.states
  refine ⟨⟨?_, ?_, ?_⟩, fun mode => ?_, fun mode hmode => ?_⟩
  · exact (condenses_passes _).length_mergedByPartition_le hfunctional hnodup
  · exact states_converged_sublist.length_le
  · exact (states_scan_sublist a.copy.pairs).length_le.trans length_states_copy_le
  · have hleft : (a.copy.minimized .byBlocks).Functional := hfunctional.minimized hnodup .byBlocks
    exact (reduced_mergedByPartition hfunctional hnodup).minimized_eq hleft mode
  · exact (stable_converged hnodup).minimized_eq hmode

/-- Each mode leaves fewer states than the one before, and the initial state and the trap, which
nothing tells apart, are left by all of them. -/
theorem ordered_minimized_lateMerges :
    lateMerges.Deterministic ∧
      (lateMerges.copy.minimized .byBlocks).minimized .converge =
        lateMerges.copy.minimized .byBlocks ∧
      (lateMerges.copy.minimized .converge).minimized .single =
        lateMerges.copy.minimized .converge ∧
      (lateMerges.copy.minimized .byBlocks).states =
        [.simple "p1", .simple "p2", .simple "f", .simple "i", .trap] ∧
      (lateMerges.copy.minimized .converge).states.length = 6 ∧
      (lateMerges.copy.minimized .single).states.length = 7 ∧ lateMerges.states.length = 8 := by
  have hdet : lateMerges.Deterministic := ⟨by decide, by decide, by decide⟩
  obtain ⟨-, hpartition, hconverge⟩ := ordered_minimized hdet
  exact ⟨hdet, hpartition .converge, hconverge .single (by decide), by decide, by decide,
    by decide, by decide⟩

end Automaton

end Determinize
