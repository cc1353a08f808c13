import Determinize.Minimal.Merge
import Determinize.Proofs.Run.Deterministic

/-!
# Merging indistinct states changes no outcome

Merging removes a state and leads to another one what led to it. If no word tells the two apart,
then from every state that is left each word has the outcome it had before. So the states that are
left stay indistinct from those they were indistinct from, and merges can follow one another.

## Main definitions

* `Automaton.Admits` — a merge that keeps what has to be kept
* `Automaton.AdmitsAll` — such merges one after the other

## Main results

* `Automaton.indistinct_of_equivalent` — states that are equivalent for merging are indistinct
* `Automaton.outcome_merged` — one merge
* `Automaton.outcome_mergedAll` — merges one after the other
* `Automaton.exists_movesBy_mergedAll` — what is not missing before is not missing after them
-/

namespace Determinize

theorem State.redirected_ne {remove keep s : State} (h : keep ≠ remove) :
    State.redirected remove keep s ≠ remove := by
  rw [State.redirected]
  split
  · exact h
  · assumption

namespace Automaton

variable {a : Automaton} {p q s t remove keep : State} {x : Symbol} {word : List Symbol}

/-- States that agree on acceptance and on the successors on every symbol are indistinct. -/
theorem indistinct_of_equivalent (h : a.equivalent a.index p q = true) : a.Indistinct p q := by
  simp only [equivalent, successors_index, Bool.decide_and, Bool.and_eq_true, decide_eq_true_eq,
    List.all_eq_true] at h
  intro word
  cases word with
  | nil => rw [outcome_nil, outcome_nil, h.1]
  | cons x word =>
    rw [outcome_cons, outcome_cons]
    split
    · rename_i hx
      rw [h.2 x hx]
    · rfl

/-! ### One merge -/

/-- A listed state is kept, and the state that is removed is another one, neither the initial state
nor the trap. -/
structure Admits (a : Automaton) (remove keep : State) : Prop where
  /-- The state that is kept is listed. -/
  keep_mem : keep ∈ a.states
  /-- The state that is kept is not the one that is removed. -/
  keep_ne : keep ≠ remove
  /-- The initial state is not removed. -/
  initial_ne : a.initial ≠ remove
  /-- The trap is not removed. -/
  trap_ne : .trap ≠ remove

/-- The targets of the transitions from a state that is left are redirected one by one. -/
theorem flatMap_targets_merged (hs : s ≠ remove) :
    ((a.merged remove keep).transitions.filter (·.leaves s x)).flatMap (·.targets) =
      ((a.transitions.filter (·.leaves s x)).flatMap (·.targets)).map
        (State.redirected remove keep) := by
  have hfilter : (a.transitions.filter fun e => e.leaves s x && decide (e.source ≠ remove)) =
      a.transitions.filter (·.leaves s x) := by
    refine List.filter_congr fun e _ => ?_
    cases he : e.leaves s x with
    | false => rfl
    | true =>
      rw [(Transition.leaves_iff.mp he).1]
      simpa using hs
  rw [List.map_flatMap, ← hfilter, merged, List.filter_map, List.flatMap_map, List.filter_filter]
  rfl

/-- The first successor is redirected. -/
theorem head?_successors_merged (hs : s ≠ remove) :
    (successors (a.merged remove keep).transitions s x).head? =
      (successors a.transitions s x).head?.map (State.redirected remove keep) := by
  rw [head?_successors, head?_successors, flatMap_targets_merged hs, List.head?_map]

/-- A single successor is redirected. -/
theorem successors_merged_of_eq_singleton (hs : s ≠ remove)
    (h : successors a.transitions s x = [t]) :
    successors (a.merged remove keep).transitions s x = [State.redirected remove keep t] := by
  have hmem : ∀ u, u ∈ (a.transitions.filter (·.leaves s x)).flatMap (·.targets) ↔ u = t := by
    intro u
    rw [← List.mem_singleton, ← h, successors, List.mem_eraseDups]
  rw [successors, flatMap_targets_merged hs]
  refine eq_singleton_of_nodup (nodup_eraseDups _) fun u => ?_
  rw [List.mem_eraseDups, List.mem_map]
  constructor
  · rintro ⟨v, hv, rfl⟩
    rw [(hmem v).mp hv]
  · rintro rfl
    exact ⟨t, (hmem t).mpr rfl, rfl⟩

theorem mem_states_merged : s ∈ (a.merged remove keep).states ↔ s ∈ a.states ∧ s ≠ remove := by
  rw [merged, List.mem_filter, decide_eq_true_eq]

/-- A listed state goes to a state that is left. -/
theorem Admits.redirected_mem (h : a.Admits remove keep) (hs : s ∈ a.states) :
    State.redirected remove keep s ∈ (a.merged remove keep).states := by
  refine mem_states_merged.mpr ⟨?_, State.redirected_ne h.keep_ne⟩
  rw [State.redirected]
  split
  · exact h.keep_mem
  · exact hs

/-- Where nothing is missing, nothing is missing after a merge that keeps a listed state. -/
theorem MovesBy.merged {next : State → Symbol → State} (h : a.MovesBy next)
    (hadmits : a.Admits remove keep) :
    (a.merged remove keep).MovesBy fun s x => State.redirected remove keep (next s x) where
  initial_mem := mem_states_merged.mpr ⟨h.initial_mem, hadmits.initial_ne⟩
  next_mem s hs x hx :=
    hadmits.redirected_mem (h.next_mem s (mem_states_merged.mp hs).1 x hx)
  successors_eq s hs x hx := by
    obtain ⟨hs, hsr⟩ := mem_states_merged.mp hs
    exact successors_merged_of_eq_singleton hsr (h.successors_eq s hs x hx)

theorem isFinal_merged (hs : s ≠ remove) : (a.merged remove keep).isFinal s = a.isFinal s := by
  simp [isFinal, merged, hs]

/-- From a state that is left every word has the outcome it had before. -/
theorem outcome_merged (hne : keep ≠ remove) (h : a.Indistinct remove keep) (hs : s ≠ remove) :
    (a.merged remove keep).outcome s word = a.outcome s word := by
  induction word generalizing s with
  | nil => rw [outcome_nil, outcome_nil, isFinal_merged hs]
  | cons x word ih =>
    rw [outcome_cons, outcome_cons, head?_successors_merged hs]
    cases (successors a.transitions s x).head? with
    | none => rfl
    | some t =>
      have hredirected : a.outcome (State.redirected remove keep t) word = a.outcome t word := by
        rw [State.redirected]
        split
        · rename_i ht
          rw [ht, h word]
        · rfl
      simp only [Option.map_some, Option.bind_some, ih (State.redirected_ne hne), hredirected]
      rfl

/-! ### Merges one after the other -/

/-- Every merge keeps what has to be kept, and no state is kept that another merge removes. -/
structure AdmitsAll (a : Automaton) (merges : List (State × State)) : Prop where
  /-- Each merge could be the first one. -/
  admits : ∀ m ∈ merges, a.Admits m.1 m.2
  /-- What is kept stays. -/
  kept : ∀ m ∈ merges, m.2 ∉ merges.map Prod.fst

namespace AdmitsAll

variable {m n : State × State} {merges : List (State × State)}

theorem head (h : a.AdmitsAll (m :: merges)) : a.Admits m.1 m.2 :=
  h.admits m List.mem_cons_self

theorem kept_ne (h : a.AdmitsAll (m :: merges)) (hn : n ∈ merges) :
    n.2 ≠ m.1 ∧ n.2 ∉ merges.map Prod.fst := by
  simpa only [List.map_cons, List.mem_cons, not_or] using h.kept n (List.mem_cons_of_mem _ hn)

/-- After the first merge the others are left, since what they keep is still listed. -/
theorem tail (h : a.AdmitsAll (m :: merges)) : (a.merged m.1 m.2).AdmitsAll merges where
  admits n hn := by
    obtain ⟨hmem, hne, hinitial, htrap⟩ := h.admits n (List.mem_cons_of_mem _ hn)
    exact ⟨mem_states_merged.mpr ⟨hmem, (h.kept_ne hn).1⟩, hne, hinitial, htrap⟩
  kept n hn := (h.kept_ne hn).2

/-- What every merge keeps that keeps what has to be kept, such merges keep. -/
theorem induction {motive : Automaton → Prop} (hadmits : a.AdmitsAll merges) (h : motive a)
    (hmerge : ∀ b remove keep, motive b → b.Admits remove keep → motive (b.merged remove keep)) :
    motive (a.mergedAll merges) := by
  induction merges generalizing a with
  | nil => exact h
  | cons m merges ih => exact ih hadmits.tail (hmerge a m.1 m.2 h hadmits.head)

end AdmitsAll

/-- Merges of indistinct states, each state removed once, leave every outcome as it was. -/
theorem outcome_mergedAll {merges : List (State × State)} (hadmits : a.AdmitsAll merges)
    (hindistinct : ∀ m ∈ merges, a.Indistinct m.1 m.2) (hnodup : (merges.map Prod.fst).Nodup)
    (hs : s ∉ merges.map Prod.fst) :
    (a.mergedAll merges).outcome s word = a.outcome s word := by
  induction merges generalizing a with
  | nil => rfl
  | cons m merges ih =>
    obtain ⟨hfresh, hnodup⟩ := List.nodup_cons.mp hnodup
    have hfirst : ∀ {t}, t ≠ m.1 →
        ∀ word, (a.merged m.1 m.2).outcome t word = a.outcome t word := fun ht word =>
      outcome_merged hadmits.head.keep_ne (hindistinct _ List.mem_cons_self) ht
    have hsr : s ≠ m.1 ∧ s ∉ merges.map Prod.fst := by
      simpa only [List.map_cons, List.mem_cons, not_or] using hs
    refine (ih hadmits.tail (fun n hn => ?_) hnodup hsr.2).trans (hfirst hsr.1 word)
    -- the states of a later pair are left, so they are as indistinct as before
    have hn₁ : n.1 ≠ m.1 := fun hnm => hfresh (List.mem_map.mpr ⟨n, hn, hnm⟩)
    intro word
    rw [hfirst hn₁, hfirst (hadmits.kept_ne hn).1]
    exact hindistinct n (List.mem_cons_of_mem _ hn) word

/-- Merges that keep what has to be kept leave nothing missing. -/
theorem exists_movesBy_mergedAll {merges : List (State × State)} {next : State → Symbol → State}
    (h : a.MovesBy next) (hadmits : a.AdmitsAll merges) :
    ∃ next, (a.mergedAll merges).MovesBy next := by
  refine hadmits.induction (motive := fun b => ∃ next, b.MovesBy next) ⟨next, h⟩ ?_
  rintro b remove keep ⟨next, hb⟩ hmerge
  exact ⟨_, hb.merged hmerge⟩

end Automaton

end Determinize
