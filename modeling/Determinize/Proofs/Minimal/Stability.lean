import Determinize.Proofs.Minimal.Language
import Mathlib.Logic.Function.Iterate

/-!
# Passes until nothing merges

A pass takes its pairs from the states that are listed when it begins. By the time a pair has its
turn, one of its states may be gone, and a state that was compared before may have become equivalent
to another one. Which state of a pair would go depends on the order of the pair, and so does whether
the pair is left alone because that state is the trap.

None of this matters to a pass that merges nothing. All its pairs are still listed at their turn,
and each one comes in both orders. One of the two orders removes a state other than the trap, unless
the pair is the initial state and the trap. So a pass merges nothing exactly if no other two states
are equivalent, and this is where passes stop.

They do stop. Each merge removes one listed state, so a pass that merges leaves fewer states than it
found, and there are no more such passes than states.

Nothing is assumed of the transitions. What is needed is that no state is listed twice, since a
merge removes every entry of its state.

## Main definitions

* `Automaton.Stable` — no two listed states are equivalent, the initial state and the trap apart
* `Automaton.afterPasses` — what a number of passes leave

## Main results

* `Automaton.length_states_scan` — a pass merges as often as states go
* `Automaton.merges_onePass_eq_zero_iff` — a pass merges nothing where it finds a stable automaton
* `Automaton.exists_converged_eq` — how many passes there are
* `Automaton.stable_minimized_converge` — all of it for passes until nothing merges
-/

namespace Determinize

namespace Automaton

variable {a : Automaton} {index : Index} {p q remove keep : State} {pairs : List (State × State)}
  {n : ℕ}

/-- One of the two states is the initial state and the other one is the trap. -/
def InitialAndTrap (a : Automaton) (p q : State) : Prop :=
  p = a.initial ∧ q = .trap ∨ p = .trap ∧ q = a.initial

/-- No two listed states are equivalent, the initial state and the trap apart. -/
def Stable (a : Automaton) : Prop :=
  ∀ p ∈ a.states, ∀ q ∈ a.states, p ≠ q → a.equivalent a.index p q = true → a.InitialAndTrap p q

/-! ### A pass merges as often as states go -/

/-- A merge removes one entry of the list. -/
theorem length_states_merged (hnodup : a.states.Nodup) (hremove : remove ∈ a.states) :
    (a.merged remove keep).states.length + 1 = a.states.length := by
  have herase : (a.merged remove keep).states = a.states.erase remove := by
    rw [hnodup.erase_eq_filter, merged]
    exact List.filter_congr fun s _ => decide_not
  rw [herase, List.length_erase_add_one hremove]

theorem scan_cons_of_merge (h : a.verdict index p q = .merge remove keep) :
    a.scan index ((p, q) :: pairs) =
      ⟨((a.merged remove keep).scan (a.merged remove keep).index pairs).automaton,
        ((a.merged remove keep).scan (a.merged remove keep).index pairs).merges + 1⟩ := by
  rw [scan, h]

theorem scan_cons_of_forall_ne (h : ∀ remove keep, a.verdict index p q ≠ .merge remove keep) :
    a.scan index ((p, q) :: pairs) = a.scan index pairs := by
  rw [scan]
  split
  · rename_i hverdict
    exact absurd hverdict (h _ _)
  · rfl

/-- A pass merges as often as states go, whatever pairs it goes through. -/
theorem length_states_scan (hnodup : a.states.Nodup) (pairs : List (State × State)) :
    (a.scan a.index pairs).automaton.states.length + (a.scan a.index pairs).merges =
      a.states.length := by
  induction pairs generalizing a with
  | nil => rfl
  | cons pair pairs ih =>
    obtain ⟨p, q⟩ := pair
    by_cases hmerge : ∃ remove keep, a.verdict a.index p q = .merge remove keep
    · obtain ⟨remove, keep, hmerge⟩ := hmerge
      have hremove : remove ∈ a.states := by
        obtain ⟨⟨hp, hq, -, -⟩, -, ⟨-, rfl, -⟩ | ⟨-, rfl, -⟩⟩ := verdict_eq_merge_iff.mp hmerge
        · exact hq
        · exact hp
      have hmerged : (a.merged remove keep).states.Nodup := hnodup.filter _
      have hlength : (a.merged remove keep).states.length + 1 = a.states.length :=
        length_states_merged hnodup hremove
      have hrest := ih hmerged
      rw [scan_cons_of_merge hmerge]
      dsimp only
      omega
    · push Not at hmerge
      rw [scan_cons_of_forall_ne hmerge]
      exact ih hnodup

/-- What a pass leaves of the list of states is in the order it was. -/
theorem states_scan_sublist (pairs : List (State × State)) :
    (a.scan a.index pairs).automaton.states.Sublist a.states :=
  scan_induction (motive := fun b => b.states.Sublist a.states) (.refl _)
    (fun _ _ _ _ _ hb _ => List.filter_sublist.trans hb) pairs

/-! ### When a pass merges nothing -/

theorem equivalent_comm : a.equivalent index p q = a.equivalent index q p := by
  rw [Bool.eq_iff_iff]
  simp only [equivalent, decide_eq_true_eq, List.all_eq_true]
  exact and_congr eq_comm (forall₂_congr fun _ _ => eq_comm)

theorem mem_pairs : (p, q) ∈ a.pairs ↔ p ∈ a.states ∧ q ∈ a.states := by
  simp [pairs, List.mem_flatMap]

/-- A pass that meets no pair to merge leaves everything as it was. -/
theorem scan_eq_self
    (h : ∀ p q, (p, q) ∈ pairs → ∀ remove keep, a.verdict index p q ≠ .merge remove keep) :
    a.scan index pairs = ⟨a, 0⟩ := by
  induction pairs with
  | nil => rfl
  | cons pair pairs ih =>
    obtain ⟨p, q⟩ := pair
    rw [scan_cons_of_forall_ne (h p q List.mem_cons_self)]
    exact ih fun p q hpq => h p q (List.mem_cons_of_mem _ hpq)

/-- A pass that merges nothing has met no pair to merge. -/
theorem forall_ne_of_merges_scan_eq_zero (h : (a.scan index pairs).merges = 0) :
    ∀ p q, (p, q) ∈ pairs → ∀ remove keep, a.verdict index p q ≠ .merge remove keep := by
  induction pairs with
  | nil => exact fun p q hpq => absurd hpq List.not_mem_nil
  | cons pair pairs ih =>
    obtain ⟨p', q'⟩ := pair
    have hfirst : ∀ remove keep, a.verdict index p' q' ≠ .merge remove keep := by
      intro remove keep hmerge
      rw [scan_cons_of_merge hmerge] at h
      exact Nat.succ_ne_zero _ h
    rw [scan_cons_of_forall_ne hfirst] at h
    intro p q hpq
    rcases List.mem_cons.mp hpq with hpq | hpq
    · obtain ⟨rfl, rfl⟩ := Prod.mk.inj hpq
      exact hfirst
    · exact ih h p q hpq

/-- In a stable automaton no pair is merged: of the initial state and the trap it would be the
trap that goes. -/
theorem Stable.verdict_ne_merge (h : a.Stable) :
    a.verdict a.index p q ≠ .merge remove keep := by
  intro hmerge
  obtain ⟨⟨hp, hq, hne, hequivalent⟩, htrap, hpair⟩ := verdict_eq_merge_iff.mp hmerge
  have hexcepted := h p hp q hq hne hequivalent
  rcases hpair with ⟨hinitial, rfl, rfl⟩ | ⟨hinitial, rfl, rfl⟩ <;>
    rcases hexcepted with ⟨hp', hq'⟩ | ⟨hp', hq'⟩
  · exact htrap hq'
  · exact hne (hinitial.trans hq'.symm)
  · exact hinitial hp'
  · exact htrap hp'

theorem Stable.onePass_eq (h : a.Stable) : a.onePass = ⟨a, 0⟩ :=
  scan_eq_self fun _ _ _ _ _ => h.verdict_ne_merge

/-- Where a pass merges nothing, no two states are equivalent but those that it must not merge. -/
theorem stable_of_merges_onePass_eq_zero (h : a.onePass.merges = 0) : a.Stable := by
  intro p hp q hq hne hequivalent
  have hunmerged := forall_ne_of_merges_scan_eq_zero h
  have hpq := hunmerged p q (mem_pairs.mpr ⟨hp, hq⟩)
  have hqp := hunmerged q p (mem_pairs.mpr ⟨hq, hp⟩)
  by_cases hinitial : p = a.initial
  · by_cases htrap : q = .trap
    · exact Or.inl ⟨hinitial, htrap⟩
    · exact absurd (verdict_eq_merge_iff.mpr
        ⟨⟨hp, hq, hne, hequivalent⟩, htrap, Or.inl ⟨hinitial, rfl, rfl⟩⟩) (hpq q p)
  · by_cases htrap : p = .trap
    · -- the pair was left alone for the sake of the trap, so look at it in the other order
      by_cases hinitial' : q = a.initial
      · exact Or.inr ⟨htrap, hinitial'⟩
      · exact absurd (verdict_eq_merge_iff.mpr
          ⟨⟨hq, hp, hne.symm, equivalent_comm.trans hequivalent⟩, htrap ▸ hne.symm,
            Or.inr ⟨hinitial', rfl, rfl⟩⟩) (hqp q p)
    · exact absurd (verdict_eq_merge_iff.mpr
        ⟨⟨hp, hq, hne, hequivalent⟩, htrap, Or.inr ⟨hinitial, rfl, rfl⟩⟩) (hpq p q)

/-- **A pass merges nothing exactly if the automaton is stable.** -/
theorem merges_onePass_eq_zero_iff : a.onePass.merges = 0 ↔ a.Stable := by
  refine ⟨stable_of_merges_onePass_eq_zero, fun h => ?_⟩
  rw [h.onePass_eq]

/-! ### Passes one after the other -/

/-- What `n` passes leave. -/
def afterPasses (a : Automaton) (n : ℕ) : Automaton := (fun b => b.onePass.automaton)^[n] a

@[simp] theorem afterPasses_zero : a.afterPasses 0 = a := rfl

theorem afterPasses_succ : a.afterPasses (n + 1) = a.onePass.automaton.afterPasses n := rfl

/-- The last one of the passes comes after the others. -/
theorem afterPasses_succ' : a.afterPasses (n + 1) = (a.afterPasses n).onePass.automaton :=
  Function.iterate_succ_apply' _ n a

theorem nodup_states_afterPasses (hnodup : a.states.Nodup) (n : ℕ) :
    (a.afterPasses n).states.Nodup := by
  induction n generalizing a with
  | zero => exact hnodup
  | succ n ih => exact ih (hnodup.sublist (states_scan_sublist a.pairs))

/-- With fuel for more passes than there are states, passes end with one that merges nothing, and
none before it merged nothing. -/
theorem exists_passes_eq (hnodup : a.states.Nodup) (hn : a.states.length < n) :
    ∃ k ≤ a.states.length, (∀ j < k, (a.afterPasses j).onePass.merges ≠ 0) ∧
      (a.afterPasses k).onePass.merges = 0 ∧ passes n a = a.afterPasses k := by
  induction n generalizing a with
  | zero => exact absurd hn (Nat.not_lt_zero _)
  | succ n ih =>
    by_cases hmerges : a.onePass.merges = 0
    · have hpass := (merges_onePass_eq_zero_iff.mp hmerges).onePass_eq
      refine ⟨0, Nat.zero_le _, fun j hj => absurd hj (Nat.not_lt_zero j), hmerges, ?_⟩
      simp only [passes, hpass, if_true, afterPasses_zero]
    · -- the pass has removed a state, so the others are fewer than the fuel that is left
      have hlength : a.onePass.automaton.states.length + a.onePass.merges = a.states.length :=
        length_states_scan hnodup a.pairs
      have hrest : a.onePass.automaton.states.Nodup := nodup_states_afterPasses hnodup 1
      obtain ⟨k, hk, hbefore, hlast, heq⟩ := ih hrest (by omega)
      refine ⟨k + 1, by omega, fun j hj => ?_, by rwa [afterPasses_succ], ?_⟩
      · cases j with
        | zero => exact hmerges
        | succ j =>
          rw [afterPasses_succ]
          exact hbefore j (by omega)
      · rw [afterPasses_succ, ← heq]
        simp only [passes, hmerges, if_false]

/-- Passes until nothing merges end with a pass that merges nothing. -/
theorem exists_converged_eq (hnodup : a.states.Nodup) :
    ∃ k ≤ a.states.length, (∀ j < k, (a.afterPasses j).onePass.merges ≠ 0) ∧
      (a.afterPasses k).onePass.merges = 0 ∧ a.converged = a.afterPasses k :=
  exists_passes_eq hnodup (Nat.lt_succ_self _)

/-- What passes until nothing merges leave is stable. -/
theorem stable_converged (hnodup : a.states.Nodup) : a.converged.Stable := by
  obtain ⟨k, -, -, hlast, heq⟩ := exists_converged_eq hnodup
  rw [heq]
  exact merges_onePass_eq_zero_iff.mp hlast

/-- A stable automaton stays as it is. -/
theorem Stable.converged_eq (h : a.Stable) : a.converged = a := by
  rw [converged, passes, h.onePass_eq]
  rfl

/-- **Passes until nothing merges end, and leave nothing to merge.** Each pass returns the number of
states that it removes. There is at most one pass more than there are states, and only the last one
merges nothing. Then no two listed states are equivalent, the initial state and the trap apart. -/
theorem stable_minimized_converge (hnodup : a.states.Nodup) :
    (∀ n, (a.afterPasses (n + 1)).states.Sublist (a.afterPasses n).states ∧
      (a.afterPasses (n + 1)).states.length + (a.afterPasses n).onePass.merges =
        (a.afterPasses n).states.length) ∧
    (∃ n ≤ a.states.length, (∀ m < n, (a.afterPasses m).onePass.merges ≠ 0) ∧
      (a.afterPasses n).onePass.merges = 0 ∧ a.minimized .converge = a.afterPasses n) ∧
    (a.minimized .converge).Stable := by
  refine ⟨fun n => ?_, exists_converged_eq hnodup, stable_converged hnodup⟩
  rw [afterPasses_succ']
  exact ⟨states_scan_sublist _, length_states_scan (nodup_states_afterPasses hnodup n) _⟩

/-- Two pairs of which the first becomes equivalent when the second has been merged, two final
states that lead to each other, and an initial state that leads to the trap. -/
def lateMerges : Automaton where
  initial := .simple "i"
  finals := [.simple "f", .simple "g"]
  states := [.simple "p1", .simple "q1", .simple "p2", .simple "q2", .simple "f", .simple "g",
    .simple "i", .trap]
  alphabet := ["0"]
  transitions := [⟨.simple "p1", [.simple "p2"], "0"⟩, ⟨.simple "q1", [.simple "q2"], "0"⟩,
    ⟨.simple "p2", [.simple "f"], "0"⟩, ⟨.simple "q2", [.simple "f"], "0"⟩,
    ⟨.simple "f", [.simple "g"], "0"⟩, ⟨.simple "g", [.simple "f"], "0"⟩,
    ⟨.simple "i", [.trap], "0"⟩, ⟨.trap, [.trap], "0"⟩]

/-- The third pass is the last one. It finds the initial state and the trap equivalent, and leaves
them. -/
theorem stable_minimized_converge_lateMerges :
    lateMerges.states.Nodup ∧
      (lateMerges.afterPasses 1).states.length + lateMerges.onePass.merges =
        lateMerges.states.length ∧
      lateMerges.onePass.merges = 1 ∧ (lateMerges.afterPasses 1).onePass.merges = 1 ∧
      (lateMerges.afterPasses 2).onePass.merges = 0 ∧
      (lateMerges.minimized .converge).Stable ∧
      (lateMerges.minimized .converge).states =
        [.simple "q1", .simple "q2", .simple "f", .simple "g", .simple "i", .trap] ∧
      (lateMerges.minimized .converge).equivalent (lateMerges.minimized .converge).index
        (.simple "i") .trap = true := by
  have hnodup : lateMerges.states.Nodup := by decide
  obtain ⟨hpasses, -, hstable⟩ := stable_minimized_converge hnodup
  exact ⟨hnodup, (hpasses 0).2, by decide, by decide, by decide, hstable, by decide, by decide⟩

end Automaton

end Determinize
