import Determinize.Proofs.Run.Deterministic
import Determinize.Subset.Construction
import Mathlib.Data.List.Nodup
import Mathlib.Data.List.Perm.Subperm

/-!
# What a subset construction keeps

A construction finds sets, puts them onto a stack, and makes the transitions of each set it takes
off. Three things are kept from the first step to the last, so they hold of a construction that
was stopped by a limit as well.

*What is made is right*: every set listed is reached from the first one by following some word,
and every transition leaves an explored set, on a symbol, for the set that follows. *Nothing is
left out*: an explored set has a transition on every symbol. *Nothing is made twice*: no two
transitions leave the same set on the same symbol.

While a set is being explored, the second and the third hold of it only for the symbols whose turn
is over. So they carry that set and the symbols still to come.

## Main definitions

* `Subset.follow` — the set that comes after a set
* `Subset.Course.Sound`, `Subset.Course.Covered`, `Subset.Course.Keyed` — the three invariants
* `Subset.Course.Exploring`, `Subset.Course.Settled` — the first two while a set is explored, and
  between two steps
* `Subset.Course.Explored` — a set that is listed and not on the stack

## Main results

* `Subset.Course.Settled.run`, `Subset.Course.Settled.nodup_keys_run` — they are kept

## Implementation notes

The trap is listed with its loops when a set first leads nowhere, and is not explored. Where the
given automaton itself leads into a trap of its own, the trap may also be found like any other set
and be explored then. So its transitions are either loops or those that follow.
-/

namespace Determinize

namespace Subset

/-- The set that comes after `s` on `x`: where it leads, or the trap where it leads nowhere. -/
def follow (index : Index) (s : State) (x : Symbol) : State := (target? index s x).getD .trap

namespace Course

/-- The transition `e` has its place in the course `c`: it leaves an explored set on a symbol, for
the set that follows, or it is a loop of the trap. -/
structure Lawful (index : Index) (alphabet : List Symbol) (c : Course) (e : Transition) : Prop where
  /-- The source is listed. -/
  source_mem : e.source ∈ c.states
  /-- The source has been explored. -/
  source_explored : e.source ∉ c.pending
  /-- The transition reads a symbol. -/
  symbol_mem : e.symbol ∈ alphabet
  /-- There is one target, it is listed, and it is the right one. -/
  target : ∃ t ∈ c.states, e.targets = [t] ∧
    (t = follow index e.source e.symbol ∨ e.source = .trap ∧ t = .trap)

/-- What is made in a construction from `init` is right. -/
structure Sound (index : Index) (alphabet : List Symbol) (init : State) (c : Course) : Prop where
  /-- No set is listed twice. -/
  nodup_states : c.states.Nodup
  /-- No set is on the stack twice. -/
  nodup_pending : c.pending.Nodup
  /-- Sets on the stack are listed. -/
  pending_subset : c.pending ⊆ c.states
  /-- The first set is listed. -/
  initial_mem : init ∈ c.states
  /-- Every set that was or is on the stack is listed. -/
  steps_le : c.steps + c.pending.length ≤ c.states.length
  /-- Every set listed is reached by following a word. -/
  reached : ∀ t ∈ c.states, ∃ word : List Symbol, (∀ x ∈ word, x ∈ alphabet) ∧
    word.foldl (follow index) init = t
  /-- Every transition has its place. -/
  lawful : ∀ e ∈ c.transitions, Lawful index alphabet c e

/-- Nothing is left out, but for the symbols `todo` in the set `s`. -/
def Covered (alphabet : List Symbol) (s : State) (todo : List Symbol) (c : Course) : Prop :=
  ∀ t ∈ c.states, t ∉ c.pending → ∀ x ∈ alphabet, t = s ∧ x ∈ todo ∨
    ∃ e ∈ c.transitions, e.source = t ∧ e.symbol = x

/-- Nothing is made twice, and nothing has been made for the symbols `todo` in the set `s`. -/
structure Keyed (s : State) (todo : List Symbol) (c : Course) : Prop where
  /-- No two transitions leave the same set on the same symbol. -/
  nodup : (c.transitions.map Transition.key).Nodup
  /-- The symbols in question have no transition. -/
  untouched : ∀ e ∈ c.transitions, e.source = s → e.symbol ∉ todo

/-- The set is listed and not, or no longer, on the stack. -/
def Explored (s : State) (c : Course) : Prop := s ∈ c.states ∧ s ∉ c.pending

variable {index : Index} {alphabet todo : List Symbol} {init s t : State} {x : Symbol} {c : Course}
  {e : Transition}

/-! ### The start -/

theorem Sound.start (index : Index) (alphabet : List Symbol) (init : State) :
    Sound index alphabet init (start init) where
  nodup_states := List.nodup_singleton init
  nodup_pending := List.nodup_singleton init
  pending_subset := List.Subset.refl _
  initial_mem := List.mem_singleton.mpr rfl
  steps_le := Nat.le_refl _
  reached t ht := ⟨[], by simp, (List.mem_singleton.mp ht).symm⟩
  lawful _ he := absurd he List.not_mem_nil

/-! ### Finding a set -/

/-- A transition keeps its place when sets are listed, as long as those put onto the stack are
new. -/
theorem Lawful.mono {c' : Course} (h : Lawful index alphabet c e) (hstates : c.states ⊆ c'.states)
    (hpending : ∀ t ∈ c.states, t ∈ c'.pending → t ∈ c.pending) : Lawful index alphabet c' e := by
  obtain ⟨t, ht, htargets, hfollow⟩ := h.target
  exact ⟨hstates h.source_mem, fun hp => h.source_explored (hpending _ h.source_mem hp),
    h.symbol_mem, t, hstates ht, htargets, hfollow⟩

/-- One more letter leads to the set that follows. -/
theorem Sound.reached_follow (h : Sound index alphabet init c) (hs : s ∈ c.states)
    (hx : x ∈ alphabet) : ∃ word : List Symbol, (∀ x ∈ word, x ∈ alphabet) ∧
      word.foldl (follow index) init = follow index s x := by
  obtain ⟨word, hword, hfold⟩ := h.reached s hs
  refine ⟨word ++ [x], fun y hy => ?_, by simp [hfold]⟩
  rcases List.mem_append.mp hy with hy | hy
  · exact hword y hy
  · exact List.mem_singleton.mp hy ▸ hx

theorem mem_states_discover {u : State} : u ∈ (c.discover t).states ↔ u ∈ c.states ∨ u = t := by
  rw [discover]
  split
  · rename_i ht
    refine ⟨Or.inl, fun h => h.elim id ?_⟩
    rintro rfl
    exact ht
  · simp

theorem mem_pending_discover {u : State} :
    u ∈ (c.discover t).pending ↔ u ∈ c.pending ∨ t ∉ c.states ∧ u = t := by
  rw [discover]
  split
  · rename_i ht
    simp [ht]
  · rename_i ht
    simp [ht, or_comm]

/-- Only a set that is not listed is put onto the stack. -/
theorem Explored.discover (h : Explored s c) (t : State) : Explored s (c.discover t) := by
  obtain ⟨hs, hp⟩ := h
  refine ⟨mem_states_discover.mpr (Or.inl hs), fun hagain => ?_⟩
  rcases mem_pending_discover.mp hagain with hold | ⟨hnew, rfl⟩
  · exact hp hold
  · exact hnew hs

@[simp] theorem transitions_discover : (c.discover t).transitions = c.transitions := by
  rw [discover]
  split <;> rfl

theorem Sound.discover (h : Sound index alphabet init c) (hs : s ∈ c.states) (hx : x ∈ alphabet)
    (ht : follow index s x = t) : Sound index alphabet init (c.discover t) := by
  by_cases hold : t ∈ c.states
  · simpa only [Course.discover, hold, if_true] using h
  · have hp : t ∉ c.pending := fun hp => hold (h.pending_subset hp)
    refine ⟨?_, ?_, ?_, ?_, ?_, ?_, fun e he => ?_⟩
    · simpa [Course.discover, hold, List.nodup_append] using
        ⟨h.nodup_states, fun u hu hut => hold (hut ▸ hu)⟩
    · simpa [Course.discover, hold] using ⟨hp, h.nodup_pending⟩
    · intro u hu
      rcases mem_pending_discover.mp hu with hu | ⟨-, hu⟩
      · exact mem_states_discover.mpr (Or.inl (h.pending_subset hu))
      · exact mem_states_discover.mpr (Or.inr hu)
    · exact mem_states_discover.mpr (Or.inl h.initial_mem)
    · have := h.steps_le
      simp only [Course.discover, hold, if_false, List.length_append, List.length_cons,
        List.length_nil]
      omega
    · intro u hu
      rcases mem_states_discover.mp hu with hu | rfl
      · exact h.reached u hu
      · obtain ⟨word, hword, hfold⟩ := h.reached_follow hs hx
        exact ⟨word, hword, hfold.trans ht⟩
    · rw [transitions_discover] at he
      refine (h.lawful e he).mono (fun u hu => mem_states_discover.mpr (Or.inl hu)) ?_
      intro u hu hup
      rcases mem_pending_discover.mp hup with hup | ⟨-, rfl⟩
      · exact hup
      · exact absurd hu hold

theorem Covered.discover (h : Covered alphabet s todo c) :
    Covered alphabet s todo (c.discover t) := by
  intro u hu hp x hx
  rw [transitions_discover]
  simp only [mem_pending_discover, not_or, not_and] at hp
  rcases mem_states_discover.mp hu with hu | rfl
  · exact h u hu hp.1 x hx
  · by_cases hold : u ∈ c.states
    · exact h u hold hp.1 x hx
    · exact absurd rfl (hp.2 hold)

theorem Keyed.discover (h : Keyed s todo c) : Keyed s todo (c.discover t) :=
  ⟨by simpa using h.nodup, by simpa using h.untouched⟩

/-! ### Making the trap -/

theorem mem_states_discoverTrap {u : State} :
    u ∈ (c.discoverTrap alphabet).states ↔ u ∈ c.states ∨ u = .trap := by
  rw [discoverTrap]
  split
  · rename_i ht
    refine ⟨Or.inl, fun h => h.elim id ?_⟩
    rintro rfl
    exact ht
  · simp

@[simp] theorem pending_discoverTrap : (c.discoverTrap alphabet).pending = c.pending := by
  rw [discoverTrap]
  split <;> rfl

theorem Explored.discoverTrap (h : Explored s c) : Explored s (c.discoverTrap alphabet) := by
  refine ⟨mem_states_discoverTrap.mpr (Or.inl h.1), ?_⟩
  rw [pending_discoverTrap]
  exact h.2

theorem mem_transitions_discoverTrap :
    e ∈ (c.discoverTrap alphabet).transitions ↔
      e ∈ c.transitions ∨ .trap ∉ c.states ∧ ∃ x ∈ alphabet, ⟨.trap, [.trap], x⟩ = e := by
  rw [discoverTrap]
  split
  · rename_i ht
    simp [ht]
  · rename_i ht
    simp [ht]

theorem Sound.discoverTrap (h : Sound index alphabet init c) (hs : s ∈ c.states)
    (hx : x ∈ alphabet) (ht : follow index s x = .trap) :
    Sound index alphabet init (c.discoverTrap alphabet) := by
  by_cases hold : State.trap ∈ c.states
  · simpa only [Course.discoverTrap, hold, if_true] using h
  · have hsub : c.states ⊆ (c.discoverTrap alphabet).states := fun u hu =>
      mem_states_discoverTrap.mpr (Or.inl hu)
    refine ⟨?_, ?_, ?_, ?_, ?_, ?_, fun e he => ?_⟩
    · simpa [Course.discoverTrap, hold, List.nodup_append] using
        ⟨h.nodup_states, fun u hu hut => hold (hut ▸ hu)⟩
    · simpa using h.nodup_pending
    · simpa using List.Subset.trans h.pending_subset hsub
    · exact hsub h.initial_mem
    · have := h.steps_le
      simp only [Course.discoverTrap, hold, if_false, List.length_append, List.length_cons,
        List.length_nil]
      omega
    · intro u hu
      rcases mem_states_discoverTrap.mp hu with hu | rfl
      · exact h.reached u hu
      · obtain ⟨word, hword, hfold⟩ := h.reached_follow hs hx
        exact ⟨word, hword, hfold.trans ht⟩
    · rcases mem_transitions_discoverTrap.mp he with he | ⟨-, y, hy, rfl⟩
      · exact (h.lawful e he).mono hsub (by simp)
      · have hmem : State.trap ∈ (c.discoverTrap alphabet).states :=
          mem_states_discoverTrap.mpr (Or.inr rfl)
        exact ⟨hmem, by simpa using fun hp => hold (h.pending_subset hp), hy, .trap, hmem, rfl,
          Or.inr ⟨rfl, rfl⟩⟩

theorem Covered.discoverTrap (h : Covered alphabet s todo c) :
    Covered alphabet s todo (c.discoverTrap alphabet) := by
  intro u hu hp x hx
  rw [pending_discoverTrap] at hp
  have hkept : u ∈ c.states →
      u = s ∧ x ∈ todo ∨ ∃ e ∈ (c.discoverTrap alphabet).transitions,
        e.source = u ∧ e.symbol = x := by
    intro hold
    refine (h u hold hp x hx).imp_right ?_
    rintro ⟨e, he, hkey⟩
    exact ⟨e, mem_transitions_discoverTrap.mpr (Or.inl he), hkey⟩
  rcases mem_states_discoverTrap.mp hu with hu | rfl
  · exact hkept hu
  · by_cases hold : State.trap ∈ c.states
    · exact hkept hold
    · exact Or.inr ⟨_, mem_transitions_discoverTrap.mpr (Or.inr ⟨hold, x, hx, rfl⟩), rfl, rfl⟩

theorem Keyed.discoverTrap (h : Keyed s todo c) (hsound : Sound index alphabet init c)
    (halphabet : alphabet.Nodup) (hs : s ∈ c.states) :
    Keyed s todo (c.discoverTrap alphabet) := by
  by_cases hold : State.trap ∈ c.states
  · simpa only [Course.discoverTrap, hold, if_true] using h
  · -- the loops are new since no transition leaves a set that is not listed
    have hnew : ∀ e ∈ c.transitions, e.source ≠ .trap := fun e he hsource =>
      hold (hsource ▸ (hsound.lawful e he).source_mem)
    refine ⟨?_, fun e he hsource => ?_⟩
    · simp only [Course.discoverTrap, hold, if_false, List.map_append, List.map_map]
      refine List.nodup_append.mpr ⟨h.nodup, ?_, ?_⟩
      · exact halphabet.map fun y z hyz => (Prod.ext_iff.mp hyz).2
      · intro k hk k' hk' hkk'
        obtain ⟨e, he, rfl⟩ := List.mem_map.mp hk
        obtain ⟨y, -, rfl⟩ := List.mem_map.mp hk'
        exact hnew e he (Prod.ext_iff.mp hkk').1
    · rcases mem_transitions_discoverTrap.mp he with he | ⟨-, y, -, rfl⟩
      · exact h.untouched e he hsource
      · obtain rfl : State.trap = s := hsource
        exact absurd hs hold

/-! ### Making a transition -/

theorem Sound.addTransition (h : Sound index alphabet init c) (hs : s ∈ c.states)
    (hp : s ∉ c.pending) (hx : x ∈ alphabet) (hmem : t ∈ c.states) (ht : follow index s x = t) :
    Sound index alphabet init (c.addTransition s t x) where
  nodup_states := h.nodup_states
  nodup_pending := h.nodup_pending
  pending_subset := h.pending_subset
  initial_mem := h.initial_mem
  steps_le := h.steps_le
  reached := h.reached
  lawful e he := by
    rcases List.mem_append.mp he with he | he
    · exact (h.lawful e he).mono (List.Subset.refl _) fun _ _ => id
    · obtain rfl := List.mem_singleton.mp he
      exact ⟨hs, hp, hx, t, hmem, rfl, Or.inl ht.symm⟩

theorem Covered.addTransition (h : Covered alphabet s (x :: todo) c) :
    Covered alphabet s todo (c.addTransition s t x) := by
  intro u hu hp y hy
  rcases h u hu hp y hy with ⟨rfl, hyt⟩ | ⟨e, he, hkey⟩
  · rcases List.mem_cons.mp hyt with rfl | hyt
    · exact Or.inr ⟨_, List.mem_append_right _ (List.mem_singleton.mpr rfl), rfl, rfl⟩
    · exact Or.inl ⟨rfl, hyt⟩
  · exact Or.inr ⟨e, List.mem_append_left _ he, hkey⟩

theorem Keyed.addTransition (h : Keyed s (x :: todo) c) (hx : x ∉ todo) :
    Keyed s todo (c.addTransition s t x) := by
  refine ⟨?_, fun e he hsource => ?_⟩
  · simp only [Course.addTransition, List.map_append, List.map_cons, List.map_nil]
    refine List.nodup_append.mpr ⟨h.nodup, List.nodup_singleton _, fun k hk k' hk' hkk' => ?_⟩
    obtain ⟨e, he, rfl⟩ := List.mem_map.mp hk
    obtain rfl := List.mem_singleton.mp hk'
    obtain ⟨hsource, hsymbol⟩ : e.source = s ∧ e.symbol = x := Prod.ext_iff.mp hkk'
    exact h.untouched e he hsource (by simp [hsymbol])
  · rcases List.mem_append.mp he with he | he
    · exact fun hmem => h.untouched e he hsource (List.mem_cons_of_mem x hmem)
    · obtain rfl := List.mem_singleton.mp he
      exact hx

/-! ### Exploring a set -/

/-- Listing the target before or after making the transition is the same. -/
theorem discover_addTransition :
    (c.addTransition s t x).discover t = (c.discover t).addTransition s t x := by
  by_cases hold : t ∈ c.states <;> simp [discover, addTransition, hold]

/-- The transition of the set on one symbol, in whichever order its parts are made. -/
theorem addMove_eq :
    c.addMove alphabet s x (target? index s x) =
      (match target? index s x with
        | some t => c.discover t
        | none => c.discoverTrap alphabet).addTransition s (follow index s x) x := by
  rw [follow]
  cases target? index s x with
  | some t => exact discover_addTransition
  | none => rfl

/-- The set `s` is being explored, and the symbols `todo` are still to come. -/
structure Exploring (index : Index) (alphabet : List Symbol) (init s : State) (todo : List Symbol)
    (c : Course) : Prop extends Sound index alphabet init c where
  /-- The set is listed. -/
  current_mem : s ∈ c.states
  /-- The set has been taken off the stack. -/
  current_explored : s ∉ c.pending
  /-- Nothing else is left out. -/
  covered : Covered alphabet s todo c

/-- Listing what follows keeps what is true while exploring, and what follows is then listed. -/
theorem Exploring.found (h : Exploring index alphabet init s todo c) (hx : x ∈ alphabet) :
    Exploring index alphabet init s todo
        (match target? index s x with
          | some t => c.discover t
          | none => c.discoverTrap alphabet) ∧
      follow index s x ∈ (match target? index s x with
        | some t => c.discover t
        | none => c.discoverTrap alphabet).states := by
  have hexplored : Explored s c := ⟨h.current_mem, h.current_explored⟩
  cases ht : target? index s x with
  | some t =>
    have hfollow : follow index s x = t := by simp [follow, ht]
    have hleft : Explored s (c.discover t) := hexplored.discover t
    refine ⟨⟨h.toSound.discover h.current_mem hx hfollow, hleft.1, hleft.2, h.covered.discover⟩, ?_⟩
    exact mem_states_discover.mpr (Or.inr hfollow)
  | none =>
    have hfollow : follow index s x = .trap := by simp [follow, ht]
    have hleft : Explored s (c.discoverTrap alphabet) := hexplored.discoverTrap
    refine ⟨⟨h.toSound.discoverTrap h.current_mem hx hfollow, hleft.1, hleft.2,
      h.covered.discoverTrap⟩, ?_⟩
    exact mem_states_discoverTrap.mpr (Or.inr hfollow)

theorem Exploring.addMove (h : Exploring index alphabet init s (x :: todo) c)
    (hx : x ∈ alphabet) :
    Exploring index alphabet init s todo (c.addMove alphabet s x (target? index s x)) := by
  rw [addMove_eq]
  obtain ⟨hfound, hmem⟩ := h.found hx
  exact ⟨hfound.toSound.addTransition hfound.current_mem hfound.current_explored hx hmem rfl,
    hfound.current_mem, hfound.current_explored, hfound.covered.addTransition⟩

theorem Keyed.addMove (h : Keyed s (x :: todo) c)
    (hexploring : Exploring index alphabet init s (x :: todo) c) (halphabet : alphabet.Nodup)
    (hx : x ∉ todo) : Keyed s todo (c.addMove alphabet s x (target? index s x)) := by
  rw [addMove_eq]
  refine Keyed.addTransition ?_ hx
  cases target? index s x with
  | some t => exact h.discover
  | none => exact h.discoverTrap hexploring.toSound halphabet hexploring.current_mem

theorem Exploring.foldl {rest : List Symbol} (hrest : rest ⊆ alphabet)
    (h : Exploring index alphabet init s rest c) :
    Exploring index alphabet init s []
      (rest.foldl (fun c x => c.addMove alphabet s x (target? index s x)) c) := by
  induction rest generalizing c with
  | nil => exact h
  | cons x rest ih =>
    exact ih (List.subset_of_cons_subset hrest) (h.addMove (hrest List.mem_cons_self))

theorem Keyed.foldl {rest : List Symbol} (h : Keyed s rest c) (hrest : rest ⊆ alphabet)
    (hnodup : rest.Nodup) (hexploring : Exploring index alphabet init s rest c)
    (halphabet : alphabet.Nodup) :
    Keyed s [] (rest.foldl (fun c x => c.addMove alphabet s x (target? index s x)) c) := by
  induction rest generalizing c with
  | nil => exact h
  | cons x rest ih =>
    obtain ⟨hx, hnodup⟩ := List.nodup_cons.mp hnodup
    exact ih (h.addMove hexploring halphabet hx) (List.subset_of_cons_subset hrest) hnodup
      (hexploring.addMove (hrest List.mem_cons_self))

/-- What each move keeps, exploring a set keeps. -/
theorem explore_induction {motive : Course → Prop}
    (h : ∀ c x, motive c → motive (c.addMove alphabet s x (target? index s x))) (hc : motive c) :
    motive (c.explore index alphabet s) := by
  have hfold : ∀ (rest : List Symbol) (c : Course), motive c →
      motive (rest.foldl (fun c x => c.addMove alphabet s x (target? index s x)) c) := by
    intro rest
    induction rest with
    | nil => exact fun _ hc => hc
    | cons x rest ih => exact fun c hc => ih _ (h c x hc)
  exact hfold alphabet c hc

/-! ### One step -/

/-- The course between two steps: what is made is right, and nothing is left out. -/
structure Settled (index : Index) (alphabet : List Symbol) (init : State) (c : Course) : Prop
    extends Sound index alphabet init c where
  /-- Every explored set has a transition on every symbol. -/
  covered : ∀ t ∈ c.states, t ∉ c.pending → ∀ x ∈ alphabet,
    ∃ e ∈ c.transitions, e.source = t ∧ e.symbol = x

theorem Settled.start (index : Index) (alphabet : List Symbol) (init : State) :
    Settled index alphabet init (start init) :=
  ⟨Sound.start index alphabet init, fun _ ht hp => absurd ht hp⟩

/-- Once a set has been taken off the stack, it is being explored. -/
theorem Settled.take {rest : List State} (h : Settled index alphabet init c)
    (hp : c.pending = s :: rest) :
    Exploring index alphabet init s alphabet { c with pending := rest, steps := c.steps + 1 } := by
  have hpending := h.nodup_pending
  have hsubset := h.pending_subset
  have hsteps := h.steps_le
  rw [hp] at hpending hsubset hsteps
  obtain ⟨hs, hrest⟩ := List.nodup_cons.mp hpending
  refine ⟨⟨h.nodup_states, hrest, List.subset_of_cons_subset hsubset, h.initial_mem, ?_, h.reached,
    fun e he => ?_⟩, hsubset List.mem_cons_self, hs, fun t ht htp x hx => ?_⟩
  · simp only [List.length_cons] at hsteps ⊢
    omega
  · exact (h.lawful e he).mono (List.Subset.refl _) fun u _ hu => by simp [hp, hu]
  · by_cases hts : t = s
    · exact Or.inl ⟨hts, hx⟩
    · exact Or.inr (h.covered t ht (by simpa [hp, hts] using htp) x hx)

theorem Settled.step (h : Settled index alphabet init c) :
    Settled index alphabet init (c.step index alphabet) := by
  cases hp : c.pending with
  | nil => simpa only [Course.step, hp] using h
  | cons s rest =>
    have hend := (h.take hp).foldl (List.Subset.refl _)
    simp only [Course.step, hp]
    exact ⟨hend.toSound, fun t ht htp x hx =>
      (hend.covered t ht htp x hx).resolve_left fun h => List.not_mem_nil h.2⟩

/-- After the step that takes it off, a set is not on the stack, even if it leads to itself. -/
theorem Settled.explored_step {rest : List State} (h : Settled index alphabet init c)
    (hp : c.pending = s :: rest) : Explored s (c.step index alphabet) := by
  have hend := (h.take hp).foldl (List.Subset.refl _)
  simp only [Course.step, hp]
  exact ⟨hend.current_mem, hend.current_explored⟩

theorem Settled.nodup_keys_step (h : Settled index alphabet init c) (halphabet : alphabet.Nodup)
    (hkeys : (c.transitions.map Transition.key).Nodup) :
    ((c.step index alphabet).transitions.map Transition.key).Nodup := by
  cases hp : c.pending with
  | nil => simpa only [Course.step, hp] using hkeys
  | cons s rest =>
    have hkeyed : Keyed s alphabet { c with pending := rest, steps := c.steps + 1 } := by
      refine ⟨hkeys, fun e he hsource => ?_⟩
      exact absurd (by simp [hp, hsource]) (h.lawful e he).source_explored
    simp only [Course.step, hp]
    exact (hkeyed.foldl (List.Subset.refl _) halphabet (h.take hp) halphabet).nodup

/-! ### A whole run -/

theorem step_of_pending_eq_nil (h : c.pending = []) : c.step index alphabet = c := by
  simp only [Course.step, h]

theorem run_of_pending_eq_nil (h : c.pending = []) (n : ℕ) : run index alphabet n c = c := by
  cases n with
  | zero => rfl
  | succ n => simp only [Course.run, h]

theorem run_succ (n : ℕ) :
    run index alphabet (n + 1) c = run index alphabet n (c.step index alphabet) := by
  cases hp : c.pending with
  | nil => rw [step_of_pending_eq_nil hp, run_of_pending_eq_nil hp, run_of_pending_eq_nil hp]
  | cons s rest => simp only [Course.run, hp]

/-- A run goes on from where its first steps have led. -/
theorem run_add (m n : ℕ) :
    run index alphabet (m + n) c = run index alphabet n (run index alphabet m c) := by
  induction m generalizing c with
  | zero => rw [Nat.zero_add, Course.run]
  | succ m ih => rw [Nat.succ_add, run_succ, run_succ, ih]

/-- What each step keeps, a run keeps. -/
theorem run_induction {motive : Course → Prop}
    (h : ∀ c, motive c → motive (c.step index alphabet)) (hc : motive c) (n : ℕ) :
    motive (run index alphabet n c) := by
  induction n generalizing c with
  | zero => exact hc
  | succ n ih =>
    rw [run_succ]
    exact ih (h c hc)

theorem Settled.run (h : Settled index alphabet init c) (n : ℕ) :
    Settled index alphabet init (run index alphabet n c) :=
  run_induction (fun _ hc => hc.step) h n

theorem Settled.nodup_keys_run (h : Settled index alphabet init c) (halphabet : alphabet.Nodup)
    (hkeys : (c.transitions.map Transition.key).Nodup) (n : ℕ) :
    ((Course.run index alphabet n c).transitions.map Transition.key).Nodup := by
  induction n generalizing c with
  | zero => exact hkeys
  | succ n ih =>
    rw [run_succ]
    exact ih h.step (h.nodup_keys_step halphabet hkeys)

end Course

end Subset

end Determinize
