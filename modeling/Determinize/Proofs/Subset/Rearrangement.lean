import Determinize.Proofs.Subset.Complete
import Determinize.Proofs.Subset.Extent
import Determinize.Proofs.Subset.Limits
import Mathlib.Logic.Relation

/-!
# The construction does not depend on how an automaton is written down

The parts of an automaton are lists, and a transition has a list of targets. So one automaton can
be written in many ways: in another order, with repetitions, or with one transition in place of
several. A construction that goes through the lists in another order takes other sets off its stack
first and makes the trap at another moment.

What does not change is which states lead where, and that decides everything: what is reached by
epsilon transitions, which targets are left when these are removed, which set follows a set, and so
which sets and transitions are listed and how many steps are made.

## Main definitions

* `Automaton.Edit` — one change in the way an automaton is written
* `Automaton.Rearranged` — two ways of writing one automaton
* `Automaton.SameMoves` — two automata lead from the same states to the same states

## Main results

* `Automaton.sameMoves_of_rearranged` — where an automaton leads does not depend on the writing
* `Automaton.SameMoves.eliminated` — nor does it without its epsilon transitions
* `Automaton.SameMoves.follow_eq` — the same set follows
* `Automaton.determinized_perm` — the construction lists the same in the same number of steps
-/

namespace Determinize

namespace Automaton

/-- One change in the way an automaton is written. -/
inductive Edit : Automaton → Automaton → Prop
  /-- The states are listed in another order. -/
  | states {a : Automaton} {l : List State} : a.states.Perm l → Edit a { a with states := l }
  /-- The final states are listed in another order. -/
  | finals {a : Automaton} {l : List State} : a.finals.Perm l → Edit a { a with finals := l }
  /-- The symbols are listed in another order. -/
  | alphabet {a : Automaton} {l : List Symbol} : a.alphabet.Perm l → Edit a { a with alphabet := l }
  /-- The transitions are listed in another order. -/
  | transitions {a : Automaton} {l : List Transition} :
      a.transitions.Perm l → Edit a { a with transitions := l }
  /-- A transition is written as one or more transitions from its source on its symbol, which
  together lead to its targets. A single one has the targets in another order or repeated; equal ones
  repeat the transition. -/
  | split {a : Automaton} {e : Transition} {before parts after : List Transition} :
      a.transitions = before ++ e :: after → parts ≠ [] →
      (∀ f ∈ parts, f.source = e.source ∧ f.symbol = e.symbol) →
      (∀ t, t ∈ e.targets ↔ ∃ f ∈ parts, t ∈ f.targets) →
      Edit a { a with transitions := before ++ parts ++ after }

/-- The two automata are one automaton, written in two ways. -/
def Rearranged : Automaton → Automaton → Prop := Relation.EqvGen Edit

/-- The two automata have the same states and symbols, and in both the same states lead to the same
states on the same symbols. -/
structure SameMoves (a b : Automaton) : Prop where
  /-- They start in the same state. -/
  initial_eq : a.initial = b.initial
  /-- They list the same states. -/
  states : a.states.Perm b.states
  /-- They list the same final states. -/
  finals : a.finals.Perm b.finals
  /-- They list the same symbols. -/
  alphabet : a.alphabet.Perm b.alphabet
  /-- A transition of the one leaves a state on a symbol if a transition of the other does. -/
  leaves_iff : ∀ s x, (∃ e ∈ a.transitions, e.source = s ∧ e.symbol = x) ↔
    ∃ e ∈ b.transitions, e.source = s ∧ e.symbol = x
  /-- A transition of the one leads from a state to a state on a symbol if a transition of the other
  does. -/
  leads_iff : ∀ s x t, (∃ e ∈ a.transitions, e.source = s ∧ e.symbol = x ∧ t ∈ e.targets) ↔
    ∃ e ∈ b.transitions, e.source = s ∧ e.symbol = x ∧ t ∈ e.targets

variable {a b c : Automaton} {s t : State} {x : Symbol} {e : Transition}

/-! ### Ways of writing an automaton -/

theorem SameMoves.refl (a : Automaton) : a.SameMoves a :=
  ⟨rfl, .refl _, .refl _, .refl _, fun _ _ => Iff.rfl, fun _ _ _ => Iff.rfl⟩

theorem SameMoves.symm (h : a.SameMoves b) : b.SameMoves a where
  initial_eq := h.initial_eq.symm
  states := h.states.symm
  finals := h.finals.symm
  alphabet := h.alphabet.symm
  leaves_iff s x := (h.leaves_iff s x).symm
  leads_iff s x t := (h.leads_iff s x t).symm

theorem SameMoves.trans (hab : a.SameMoves b) (hbc : b.SameMoves c) : a.SameMoves c where
  initial_eq := hab.initial_eq.trans hbc.initial_eq
  states := hab.states.trans hbc.states
  finals := hab.finals.trans hbc.finals
  alphabet := hab.alphabet.trans hbc.alphabet
  leaves_iff s x := (hab.leaves_iff s x).trans (hbc.leaves_iff s x)
  leads_iff s x t := (hab.leads_iff s x t).trans (hbc.leads_iff s x t)

/-- A change leaves the moves as they are. -/
theorem sameMoves_of_edit (h : Edit a b) : a.SameMoves b := by
  cases h with
  | states h => exact { SameMoves.refl a with states := h }
  | finals h => exact { SameMoves.refl a with finals := h }
  | alphabet h => exact { SameMoves.refl a with alphabet := h }
  | transitions h =>
    refine { SameMoves.refl a with leaves_iff := fun s x => ?_, leads_iff := fun s x t => ?_ }
    · simp only [h.mem_iff]
    · simp only [h.mem_iff]
  | @split e before parts after hsplit hne hparts htargets =>
    -- the parts stand for the transition in both kinds of question
    have hleaves : ∀ s x, (∃ f ∈ parts, f.source = s ∧ f.symbol = x) ↔
        e.source = s ∧ e.symbol = x := by
      intro s x
      constructor
      · rintro ⟨f, hf, rfl, rfl⟩
        exact ⟨(hparts f hf).1.symm, (hparts f hf).2.symm⟩
      · rintro ⟨rfl, rfl⟩
        obtain ⟨f, hf⟩ := List.exists_mem_of_ne_nil parts hne
        exact ⟨f, hf, hparts f hf⟩
    have hleads : ∀ s x t, (∃ f ∈ parts, f.source = s ∧ f.symbol = x ∧ t ∈ f.targets) ↔
        e.source = s ∧ e.symbol = x ∧ t ∈ e.targets := by
      intro s x t
      rw [htargets]
      constructor
      · rintro ⟨f, hf, rfl, rfl, ht⟩
        exact ⟨(hparts f hf).1.symm, (hparts f hf).2.symm, f, hf, ht⟩
      · rintro ⟨rfl, rfl, f, hf, ht⟩
        exact ⟨f, hf, (hparts f hf).1, (hparts f hf).2, ht⟩
    refine { SameMoves.refl a with leaves_iff := fun s x => ?_, leads_iff := fun s x t => ?_ }
    · simp only [hsplit, List.mem_append, List.mem_cons, or_and_right, exists_or, exists_eq_left,
        hleaves, or_assoc]
    · simp only [hsplit, List.mem_append, List.mem_cons, or_and_right, exists_or, exists_eq_left,
        hleads, or_assoc]

/-- **Where an automaton leads does not depend on how it is written down.** -/
theorem sameMoves_of_rearranged (h : a.Rearranged b) : a.SameMoves b := by
  induction h with
  | rel a b hedit => exact sameMoves_of_edit hedit
  | refl a => exact .refl a
  | symm a b _ ih => exact ih.symm
  | trans a b c _ _ hab hbc => exact hab.trans hbc

namespace SameMoves

variable (h : a.SameMoves b)
include h

theorem wellFormed (hwell : a.WellFormed) : b.WellFormed where
  nodup_states := h.states.nodup_iff.mp hwell.nodup_states
  nodup_finals := h.finals.nodup_iff.mp hwell.nodup_finals
  nodup_alphabet := h.alphabet.nodup_iff.mp hwell.nodup_alphabet
  not_isEpsilon x hx := hwell.not_isEpsilon x (h.alphabet.mem_iff.mpr hx)

theorem simple (hsimple : a.Simple) : b.Simple where
  initial := h.initial_eq ▸ hsimple.initial
  finals s hs := hsimple.finals s (h.finals.mem_iff.mpr hs)
  sources e he := by
    obtain ⟨f, hf, hsource, -⟩ := (h.leaves_iff e.source e.symbol).mpr ⟨e, he, rfl, rfl⟩
    exact hsource ▸ hsimple.sources f hf
  targets e he t ht := by
    obtain ⟨f, hf, -, -, ht⟩ := (h.leads_iff e.source e.symbol t).mpr ⟨e, he, rfl, rfl, ht⟩
    exact hsimple.targets f hf t ht

/-! ### Without epsilon transitions -/

theorem hasEpsilon_of (heps : a.hasEpsilon = true) : b.hasEpsilon = true := by
  obtain ⟨e, he, hsilent⟩ := hasEpsilon_iff.mp heps
  obtain ⟨f, hf, -, hsymbol⟩ := (h.leaves_iff e.source e.symbol).mp ⟨e, he, rfl, rfl⟩
  exact hasEpsilon_iff.mpr ⟨f, hf, by rw [Transition.isEpsilon, hsymbol]; exact hsilent⟩

theorem hasEpsilon_eq : a.hasEpsilon = b.hasEpsilon :=
  Bool.eq_iff_iff.mpr ⟨h.hasEpsilon_of, h.symm.hasEpsilon_of⟩

theorem epsilonReach_of (hst : EpsilonReach a.transitions s t) :
    EpsilonReach b.transitions s t := by
  induction hst with
  | refl => exact .refl
  | @tail t u e _ he hsilent hsource hu ih =>
    obtain ⟨f, hf, hfsource, hfsymbol, hfu⟩ :=
      (h.leads_iff e.source e.symbol u).mp ⟨e, he, rfl, rfl, hu⟩
    exact ih.tail hf (by rw [Transition.isEpsilon, hfsymbol]; exact hsilent)
      (hfsource.trans hsource) hfu

theorem epsilonReach_iff : EpsilonReach a.transitions s t ↔ EpsilonReach b.transitions s t :=
  ⟨h.epsilonReach_of, h.symm.epsilonReach_of⟩

theorem mem_successors_iff : t ∈ successors a.transitions s x ↔ t ∈ successors b.transitions s x := by
  rw [mem_successors, mem_successors]
  exact h.leads_iff s x t

theorem mem_symbolIndex_iff :
    t ∈ a.symbolIndex.successors s x ↔ t ∈ b.symbolIndex.successors s x := by
  have hreading : ∀ c : Automaton, t ∈ c.symbolIndex.successors s x ↔
      x.isEpsilon = false ∧ ∃ e ∈ c.transitions, e.source = s ∧ e.symbol = x ∧ t ∈ e.targets := by
    intro c
    rw [mem_successors_symbolIndex]
    constructor
    · rintro ⟨e, he, hread, rfl, rfl, ht⟩
      exact ⟨hread, e, he, rfl, rfl, ht⟩
    · rintro ⟨hread, e, he, rfl, rfl, ht⟩
      exact ⟨e, he, hread, rfl, rfl, ht⟩
  rw [hreading, hreading, h.leads_iff]

/-- The targets of a transition are an ascending list, so the same targets are one list. -/
theorem closedSuccessors_eq :
    a.closedSuccessors a.symbolIndex (closure a.transitions s) x =
      b.closedSuccessors b.symbolIndex (closure b.transitions s) x := by
  refine ascending_eq_ascending fun t => ?_
  simp only [mem_closureFrom, List.mem_flatMap, mem_closure, h.epsilonReach_iff,
    h.mem_symbolIndex_iff]

theorem mem_transitions_eliminated_iff (heps : a.hasEpsilon = true) :
    e ∈ a.eliminated.transitions ↔ e ∈ b.eliminated.transitions := by
  rw [mem_transitions_eliminated heps, mem_transitions_eliminated (h.hasEpsilon_of heps)]
  simp only [h.states.mem_iff, h.alphabet.mem_iff, h.closedSuccessors_eq]

theorem mem_finals_eliminated_iff (heps : a.hasEpsilon = true) :
    t ∈ a.eliminated.finals ↔ t ∈ b.eliminated.finals := by
  rw [mem_finals_eliminated heps, mem_finals_eliminated (h.hasEpsilon_of heps)]
  simp only [h.finals.mem_iff, h.initial_eq, h.epsilonReach_iff]

/-- Removing epsilon transitions leaves the two automata with the same moves. -/
theorem eliminated (hwell : a.WellFormed) : a.eliminated.SameMoves b.eliminated := by
  have hwell' := h.wellFormed hwell
  cases heps : a.hasEpsilon with
  | false =>
    rw [eliminated_of_not_hasEpsilon heps,
      eliminated_of_not_hasEpsilon (h.hasEpsilon_eq.symm.trans heps)]
    exact h
  | true =>
    have hstates : ∀ {c : Automaton}, c.hasEpsilon = true →
        c.eliminated.states = c.states.eraseDups := by
      intro c hc
      simp [Automaton.eliminated, hc, of]
    refine ⟨?_, ?_, ?_, ?_, fun s x => ?_, fun s x t => ?_⟩
    · rw [initial_eliminated, initial_eliminated, h.initial_eq]
    · rw [hstates heps, hstates (h.hasEpsilon_of heps), eraseDups_eq_self hwell.nodup_states,
        eraseDups_eq_self hwell'.nodup_states]
      exact h.states
    · exact (List.perm_ext_iff_of_nodup (wellFormed_eliminated hwell).nodup_finals
        (wellFormed_eliminated hwell').nodup_finals).mpr fun t => h.mem_finals_eliminated_iff heps
    · rw [hwell.alphabet_eliminated, hwell'.alphabet_eliminated]
      exact h.alphabet
    · simp only [h.mem_transitions_eliminated_iff heps]
    · simp only [h.mem_transitions_eliminated_iff heps]

/-! ### The sets of the construction -/

/-- The same set follows in both automata. -/
theorem follow_eq (s : State) (x : Symbol) :
    Subset.follow a.index s x = Subset.follow b.index s x := by
  refine State.eq_of_mem_names_iff fun n => ?_
  simp only [Subset.mem_names_follow, successors_index, h.mem_successors_iff]

theorem mem_states_complete_iff (hwell : a.WellFormed) (ha : a.Plain) (hb : b.Plain) :
    s ∈ (Subset.complete a).states ↔ s ∈ (Subset.complete b).states := by
  have hfollow : Subset.follow a.index = Subset.follow b.index := by
    funext s x
    exact h.follow_eq s x
  rw [Subset.mem_states_complete_iff ha hwell.not_isEpsilon,
    Subset.mem_states_complete_iff hb (h.wellFormed hwell).not_isEpsilon]
  simp only [mem_words, h.alphabet.mem_iff, hfollow, h.initial_eq]

theorem mem_finals_complete_iff (hwell : a.WellFormed) (ha : a.Plain) (hb : b.Plain) :
    s ∈ (Subset.complete a).finals ↔ s ∈ (Subset.complete b).finals := by
  rw [Subset.mem_finals_complete_iff, Subset.mem_finals_complete_iff,
    h.mem_states_complete_iff hwell ha hb]
  simp only [h.finals.mem_iff]

theorem mem_transitions_complete_iff (hwell : a.WellFormed) (ha : a.Plain) (hb : b.Plain) :
    e ∈ (Subset.complete a).transitions ↔ e ∈ (Subset.complete b).transitions := by
  rw [Subset.mem_transitions_complete_iff ha, Subset.mem_transitions_complete_iff hb,
    h.mem_states_complete_iff hwell ha hb, h.alphabet.mem_iff, h.follow_eq]

theorem perm_states_complete (hwell : a.WellFormed) (ha : a.Plain) (hb : b.Plain) :
    (Subset.complete a).states.Perm (Subset.complete b).states :=
  (List.perm_ext_iff_of_nodup (wellFormed_of ..).nodup_states (wellFormed_of ..).nodup_states).mpr
    fun _ => h.mem_states_complete_iff hwell ha hb

theorem perm_finals_complete (hwell : a.WellFormed) (ha : a.Plain) (hb : b.Plain) :
    (Subset.complete a).finals.Perm (Subset.complete b).finals :=
  (List.perm_ext_iff_of_nodup (wellFormed_of ..).nodup_finals (wellFormed_of ..).nodup_finals).mpr
    fun _ => h.mem_finals_complete_iff hwell ha hb

theorem perm_transitions_complete (hwell : a.WellFormed) (ha : a.Plain) (hb : b.Plain) :
    (Subset.complete a).transitions.Perm (Subset.complete b).transitions := by
  have hnodup : ∀ {c : Automaton}, c.WellFormed → (Subset.complete c).transitions.Nodup :=
    fun hc => (Subset.deterministic_course hc.nodup_alphabet _).nodup_keys.of_map
  exact (List.perm_ext_iff_of_nodup (hnodup hwell) (hnodup (h.wellFormed hwell))).mpr
    fun _ => h.mem_transitions_complete_iff hwell ha hb

/-- As many sets are listed besides the trap, so as many steps are made. -/
theorem completedSteps_eq (hwell : a.WellFormed) (ha : a.Plain) (hb : b.Plain) :
    Subset.completedSteps a = Subset.completedSteps b := by
  rw [Subset.completedSteps_eq ha, Subset.completedSteps_eq hb]
  exact ((h.perm_states_complete hwell ha hb).filter _).length_eq

end SameMoves

/-- **The construction does not depend on how an automaton is written down.** From two ways of
writing an automaton it makes the same states, final states and transitions, each once, though maybe
in another order, and it makes them in the same number of steps. -/
theorem determinized_perm (hwell : a.WellFormed) (hsimple : a.Simple) (h : a.Rearranged b) :
    a.determinized.automaton.states.Perm b.determinized.automaton.states ∧
      a.determinized.automaton.finals.Perm b.determinized.automaton.finals ∧
      a.determinized.automaton.transitions.Perm b.determinized.automaton.transitions ∧
      ∃ n, a.determinized.completedSteps? = some n ∧ b.determinized.completedSteps? = some n := by
  have hmoves := sameMoves_of_rearranged h
  have heliminated := hmoves.eliminated hwell
  have hwell := wellFormed_eliminated hwell
  have ha := hsimple.plain_eliminated
  have hb := (hmoves.simple hsimple).plain_eliminated
  refine ⟨heliminated.perm_states_complete hwell ha hb, heliminated.perm_finals_complete hwell ha hb,
    heliminated.perm_transitions_complete hwell ha hb, Subset.completedSteps a.eliminated,
    completedSteps?_determinized a, ?_⟩
  rw [completedSteps?_determinized, heliminated.completedSteps_eq hwell ha hb]

/-- The silent cycle in another order, with its reading transition written as two of which one leads
to its state twice. -/
def shuffledCycle : Automaton :=
  { silentCycle with
    states := [.simple "C", .simple "A", .simple "B"]
    alphabet := ["1", "0"]
    transitions :=
      [⟨.simple "B", [.simple "B", .simple "B"], "0"⟩, ⟨.simple "B", [.simple "B"], "0"⟩,
        ⟨.simple "C", [.simple "A"], " λ "⟩, ⟨.simple "A", [.simple "B"], "λ"⟩,
        ⟨.simple "B", [.simple "C"], ""⟩] }

theorem rearranged_silentCycle_shuffledCycle : silentCycle.Rearranged shuffledCycle := by
  have hstates : silentCycle.states.Perm [.simple "C", .simple "A", .simple "B"] := by decide
  have halphabet : silentCycle.alphabet.Perm ["1", "0"] := by decide
  have htransitions : silentCycle.transitions.Perm
      [⟨.simple "B", [.simple "B"], "0"⟩, ⟨.simple "C", [.simple "A"], " λ "⟩,
        ⟨.simple "A", [.simple "B"], "λ"⟩, ⟨.simple "B", [.simple "C"], ""⟩] := by decide
  refine .trans _ _ _ (.rel _ _ (.states hstates)) ?_
  refine .trans _ _ _ (.rel _ _ (.alphabet halphabet)) ?_
  refine .trans _ _ _ (.rel _ _ (.transitions htransitions)) (.rel _ _ ?_)
  exact @Edit.split _ ⟨.simple "B", [.simple "B"], "0"⟩ []
    [⟨.simple "B", [.simple "B", .simple "B"], "0"⟩, ⟨.simple "B", [.simple "B"], "0"⟩] _
    rfl (by simp) (by simp) (by simp)

/-- With the symbols in the other order the trap is found before the set of all three states. -/
theorem determinized_perm_silentCycle :
    silentCycle.WellFormed ∧ silentCycle.Simple ∧ silentCycle.Rearranged shuffledCycle ∧
      silentCycle.determinized.automaton.transitions.Perm
        shuffledCycle.determinized.automaton.transitions ∧
      silentCycle.determinized.automaton.states.idxOf .trap = 2 ∧
      shuffledCycle.determinized.automaton.states.idxOf .trap = 1 := by
  have hwell : silentCycle.WellFormed := wellFormed_of ..
  have hrearranged := rearranged_silentCycle_shuffledCycle
  obtain ⟨-, -, htransitions, -⟩ := determinized_perm hwell (by decide) hrearranged
  exact ⟨hwell, by decide, hrearranged, htransitions, by decide, by decide⟩

end Automaton

end Determinize
