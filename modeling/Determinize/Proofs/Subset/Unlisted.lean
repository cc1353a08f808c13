import Determinize.Proofs.Subset.Language

/-!
# Transitions of states that are not listed

An automaton may have transitions that leave states it does not list. As long as it has no epsilon
transition, the construction follows them like any others. Removing epsilon transitions makes rows
for the listed states only, so from then on such a transition is followed only where it comes after
epsilon transitions from a listed state.

This shows in a transition that should not matter at all, from a state to itself, that reads
nothing. It adds nothing to any closure. In an automaton with other epsilon transitions it changes
nothing. In one without, it is the first to be removed, and every transition of a state that is
not listed goes with it.

## Main definitions

* `Automaton.leaving` — the automaton with only the transitions that leave given states
* `Automaton.withSilentLoop` — the automaton with a transition from a state to itself that reads
  nothing

## Main results

* `Automaton.accepted_run_determinized_congr` — what the language of the construction depends on
* `Automaton.eliminated_withSilentLoop` — where there are epsilon transitions, a loop adds nothing
* `Automaton.mem_successors_eliminated_withSilentLoop` — where there are none, it drops rows
* `Automaton.accepted_run_withSilentLoop` — the language with the loop
-/

namespace Determinize

namespace Automaton

/-- The automaton with only those of its transitions that leave one of the given states. -/
def leaving (a : Automaton) (l : List State) : Automaton :=
  { a with transitions := a.transitions.filter fun e => e.source ∈ l }

/-- The automaton with one more transition, which leads from `s` to `s` and reads nothing. -/
def withSilentLoop (a : Automaton) (s : State) : Automaton :=
  { a with transitions := a.transitions ++ [⟨s, [s], Symbol.epsilon⟩] }

variable {a b : Automaton} {l : List State} {p q s t u : State} {x : Symbol} {e : Transition}
  {word : List Symbol}

/-! ### The transitions that leave given states -/

theorem mem_transitions_leaving :
    e ∈ (a.leaving l).transitions ↔ e ∈ a.transitions ∧ e.source ∈ l := by
  simp [leaving]

theorem mem_successors_leaving :
    t ∈ successors (a.leaving l).transitions s x ↔ s ∈ l ∧ t ∈ successors a.transitions s x := by
  simp only [mem_successors, mem_transitions_leaving]
  constructor
  · rintro ⟨e, ⟨he, hl⟩, rfl, hx, ht⟩
    exact ⟨hl, e, he, rfl, hx, ht⟩
  · rintro ⟨hl, e, he, rfl, hx, ht⟩
    exact ⟨e, ⟨he, hl⟩, rfl, hx, ht⟩

theorem SourcesListed.leaving_states (h : a.SourcesListed) : a.leaving a.states = a := by
  have hall : a.transitions.filter (fun e => e.source ∈ a.states) = a.transitions :=
    List.filter_eq_self.mpr fun e he => by simpa using h e he
  rw [leaving, hall]

theorem Simple.leaving (h : a.Simple) (l : List State) : (a.leaving l).Simple where
  initial := h.initial
  finals := h.finals
  sources e he := h.sources e (mem_transitions_leaving.mp he).1
  targets e he := h.targets e (mem_transitions_leaving.mp he).1

theorem hasEpsilon_leaving (h : a.hasEpsilon = false) (l : List State) :
    (a.leaving l).hasEpsilon = false := by
  rw [Bool.eq_false_iff, ne_eq, hasEpsilon_iff] at h ⊢
  rintro ⟨e, he, hsilent⟩
  exact h ⟨e, (mem_transitions_leaving.mp he).1, hsilent⟩

/-! ### What the language of the construction depends on -/

/-- Runs without epsilon transitions reach the same states if the same states follow on the symbols
of the word. -/
theorem Quiet.mem_reached_congr (ha : a.Quiet) (hb : b.Quiet) (hinitial : a.initial = b.initial)
    (hmoves : ∀ x ∈ word, ∀ s t,
      t ∈ successors a.transitions s x ↔ t ∈ successors b.transitions s x) :
    t ∈ a.reached word ↔ t ∈ b.reached word := by
  induction word using List.reverseRecOn generalizing t with
  | nil => rw [ha.mem_reached_nil, hb.mem_reached_nil, hinitial]
  | append_singleton word x ih =>
    have hx := hmoves x (by simp)
    have ih := fun {t} => @ih t fun y hy => hmoves y (List.mem_append_left _ hy)
    simp only [ha.mem_reached_append_singleton, hb.mem_reached_append_singleton, ih, hx]

/-- The language of the construction depends on the alphabet, the initial state, and what is final
and what follows once epsilon transitions are removed. -/
theorem accepted_run_determinized_congr (ha : a.Simple) (hb : b.Simple)
    (hinitial : a.initial = b.initial) (halphabet : a.alphabet = b.alphabet)
    (hfinals : ∀ t, t ∈ a.eliminated.finals ↔ t ∈ b.eliminated.finals)
    (hmoves : ∀ x ∈ a.alphabet, ∀ s t, t ∈ successors a.eliminated.transitions s x ↔
      t ∈ successors b.eliminated.transitions s x) (word : List Symbol) :
    (a.determinized.automaton.run word).accepted =
      (b.determinized.automaton.run word).accepted := by
  have hsymbols : ∀ x, x ∈ a.determinized.automaton.alphabet ↔
      x ∈ b.determinized.automaton.alphabet := by
    intro x
    rw [mem_alphabet_determinized, mem_alphabet_determinized, halphabet]
  by_cases hword : ∀ x ∈ word, x ∈ a.determinized.automaton.alphabet
  · have hword' : ∀ x ∈ word, x ∈ b.determinized.automaton.alphabet := fun x hx =>
      (hsymbols x).mp (hword x hx)
    have hreached : ∀ t, t ∈ a.eliminated.reached word ↔ t ∈ b.eliminated.reached word := by
      intro t
      refine a.quiet_eliminated.mem_reached_congr b.quiet_eliminated ?_ fun x hx => ?_
      · rw [initial_eliminated, initial_eliminated, hinitial]
      · exact hmoves x (mem_alphabet_determinized.mp (hword x hx)).1
    rw [Bool.eq_iff_iff, determinized_automaton, determinized_automaton,
      Subset.accepted_run_complete ha.plain_eliminated a.quiet_eliminated hword,
      Subset.accepted_run_complete hb.plain_eliminated b.quiet_eliminated hword']
    simp only [hreached, hfinals]
  · push Not at hword
    obtain ⟨x, hx, hforeign⟩ := hword
    rw [accepted_run, accepted_run, outcome_eq_none_of_mem hx hforeign,
      outcome_eq_none_of_mem hx (mt (hsymbols x).mpr hforeign)]

/-! ### A loop that reads nothing -/

theorem mem_transitions_withSilentLoop :
    e ∈ (a.withSilentLoop s).transitions ↔ e ∈ a.transitions ∨ e = ⟨s, [s], Symbol.epsilon⟩ := by
  simp [withSilentLoop]

theorem isEpsilon_loop (s : State) : Transition.isEpsilon ⟨s, [s], Symbol.epsilon⟩ = true := by
  show Symbol.isEpsilon Symbol.epsilon = true
  decide

theorem hasEpsilon_withSilentLoop (a : Automaton) (s : State) :
    (a.withSilentLoop s).hasEpsilon = true :=
  hasEpsilon_iff.mpr
    ⟨_, mem_transitions_withSilentLoop.mpr (Or.inr rfl), isEpsilon_loop s⟩

theorem Simple.withSilentLoop (h : a.Simple) (hs : s.isSimple) : (a.withSilentLoop s).Simple where
  initial := h.initial
  finals := h.finals
  sources e he := by
    rcases mem_transitions_withSilentLoop.mp he with he | rfl
    · exact h.sources e he
    · exact hs
  targets e he t ht := by
    rcases mem_transitions_withSilentLoop.mp he with he | rfl
    · exact h.targets e he t ht
    · exact List.mem_singleton.mp ht ▸ hs

/-- The loop leads nowhere else. -/
theorem epsilonReach_withSilentLoop :
    EpsilonReach (a.withSilentLoop s).transitions p q ↔ EpsilonReach a.transitions p q := by
  constructor
  · intro h
    induction h with
    | refl => exact .refl
    | tail _ he hsilent hsource hu ih =>
      rcases mem_transitions_withSilentLoop.mp he with he | rfl
      · exact ih.tail he hsilent hsource hu
      · obtain rfl := List.mem_singleton.mp hu
        subst hsource
        exact ih
  · intro h
    induction h with
    | refl => exact .refl
    | tail _ he hsilent hsource hu ih =>
      exact ih.tail (mem_transitions_withSilentLoop.mpr (Or.inl he)) hsilent hsource hu

/-- The loop is not in the table of the transitions that read. -/
theorem mem_symbolIndex_withSilentLoop :
    t ∈ (a.withSilentLoop s).symbolIndex.successors p x ↔ t ∈ a.symbolIndex.successors p x := by
  simp only [mem_successors_symbolIndex, mem_transitions_withSilentLoop]
  constructor
  · rintro ⟨e, he | rfl, hread, hrest⟩
    · exact ⟨e, he, hread, hrest⟩
    · exact absurd ((isEpsilon_loop s).symm.trans hread) (by decide)
  · rintro ⟨e, he, hrest⟩
    exact ⟨e, Or.inl he, hrest⟩

/-! ### Where there are other epsilon transitions -/

theorem closedSuccessors_withSilentLoop :
    (a.withSilentLoop s).closedSuccessors (a.withSilentLoop s).symbolIndex
        (closure (a.withSilentLoop s).transitions p) x =
      a.closedSuccessors a.symbolIndex (closure a.transitions p) x := by
  refine ascending_eq_ascending fun t => ?_
  simp only [mem_closureFrom, List.mem_flatMap, mem_closure, epsilonReach_withSilentLoop,
    mem_symbolIndex_withSilentLoop]

theorem closedFinals_withSilentLoop : (a.withSilentLoop s).closedFinals = a.closedFinals := by
  have hclosed : (∃ t ∈ closure (a.withSilentLoop s).transitions a.initial, t ∈ a.finals) ↔
      ∃ t ∈ closure a.transitions a.initial, t ∈ a.finals := by
    simp only [mem_closure, epsilonReach_withSilentLoop]
  rw [closedFinals, closedFinals]
  exact if_congr (and_congr_right' hclosed) rfl rfl

/-- Where there are epsilon transitions already, one more loop changes nothing. -/
theorem eliminated_withSilentLoop (h : a.hasEpsilon = true) :
    (a.withSilentLoop s).eliminated = a.eliminated := by
  have hrow : (a.withSilentLoop s).closedRow (a.withSilentLoop s).symbolIndex =
      a.closedRow a.symbolIndex := by
    funext p
    rw [closedRow, closedRow]
    simp only [closedSuccessors_withSilentLoop]
    rfl
  rw [eliminated, eliminated, if_pos h, if_pos (hasEpsilon_withSilentLoop a s)]
  simp only [hrow, closedFinals_withSilentLoop]
  rfl

/-! ### Where there are none -/

theorem epsilonReach_iff_eq (h : a.hasEpsilon = false) :
    EpsilonReach a.transitions p q ↔ q = p := by
  constructor
  · intro hpq
    refine hpq.eq_of_not_leaves fun e he hsilent => ?_
    exact absurd (hasEpsilon_iff.mpr ⟨e, he, hsilent⟩) (by simp [h])
  · rintro rfl
    exact .refl

/-- Where there are no epsilon transitions, the loop makes the construction forget the transitions
of the states that are not listed. -/
theorem mem_successors_eliminated_withSilentLoop (h : a.hasEpsilon = false) (hx : x ∈ a.alphabet) :
    t ∈ successors (a.withSilentLoop s).eliminated.transitions p x ↔
      p ∈ a.states ∧ t ∈ successors a.transitions p x := by
  have hquiet : a.Quiet := by
    have := a.quiet_eliminated
    rwa [eliminated_of_not_hasEpsilon h] at this
  have hrow : t ∈ (a.withSilentLoop s).closedSuccessors (a.withSilentLoop s).symbolIndex
      (closure (a.withSilentLoop s).transitions p) x ↔ t ∈ successors a.transitions p x := by
    simp only [mem_closedSuccessors, mem_closure, epsilonReach_withSilentLoop,
      mem_symbolIndex_withSilentLoop, epsilonReach_iff_eq h, hquiet.mem_symbolIndex_iff,
      exists_eq_left, exists_eq_right']
  rw [mem_successors]
  constructor
  · rintro ⟨e, he, hsource, hsymbol, ht⟩
    obtain ⟨p, hp, x, -, rfl⟩ :=
      (mem_transitions_eliminated (hasEpsilon_withSilentLoop a s)).mp he
    subst hsource hsymbol
    exact ⟨hp, hrow.mp ht⟩
  · rintro ⟨hp, ht⟩
    exact ⟨_, (mem_transitions_eliminated (hasEpsilon_withSilentLoop a s)).mpr
      ⟨p, hp, x, hx, rfl⟩, rfl, rfl, hrow.mpr ht⟩

theorem mem_finals_eliminated_withSilentLoop (h : a.hasEpsilon = false) :
    t ∈ (a.withSilentLoop s).eliminated.finals ↔ t ∈ a.finals := by
  rw [mem_finals_eliminated (hasEpsilon_withSilentLoop a s)]
  simp only [epsilonReach_withSilentLoop]
  refine ⟨fun ht => ht.elim id ?_, Or.inl⟩
  rintro ⟨rfl, u, hu, hreach⟩
  exact (epsilonReach_iff_eq h).mp hreach ▸ hu

/-- Without other epsilon transitions, the construction with the loop accepts what it accepts
without the transitions of states that are not listed. -/
theorem accepted_run_withSilentLoop_of_not_hasEpsilon (hsimple : a.Simple) (hs : s.isSimple)
    (h : a.hasEpsilon = false) (word : List Symbol) :
    ((a.withSilentLoop s).determinized.automaton.run word).accepted =
      ((a.leaving a.states).determinized.automaton.run word).accepted := by
  have heliminated := eliminated_of_not_hasEpsilon (hasEpsilon_leaving h a.states)
  refine accepted_run_determinized_congr (hsimple.withSilentLoop hs) (hsimple.leaving a.states)
    rfl rfl (fun t => ?_) (fun x hx p t => ?_) word
  · rw [heliminated]
    exact mem_finals_eliminated_withSilentLoop h
  · rw [heliminated, mem_successors_leaving]
    exact mem_successors_eliminated_withSilentLoop h hx

/-! ### The language with the loop -/

/-- **What a transition changes that leads from a state to itself and reads nothing.** Where there
are epsilon transitions already, the construction makes the same automaton as before. Where there
are none, it accepts what it accepts without the transitions of the states that are not listed. So
the language stays as it was if every transition leaves a listed state. -/
theorem accepted_run_withSilentLoop (hsimple : a.Simple) (hs : s.isSimple) :
    (a.hasEpsilon = true → (a.withSilentLoop s).determinized = a.determinized) ∧
    (a.hasEpsilon = false → ∀ word,
      ((a.withSilentLoop s).determinized.automaton.run word).accepted =
        ((a.leaving a.states).determinized.automaton.run word).accepted) ∧
    (a.SourcesListed → ∀ word,
      ((a.withSilentLoop s).determinized.automaton.run word).accepted =
        (a.determinized.automaton.run word).accepted) := by
  have hloop : a.hasEpsilon = true → (a.withSilentLoop s).determinized = a.determinized := by
    intro h
    rw [determinized, determinized, eliminated_withSilentLoop h]
  have hrows := accepted_run_withSilentLoop_of_not_hasEpsilon hsimple hs
  refine ⟨hloop, hrows, fun hsources word => ?_⟩
  cases h : a.hasEpsilon with
  | true => rw [hloop h]
  | false => rw [hrows h word, hsources.leaving_states]

/-- A state that is not listed, with a transition to the final state. -/
def unlistedStep : Automaton :=
  of (.simple "A") [.simple "C"] [.simple "A"] ["a"]
    [⟨.simple "A", [.simple "B"], "a"⟩, ⟨.simple "B", [.simple "C"], "a"⟩]

/-- The second symbol is read by a transition that only an automaton without epsilon transitions
follows, so the word is lost with the loop. -/
theorem accepted_run_withSilentLoop_unlistedStep :
    unlistedStep.Simple ∧ unlistedStep.hasEpsilon = false ∧
      ((unlistedStep.withSilentLoop (.simple "A")).determinized.automaton.run ["a", "a"]).accepted =
        ((unlistedStep.leaving [.simple "A"]).determinized.automaton.run ["a", "a"]).accepted ∧
      silentCycle.hasEpsilon = true ∧
      (silentCycle.withSilentLoop (.simple "B")).determinized = silentCycle.determinized ∧
      silentCycle.SourcesListed := by
  obtain ⟨-, hrows, -⟩ :=
    accepted_run_withSilentLoop (a := unlistedStep) (s := .simple "A") (by decide) (by decide)
  obtain ⟨hloop, -, -⟩ :=
    accepted_run_withSilentLoop (a := silentCycle) (s := .simple "B") (by decide) (by decide)
  exact ⟨by decide, by decide, hrows (by decide) ["a", "a"], by decide, hloop (by decide),
    by decide⟩

/-- A loop that reads nothing can take a word out of the language of the construction. -/
theorem not_forall_accepted_run_withSilentLoop_eq :
    ¬∀ a : Automaton, a.WellFormed → (∀ s ∈ a.mentioned, s.isSimple) → ∀ s ∈ a.mentioned,
      ∀ word ∈ a.words, ((a.withSilentLoop s).determinized.automaton.run word).accepted =
        (a.determinized.automaton.run word).accepted := by
  intro h
  have heq := h unlistedStep (wellFormed_of ..) (by decide) (.simple "A") (by decide) ["a", "a"]
    (mem_words.mpr (by decide))
  have hwith : ((unlistedStep.withSilentLoop (.simple "A")).determinized.automaton.run
      ["a", "a"]).accepted = false := by decide
  have hwithout : (unlistedStep.determinized.automaton.run ["a", "a"]).accepted = true := by decide
  rw [hwith, hwithout] at heq
  exact Bool.false_ne_true heq

end Automaton

end Determinize
