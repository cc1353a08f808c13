import Determinize.Proofs.Run.Paths
import Determinize.Proofs.Subset.Complete

/-!
# The states of the construction are the sets that words lead to

After a word that is not empty, a run of the constructed automaton is in the state which stands for
everything that paths spelling the word lead to, and in the trap if they lead nowhere. The first
state is different: it is the given initial state alone, and not what is reached from it by epsilon
transitions.

Every set that is listed was found by following a word, so nothing is listed besides the first state
and what words lead to.

## Main definitions

* `State.StandsFor` — a state is the name of a set of states

## Main results

* `Subset.mem_names_foldl_iff_path` — the names of the set after a word
* `Automaton.trap_mem_determinized_iff` — when the trap is listed
* `Automaton.standsFor_determinized` — the states of the constructed automaton and the words
-/

namespace Determinize

namespace State

variable {s : State} {set : Set State}

/-- The state `s` is the name of the set: the trap if the set is empty, and otherwise a state of
which the members of the set are the parts. -/
structure StandsFor (s : State) (set : Set State) : Prop where
  /-- The trap stands for nothing else than the empty set. -/
  eq_trap_iff : s = .trap ↔ set = ∅
  /-- The parts of the state are the members of the set. -/
  mem_parts_iff : set.Nonempty → ∀ t, t ∈ s.parts ↔ t ∈ set

/-- A state stands for the set of named states that has its names. -/
theorem standsFor_of_mem_names (hset : ∀ t ∈ set, t.isSimple)
    (h : ∀ n, n ∈ s.names ↔ .simple n ∈ set) : s.StandsFor set := by
  have htrap : s = .trap ↔ set = ∅ := by
    rw [← names_eq_nil_iff]
    constructor
    · intro hs
      refine Set.eq_empty_iff_forall_notMem.mpr fun t ht => ?_
      obtain ⟨n, rfl⟩ := Automaton.exists_of_isSimple (hset t ht)
      have := (h n).mpr ht
      rw [hs] at this
      exact List.not_mem_nil this
    · rintro rfl
      exact List.eq_nil_iff_forall_not_mem.mpr fun n hn => (h n).mp hn
  refine ⟨htrap, fun hne t => ?_⟩
  have hs : s ≠ .trap := fun hs => hne.ne_empty (htrap.mp hs)
  rw [parts_eq_map_names hs, List.mem_map]
  constructor
  · rintro ⟨n, hn, rfl⟩
    exact (h n).mp hn
  · intro ht
    obtain ⟨n, rfl⟩ := Automaton.exists_of_isSimple (hset t ht)
    exact ⟨n, (h n).mpr ht, rfl⟩

end State

namespace Automaton

variable {a : Automaton} {s t : State} {word : List Symbol}

theorem Simple.isSimple_of_path (h : a.Simple) (hs : s.isSimple)
    (hst : Path a.transitions s word t) : t.isSimple := by
  induction hst with
  | nil => exact hs
  | silent he _ hu _ ih => exact ih (h.targets _ he _ hu)
  | read he _ hu _ ih => exact ih (h.targets _ he _ hu)

/-- After a word that is not empty, removing epsilon transitions has changed nothing. -/
theorem mem_reached_eliminated_of_ne_nil (hsources : a.SourcesListed) (hne : word ≠ [])
    (hword : word ∈ a.words) : t ∈ a.eliminated.reached word ↔ t ∈ a.reached word := by
  cases h : a.hasEpsilon with
  | false => rw [eliminated_of_not_hasEpsilon h]
  | true =>
    cases word using List.reverseRecOn with
    | nil => exact absurd rfl hne
    | append_singleton word x => exact mem_reached_eliminated_append_singleton hsources h hword

end Automaton

namespace Subset

variable {a : Automaton} {n : String} {word : List Symbol}

/-- The set after a word that is not empty has the names of what paths lead to. -/
theorem mem_names_foldl_iff_path (hsimple : a.Simple) (hsources : a.SourcesListed)
    (hne : word ≠ []) (hword : word ∈ a.words) :
    n ∈ (word.foldl (follow a.eliminated.index) a.initial).names ↔
      Path a.transitions a.initial word (.simple n) := by
  have hnames : n ∈ (word.foldl (follow a.eliminated.index) a.initial).names ↔
      .simple n ∈ a.eliminated.reached word := by
    rw [← Automaton.initial_eliminated a]
    exact mem_names_foldl hsimple.plain_eliminated a.quiet_eliminated
  rw [hnames, Automaton.mem_reached_eliminated_of_ne_nil hsources hne hword,
    Automaton.mem_reached_iff_path]

end Subset

namespace Automaton

variable {a : Automaton} {s : State} {word : List Symbol}

theorem WellFormed.words_determinized (h : a.WellFormed) :
    a.determinized.automaton.words = a.words := by
  rw [words, words, h.alphabet_determinized]

theorem movesBy_determinized (hsimple : a.Simple) :
    a.determinized.automaton.MovesBy (Subset.follow a.eliminated.index) :=
  Subset.movesBy_course hsimple.plain_eliminated

theorem initial_mem_determinized (hsimple : a.Simple) :
    a.initial ∈ a.determinized.automaton.states := by
  rw [← initial_determinized a]
  exact (movesBy_determinized hsimple).initial_mem

/-- A run on the constructed automaton ends in the set that was followed to. -/
theorem ending_run_determinized (hwell : a.WellFormed) (hsimple : a.Simple)
    (hword : word ∈ a.words) :
    ∃ accepted, (a.determinized.automaton.run word).ending =
      .read accepted (word.foldl (Subset.follow a.eliminated.index) a.initial) := by
  rw [← hwell.words_determinized] at hword
  have hending := (movesBy_determinized hsimple).ending_runFrom (initial_mem_determinized hsimple)
    hword
  rw [run, initial_determinized]
  exact ⟨_, hending⟩

/-- Every set that was followed to is listed. -/
theorem foldl_mem_determinized (hwell : a.WellFormed) (hsimple : a.Simple)
    (hword : word ∈ a.words) :
    word.foldl (Subset.follow a.eliminated.index) a.initial ∈ a.determinized.automaton.states := by
  rw [← hwell.words_determinized] at hword
  exact (movesBy_determinized hsimple).foldl_mem (initial_mem_determinized hsimple) hword

/-- Every state listed is followed to by a word. -/
theorem exists_foldl_of_mem_determinized (hwell : a.WellFormed)
    (hs : s ∈ a.determinized.automaton.states) :
    ∃ word ∈ a.words, word.foldl (Subset.follow a.eliminated.index) a.initial = s := by
  obtain ⟨word, hword, hfold⟩ :=
    Subset.exists_word_of_mem_states (wellFormed_eliminated hwell).not_isEpsilon hs
  rw [← determinized_automaton, initial_determinized] at hfold
  rw [← determinized_automaton, hwell.words_determinized] at hword
  exact ⟨word, hword, hfold⟩

theorem standsFor_foldl (hsimple : a.Simple) (hsources : a.SourcesListed) (hne : word ≠ [])
    (hword : word ∈ a.words) :
    (word.foldl (Subset.follow a.eliminated.index) a.initial).StandsFor
      {t | Path a.transitions a.initial word t} := by
  refine State.standsFor_of_mem_names (fun t ht => ?_) fun n => ?_
  · exact hsimple.isSimple_of_path hsimple.initial ht
  · exact Subset.mem_names_foldl_iff_path hsimple hsources hne hword

/-- The trap is listed exactly if paths spelling some word lead nowhere. -/
theorem trap_mem_determinized_iff (hwell : a.WellFormed) (hsimple : a.Simple)
    (hsources : a.SourcesListed) :
    .trap ∈ a.determinized.automaton.states ↔
      ∃ word ∈ a.words, ∀ t, ¬Path a.transitions a.initial word t := by
  constructor
  · intro htrap
    obtain ⟨word, hword, hfold⟩ := exists_foldl_of_mem_determinized hwell htrap
    have hne : word ≠ [] := by
      rintro rfl
      obtain ⟨n, hn⟩ := exists_of_isSimple hsimple.initial
      exact State.noConfusion (hn.symm.trans hfold)
    have hempty := (standsFor_foldl hsimple hsources hne hword).eq_trap_iff.mp hfold
    exact ⟨word, hword, Set.eq_empty_iff_forall_notMem.mp hempty⟩
  · rintro ⟨word, hword, hnowhere⟩
    -- paths spelling the empty word lead to the initial state
    have hne : word ≠ [] := by
      rintro rfl
      exact hnowhere a.initial (.nil _)
    have htrap := (standsFor_foldl hsimple hsources hne hword).eq_trap_iff.mpr
      (Set.eq_empty_iff_forall_notMem.mpr hnowhere)
    rw [← htrap]
    exact foldl_mem_determinized hwell hsimple hword

/-- **The states of the constructed automaton are the sets that words lead to.** A run on a word that
is not empty ends in the state that stands for what paths spelling the word lead to; every listed
state is the end of a run; and the trap is listed exactly if paths spelling some word lead
nowhere. -/
theorem standsFor_determinized (hwell : a.WellFormed) (hsimple : a.Simple)
    (hsources : a.SourcesListed) :
    (∀ word ∈ a.words, word ≠ [] → ∃ accepted s,
      (a.determinized.automaton.run word).ending = .read accepted s ∧
        s.StandsFor {t | Path a.transitions a.initial word t}) ∧
    (∀ s ∈ a.determinized.automaton.states, ∃ word ∈ a.words, ∃ accepted,
      (a.determinized.automaton.run word).ending = .read accepted s) ∧
    (.trap ∈ a.determinized.automaton.states ↔
      ∃ word ∈ a.words, ∀ t, ¬Path a.transitions a.initial word t) := by
  refine ⟨fun word hword hne => ?_, fun s hs => ?_,
    trap_mem_determinized_iff hwell hsimple hsources⟩
  · obtain ⟨accepted, hending⟩ := ending_run_determinized hwell hsimple hword
    exact ⟨accepted, _, hending, standsFor_foldl hsimple hsources hne hword⟩
  · obtain ⟨word, hword, rfl⟩ := exists_foldl_of_mem_determinized hwell hs
    exact ⟨word, hword, ending_run_determinized hwell hsimple hword⟩

/-- After a zero all three states of the cycle are reached, and reading a one leads nowhere. -/
theorem standsFor_determinized_silentCycle :
    silentCycle.WellFormed ∧ silentCycle.Simple ∧ silentCycle.SourcesListed ∧
      (∃ s, (silentCycle.determinized.automaton.run ["0"]).ending = .read true s ∧
        s.names = ["A", "B", "C"] ∧
        s.StandsFor {t | Path silentCycle.transitions silentCycle.initial ["0"] t}) ∧
      .trap ∈ silentCycle.determinized.automaton.states ∧
      ∃ word ∈ silentCycle.words,
        ∀ t, ¬Path silentCycle.transitions silentCycle.initial word t := by
  have hwell : silentCycle.WellFormed := wellFormed_of ..
  obtain ⟨hruns, -, htrap⟩ := standsFor_determinized hwell (by decide) (by decide)
  have hmem : .trap ∈ silentCycle.determinized.automaton.states := by decide
  have hending : (silentCycle.determinized.automaton.run ["0"]).ending =
      .read true (.composite ⟨["A", "B", "C"], by decide, by decide⟩) := by decide
  obtain ⟨accepted, s, hs, hstands⟩ := hruns ["0"] (mem_words.mpr (by decide)) (by decide)
  rw [hending] at hs
  obtain ⟨-, rfl⟩ := Ending.read.inj hs
  exact ⟨hwell, by decide, by decide, ⟨_, hending, rfl, hstands⟩, hmem, htrap.mp hmem⟩

end Automaton

end Determinize
