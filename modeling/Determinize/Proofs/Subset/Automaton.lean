import Determinize.Automaton.Reading
import Determinize.Proofs.Epsilon.Language
import Determinize.Proofs.Run.Residuals
import Determinize.Proofs.Subset.Termination

/-!
# The automaton that a subset construction makes

Whatever a construction has made up to some step is a deterministic automaton. When it has come to
its end nothing is missing either, and if no state of the given automaton is a set or a trap
already, each transition is the one that `Subset.follow` gives. Then every set is reached by the
word that was followed to it, and the trap leads to itself.

## Main definitions

* `Automaton.Simple` — runs meet states that the user named
* `Automaton.Plain` — what the construction needs of that

## Main results

* `Subset.deterministic_course`, `Automaton.deterministic_determinizedWithin` — deterministic at
  every step
* `Subset.movesBy_course` — nothing is missing at the end
* `Subset.exists_word_of_mem_states` — every set listed is led to by a word
* `Subset.mem_names_foldl` — the set after a word is what a run on the word reaches
-/

namespace Determinize

namespace Automaton

variable {a : Automaton} {s t : State} {x : Symbol} {word : List Symbol}

/-- The initial state, the final states and both ends of every transition are states that the user
named. -/
structure Simple (a : Automaton) : Prop where
  /-- The initial state is simple. -/
  initial : a.initial.isSimple
  /-- The final states are simple. -/
  finals : ∀ s ∈ a.finals, s.isSimple
  /-- The sources are simple. -/
  sources : ∀ e ∈ a.transitions, e.source.isSimple
  /-- The targets are simple. -/
  targets : ∀ e ∈ a.transitions, ∀ t ∈ e.targets, t.isSimple

instance (a : Automaton) : Decidable a.Simple :=
  decidable_of_iff (a.initial.isSimple ∧ (∀ s ∈ a.finals, s.isSimple) ∧
      (∀ e ∈ a.transitions, e.source.isSimple) ∧ ∀ e ∈ a.transitions, ∀ t ∈ e.targets, t.isSimple)
    ⟨fun ⟨h₁, h₂, h₃, h₄⟩ => ⟨h₁, h₂, h₃, h₄⟩, fun h => ⟨h.1, h.2, h.3, h.4⟩⟩

/-- Runs meet states that the user named, and the trap leads nowhere. -/
structure Plain (a : Automaton) : Prop where
  /-- The initial state is simple. -/
  initial : a.initial.isSimple
  /-- The final states are simple. -/
  finals : ∀ s ∈ a.finals, s.isSimple
  /-- The targets are simple. -/
  targets : ∀ e ∈ a.transitions, ∀ t ∈ e.targets, t.isSimple
  /-- The trap has no successors. -/
  trap : ∀ x, successors a.transitions .trap x = []

theorem exists_of_isSimple (h : s.isSimple = true) : ∃ n, s = .simple n := by
  cases s with
  | simple n => exact ⟨n, rfl⟩
  | composite g => exact absurd h (by simp [State.isSimple])
  | trap => exact absurd h (by simp [State.isSimple])

theorem Plain.trap_notMem_finals (h : a.Plain) : .trap ∉ a.finals := fun hfinal =>
  absurd (h.finals _ hfinal) (by simp [State.isSimple])

theorem Simple.isSimple_of_epsilonReach (h : a.Simple) (hs : s.isSimple)
    (hst : EpsilonReach a.transitions s t) : t.isSimple := by
  induction hst with
  | refl => exact hs
  | tail _ he _ _ hu _ => exact h.targets _ he _ hu

/-- Removing epsilon transitions from an automaton with simple states leaves it plain, also if some
of its listed states are not simple. -/
theorem Simple.plain_eliminated (h : a.Simple) : a.eliminated.Plain := by
  cases heps : a.hasEpsilon with
  | false =>
    rw [eliminated_of_not_hasEpsilon heps]
    refine ⟨h.initial, h.finals, h.targets, fun x => List.eq_nil_iff_forall_not_mem.mpr ?_⟩
    intro t ht
    obtain ⟨e, he, hsource, -⟩ := mem_successors.mp ht
    exact absurd (hsource ▸ h.sources e he) (by simp [State.isSimple])
  | true =>
    refine ⟨by simpa using h.initial, fun s hs => ?_, fun e he t ht => ?_, fun x => ?_⟩
    · rcases (mem_finals_eliminated heps).mp hs with hs | ⟨rfl, -⟩
      · exact h.finals s hs
      · exact h.initial
    · obtain ⟨s, -, x, -, rfl⟩ := (mem_transitions_eliminated heps).mp he
      obtain ⟨r, -, u, hu, hut⟩ := mem_closedSuccessors.mp ht
      obtain ⟨e, he, -, -, -, hu⟩ := mem_successors_symbolIndex.mp hu
      exact h.isSimple_of_epsilonReach (h.targets e he u hu) hut
    · refine List.eq_nil_iff_forall_not_mem.mpr fun t ht => ?_
      have hleaves : ∀ e ∈ a.transitions, e.source ≠ .trap := fun e he hsource =>
        absurd (hsource ▸ h.sources e he) (by simp [State.isSimple])
      obtain ⟨r, hr, u, hu, -⟩ := exists_of_mem_successors_eliminated heps ht
      obtain rfl := hr.eq_of_not_leaves fun e he _ hsource => absurd hsource (hleaves e he)
      obtain ⟨e, he, -, hsource, -⟩ := mem_successors_symbolIndex.mp hu
      exact hleaves e he hsource

end Automaton

namespace Subset

variable {a : Automaton} {s t : State} {x : Symbol} {n : String} {word : List Symbol} {c : Course}

/-! ### What follows, in an automaton with named states -/

theorem mem_names_follow_of_plain (h : a.Plain) :
    n ∈ (follow a.index s x).names ↔
      ∃ m ∈ s.names, .simple n ∈ successors a.transitions (.simple m) x := by
  have hnames : ∀ p q, q ∈ successors a.transitions p x → (n ∈ q.names ↔ q = .simple n) := by
    intro p q hq
    obtain ⟨e, he, -, -, hqe⟩ := mem_successors.mp hq
    obtain ⟨m, rfl⟩ := Automaton.exists_of_isSimple (h.targets e he q hqe)
    simp [eq_comm]
  simp only [mem_names_follow, Automaton.successors_index]
  by_cases hs : s = .trap
  · subst hs
    simp [State.parts, h.trap]
  · rw [State.parts_eq_map_names hs]
    constructor
    · rintro ⟨p, hp, q, hq, hn⟩
      obtain ⟨m, hm, rfl⟩ := List.mem_map.mp hp
      exact ⟨m, hm, (hnames _ q hq).mp hn ▸ hq⟩
    · rintro ⟨m, hm, hn⟩
      exact ⟨_, List.mem_map.mpr ⟨m, hm, rfl⟩, _, hn, by simp⟩

/-- The trap leads to itself. -/
theorem follow_trap (h : a.Plain) : follow a.index .trap x = .trap := by
  refine State.names_eq_nil_iff.mp (List.eq_nil_iff_forall_not_mem.mpr fun n hn => ?_)
  obtain ⟨m, hm, -⟩ := (mem_names_follow_of_plain h).mp hn
  exact absurd hm List.not_mem_nil

/-- A run reaches states that have names. -/
theorem isSimple_of_mem_reached (h : a.Plain) (hquiet : a.Quiet) (hs : s ∈ a.reached word) :
    s.isSimple := by
  cases word using List.reverseRecOn with
  | nil => exact hquiet.mem_reached_nil.mp hs ▸ h.initial
  | append_singleton word x =>
    obtain ⟨r, -, hr⟩ := hquiet.mem_reached_append_singleton.mp hs
    obtain ⟨e, he, -, -, hse⟩ := mem_successors.mp hr
    exact h.targets e he s hse

/-- The set after a word stands for the states that a run on the word reaches. -/
theorem mem_names_foldl (h : a.Plain) (hquiet : a.Quiet) :
    n ∈ (word.foldl (follow a.index) a.initial).names ↔ .simple n ∈ a.reached word := by
  induction word using List.reverseRecOn generalizing n with
  | nil =>
    obtain ⟨m, hm⟩ := Automaton.exists_of_isSimple h.initial
    simp [hquiet.mem_reached_nil, hm]
  | append_singleton word x ih =>
    rw [List.foldl_append, List.foldl_cons, List.foldl_nil, mem_names_follow_of_plain h,
      hquiet.mem_reached_append_singleton]
    constructor
    · rintro ⟨m, hm, hn⟩
      exact ⟨_, ih.mp hm, hn⟩
    · rintro ⟨s, hs, hn⟩
      obtain ⟨m, rfl⟩ := Automaton.exists_of_isSimple (isSimple_of_mem_reached h hquiet hs)
      exact ⟨m, ih.mpr hs, hn⟩

/-- So, the trap apart, it has a part in a list where the run reaches a state of the list. -/
theorem exists_mem_parts_foldl_iff (h : a.Plain) (hquiet : a.Quiet) {l : List State}
    (hl : .trap ∉ l) :
    (∃ p ∈ (word.foldl (follow a.index) a.initial).parts, p ∈ l) ↔
      ∃ t ∈ a.reached word, t ∈ l := by
  rw [State.exists_mem_parts_iff hl]
  constructor
  · rintro ⟨n, hn, hmem⟩
    exact ⟨_, (mem_names_foldl h hquiet).mp hn, hmem⟩
  · rintro ⟨t, ht, hmem⟩
    obtain ⟨n, rfl⟩ := Automaton.exists_of_isSimple (isSimple_of_mem_reached h hquiet ht)
    exact ⟨n, (mem_names_foldl h hquiet).mpr ht, hmem⟩

/-! ### The parts of the automaton -/

theorem mem_states_automaton : t ∈ (c.automaton a).states ↔ t ∈ c.states := by
  simp [Course.automaton, Automaton.of, List.mem_eraseDups]

theorem mem_alphabet_automaton :
    x ∈ (c.automaton a).alphabet ↔ x ∈ a.alphabet ∧ x.isEpsilon = false := by
  simp [Course.automaton, Automaton.of, List.mem_eraseDups]

theorem isFinal_automaton :
    (c.automaton a).isFinal t = true ↔ t ∈ c.states ∧ ∃ p ∈ t.parts, p ∈ a.finals := by
  simp [Course.automaton, Automaton.of, List.mem_eraseDups]

theorem isFinal_automaton_of_plain (h : a.Plain) :
    (c.automaton a).isFinal t = true ↔ t ∈ c.states ∧ ∃ n ∈ t.names, .simple n ∈ a.finals := by
  rw [isFinal_automaton, State.exists_mem_parts_iff h.trap_notMem_finals]

/-! ### Deterministic at every step, complete at the end -/

theorem deterministic_course (ha : a.alphabet.Nodup) (k : ℕ) :
    ((course a k).automaton a).Deterministic where
  initial_mem := mem_states_automaton.mpr (settled_course a k).initial_mem
  target e he := by
    obtain ⟨t, ht, htargets, -⟩ := ((settled_course a k).lawful e he).target
    exact ⟨t, mem_states_automaton.mpr ht, htargets⟩
  nodup_keys := (Course.Settled.start a.index a.alphabet a.initial).nodup_keys_run ha
    List.nodup_nil k

/-- No transition leaves a set that is not listed. -/
theorem source_mem_course {k : ℕ} {e : Transition}
    (he : e ∈ ((course a k).automaton a).transitions) :
    e.source ∈ ((course a k).automaton a).states :=
  mem_states_automaton.mpr ((settled_course a k).lawful e he).source_mem

/-- No transition reads a symbol that is not listed. -/
theorem symbol_mem_course (ha : a.WellFormed) {k : ℕ} {e : Transition}
    (he : e ∈ ((course a k).automaton a).transitions) :
    e.symbol ∈ ((course a k).automaton a).alphabet := by
  have hx := ((settled_course a k).lawful e he).symbol_mem
  exact mem_alphabet_automaton.mpr ⟨hx, ha.not_isEpsilon _ hx⟩

/-- The construction of an automaton without epsilon transitions, come to its end. -/
abbrev complete (a : Automaton) : Automaton := (course a (bound a)).automaton a

/-- At the end nothing is missing, provided that the trap leads to itself. -/
theorem movesBy_course_of_follow_trap (h : ∀ x ∈ a.alphabet, follow a.index .trap x = .trap) :
    (complete a).MovesBy (follow a.index) := by
  have hsettled := settled_course a (bound a)
  have hsuccessors : ∀ s ∈ (complete a).states, ∀ x ∈ (complete a).alphabet,
      successors (complete a).transitions s x = [follow a.index s x] := by
    intro s hs x hx
    have hx := (mem_alphabet_automaton.mp hx).1
    refine successors_eq_singleton ?_ fun e he hsource hsymbol => ?_
    · exact hsettled.covered s (mem_states_automaton.mp hs) (by simp [pending_course]) x hx
    · obtain ⟨t, -, htargets, ht | ⟨htrap, ht⟩⟩ := (hsettled.lawful e he).target
      · rw [htargets, ht, hsource, hsymbol]
      · rw [htargets, ht, ← hsource, htrap, h x hx]
  refine ⟨mem_states_automaton.mpr hsettled.initial_mem, fun s hs x hx => ?_, hsuccessors⟩
  have hmem : follow a.index s x ∈ successors (complete a).transitions s x := by
    rw [hsuccessors s hs x hx]
    exact List.mem_singleton.mpr rfl
  obtain ⟨e, he, -, -, hmem⟩ := mem_successors.mp hmem
  obtain ⟨t, ht, htargets, -⟩ := (hsettled.lawful e he).target
  rw [htargets] at hmem
  exact mem_states_automaton.mpr (List.mem_singleton.mp hmem ▸ ht)

theorem movesBy_course (h : a.Plain) : (complete a).MovesBy (follow a.index) :=
  movesBy_course_of_follow_trap fun _ _ => follow_trap h

/-- Every set that the construction lists is led to by a word over the alphabet. -/
theorem exists_word_of_mem_states (hsymbols : ∀ x ∈ a.alphabet, x.isEpsilon = false)
    (hs : s ∈ (complete a).states) :
    ∃ word ∈ (complete a).words, word.foldl (follow a.index) (complete a).initial = s := by
  obtain ⟨word, hword, hfold⟩ :=
    (settled_course a (bound a)).reached s (mem_states_automaton.mp hs)
  refine ⟨word, fun x hx => mem_alphabet_automaton.mpr ⟨hword x hx, ?_⟩, hfold⟩
  exact hsymbols x (hword x hx)

end Subset

namespace Automaton

variable {a : Automaton}

theorem determinized_automaton : a.determinized.automaton = Subset.complete a.eliminated := rfl

@[simp] theorem initial_determinized (a : Automaton) :
    a.determinized.automaton.initial = a.initial :=
  initial_eliminated a

theorem wellFormed_eliminated (h : a.WellFormed) : a.eliminated.WellFormed := by
  rw [eliminated]
  split
  · exact wellFormed_of ..
  · exact h

theorem wellFormed_determinizedWithin (a : Automaton) (limit : Option ℕ) :
    (a.determinizedWithin limit).automaton.WellFormed := by
  cases limit <;> exact wellFormed_of ..

/-- Whatever a construction has made when it stops is deterministic. -/
theorem deterministic_determinizedWithin (h : a.WellFormed) (limit : Option ℕ) :
    (a.determinizedWithin limit).automaton.Deterministic := by
  cases limit <;>
    exact Subset.deterministic_course (wellFormed_eliminated h).nodup_alphabet _

end Automaton

end Determinize
