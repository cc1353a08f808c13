import Determinize.Proofs.Subset.Extent
import Determinize.Proofs.Subset.Reachable
import Determinize.Proofs.Subset.Unlisted

/-!
# The construction applied to what it has made

Sets are names of states, and a set of sets is the set of all their names. So the construction
takes the sets that it has made before apart again: where a set leads is looked up for each of its
parts, and it is final when one of its parts is. A part may not be listed by itself. It has no
transitions then and is not final, whatever it was in the automaton that was given first.

So the construction forgets, of the automaton without epsilon transitions, every state that it did
not list by itself the first time. It accepts what can be accepted without these states. That is no
more than the first time, and the same where no run meets them.

## Main results

* `Subset.follow_complete` — where the sets lead the second time
* `Subset.accepted_run_complete_complete` — what is accepted the second time
* `Subset.foldl_follow_complete` — where both runs are in the same sets
* `Automaton.accepted_run_again` — the languages of the two automata
-/

namespace Determinize

variable {transitions rest : List Transition} {p s t : State} {word : List Symbol} {x : Symbol}

/-- A path stays a path among more transitions. -/
theorem Path.mono (h : Path transitions s word t) (hsub : transitions ⊆ rest) :
    Path rest s word t := by
  induction h with
  | nil s => exact .nil s
  | silent he hsilent hu _ ih => exact .silent (hsub he) hsilent hu ih
  | read he hread hu _ ih => exact .read (hsub he) hread hu ih

namespace Automaton

variable {a : Automaton}

theorem transitions_leaving_subset (a : Automaton) (l : List State) :
    (a.leaving l).transitions ⊆ a.transitions :=
  List.filter_subset_self _

theorem Plain.leaving (h : a.Plain) (l : List State) : (a.leaving l).Plain where
  initial := h.initial
  finals := h.finals
  targets e he := h.targets e (a.transitions_leaving_subset l he)
  trap x := by
    refine List.eq_nil_iff_forall_not_mem.mpr fun t ht => ?_
    have := (mem_successors_leaving.mp ht).2
    rw [h.trap x] at this
    exact List.not_mem_nil this

theorem Quiet.leaving (h : a.Quiet) (l : List State) : (a.leaving l).Quiet := fun e he =>
  h e (a.transitions_leaving_subset l he)

/-- Fewer transitions lead to no more states. -/
theorem mem_reached_of_mem_reached_leaving {l : List State} (h : t ∈ (a.leaving l).reached word) :
    t ∈ a.reached word :=
  mem_reached_iff_path.mpr ((mem_reached_iff_path.mp h).mono (a.transitions_leaving_subset l))

end Automaton

namespace Subset

variable {a : Automaton}

/-! ### Where the sets lead the second time -/

@[simp] theorem initial_complete (a : Automaton) : (complete a).initial = a.initial := rfl

/-- The trap is not final, since it has no part that could be. -/
theorem trap_notMem_finals_complete (h : a.Plain) : .trap ∉ (complete a).finals := by
  intro hfinal
  obtain ⟨-, p, hp, hmem⟩ := mem_finals_complete_iff.mp hfinal
  obtain rfl := List.mem_singleton.mp hp
  exact h.trap_notMem_finals hmem

theorem mem_successors_complete (h : a.Plain) (hx : x ∈ a.alphabet) :
    t ∈ successors (complete a).transitions s x ↔
      s ∈ (complete a).states ∧ t = follow a.index s x := by
  rw [mem_successors]
  constructor
  · rintro ⟨e, he, rfl, rfl, ht⟩
    obtain ⟨hs, -, htargets⟩ := (mem_transitions_complete_iff h).mp he
    rw [htargets] at ht
    exact ⟨hs, List.mem_singleton.mp ht⟩
  · rintro ⟨hs, rfl⟩
    exact ⟨⟨s, [follow a.index s x], x⟩, (mem_transitions_complete_iff h).mpr ⟨hs, hx, rfl⟩, rfl,
      rfl, List.mem_singleton.mpr rfl⟩

/-- The second time a set leads to where its listed parts lead. -/
theorem follow_complete (h : a.Plain) (hx : x ∈ a.alphabet) :
    follow (complete a).index s x = follow (a.leaving (complete a).states).index s x := by
  refine State.eq_of_mem_names_iff fun n => ?_
  simp only [mem_names_follow, Automaton.successors_index, mem_successors_complete h hx,
    Automaton.mem_successors_leaving]
  refine exists_congr fun p => and_congr_right fun hp => ?_
  constructor
  · rintro ⟨-, ⟨hlisted, rfl⟩, hn⟩
    simp only [mem_names_follow, State.parts_of_mem_parts hp, List.mem_singleton,
      exists_eq_left, Automaton.successors_index] at hn
    obtain ⟨t, ht, hn⟩ := hn
    exact ⟨t, ⟨hlisted, ht⟩, hn⟩
  · rintro ⟨t, ⟨hlisted, ht⟩, hn⟩
    refine ⟨_, ⟨hlisted, rfl⟩, mem_names_follow.mpr ⟨p, ?_, t, ?_, hn⟩⟩
    · rw [State.parts_of_mem_parts hp]
      exact List.mem_singleton.mpr rfl
    · rwa [Automaton.successors_index]

theorem movesBy_complete_complete (h : a.Plain) :
    (complete (complete a)).MovesBy (follow (complete a).index) := by
  refine movesBy_course_of_follow_trap fun x hx => ?_
  rw [follow_complete h (mem_alphabet_automaton.mp hx).1, follow_trap (h.leaving _)]

/-- After a word over the alphabet, the second run is in the set of the states that listed states
lead to. -/
theorem foldl_follow_complete (h : a.Plain) (hword : ∀ x ∈ word, x ∈ a.alphabet) :
    word.foldl (follow (complete a).index) a.initial =
      word.foldl (follow (a.leaving (complete a).states).index) a.initial :=
  List.foldl_ext _ _ _ fun _ x hx => follow_complete h (hword x hx)

/-! ### What is accepted the second time -/

/-- The second automaton accepts where a listed final state is reached by way of listed states. -/
theorem accepted_run_complete_complete (h : a.Plain) (hquiet : a.Quiet)
    (hword : ∀ x ∈ word, x ∈ (complete (complete a)).alphabet) :
    ((complete (complete a)).run word).accepted = true ↔
      ∃ t ∈ (a.leaving (complete a).states).reached word, t ∈ (complete a).finals := by
  have hsymbols : ∀ x ∈ word, x ∈ a.alphabet := fun x hx =>
    (mem_alphabet_automaton.mp (mem_alphabet_automaton.mp (hword x hx)).1).1
  rw [accepted_run_complete_iff (movesBy_complete_complete h) hword, initial_complete,
    foldl_follow_complete h hsymbols]
  exact exists_mem_parts_foldl_iff (h.leaving _) (hquiet.leaving _) (trap_notMem_finals_complete h)

/-- A listed state with a name is final where it was final before. -/
theorem mem_finals_of_mem_finals_complete (ht : t.isSimple) (hfinal : t ∈ (complete a).finals) :
    t ∈ a.finals := by
  obtain ⟨n, rfl⟩ := Automaton.exists_of_isSimple ht
  obtain ⟨-, p, hp, hmem⟩ := mem_finals_complete_iff.mp hfinal
  exact List.mem_singleton.mp hp ▸ hmem

/-- No word is accepted the second time that was not accepted the first time. -/
theorem accepted_run_complete_of_complete (h : a.Plain) (hquiet : a.Quiet)
    (hword : ∀ x ∈ word, x ∈ (complete (complete a)).alphabet)
    (haccepted : ((complete (complete a)).run word).accepted = true) :
    ((complete a).run word).accepted = true := by
  obtain ⟨t, ht, hfinal⟩ := (accepted_run_complete_complete h hquiet hword).mp haccepted
  have ht := Automaton.mem_reached_of_mem_reached_leaving ht
  refine (accepted_run_complete h hquiet fun x hx => (mem_alphabet_automaton.mp (hword x hx)).1).mpr
    ⟨t, ht, mem_finals_of_mem_finals_complete (isSimple_of_mem_reached h hquiet ht) hfinal⟩

/-! ### Where nothing is forgotten -/

/-- A set whose parts are listed leads to the same set as before. -/
theorem follow_complete_of_parts (h : a.Plain) (hx : x ∈ a.alphabet)
    (hs : ∀ p ∈ s.parts, p ∈ (complete a).states) :
    follow (complete a).index s x = follow a.index s x := by
  refine State.eq_of_mem_names_iff fun n => ?_
  rw [follow_complete h hx]
  simp only [mem_names_follow, Automaton.successors_index, Automaton.mem_successors_leaving]
  refine exists_congr fun p => and_congr_right fun hp => ?_
  simp only [hs p hp, true_and]

/-- As long as the run meets only sets whose parts are listed, the second run is in the same
sets. -/
theorem foldl_follow_complete_of_parts (h : a.Plain) (hword : ∀ x ∈ word, x ∈ (complete a).alphabet)
    (hs : s ∈ (complete a).states) (hparts : ∀ p ∈ s.parts, p ∈ (complete a).states)
    (hmoves : ∀ m ∈ ((complete a).runFrom (complete a).index s word).moves,
      ∀ p ∈ m.target.parts, p ∈ (complete a).states) :
    word.foldl (follow (complete a).index) s = word.foldl (follow a.index) s ∧
      ∀ p ∈ (word.foldl (follow a.index) s).parts, p ∈ (complete a).states := by
  induction word generalizing s with
  | nil => exact ⟨rfl, hparts⟩
  | cons x word ih =>
    have hx := hword x List.mem_cons_self
    have hnext := (movesBy_course h).next_mem s hs x hx
    rw [(movesBy_course h).runFrom_cons hs hx] at hmoves
    rw [List.foldl_cons, List.foldl_cons,
      follow_complete_of_parts h (mem_alphabet_automaton.mp hx).1 hparts]
    exact ih (fun y hy => hword y (List.mem_cons_of_mem x hy)) hnext
      (hmoves _ List.mem_cons_self) fun m hm => hmoves m (List.mem_cons_of_mem _ hm)

/-- Where the run meets only sets whose parts are listed, a word is accepted the second time if it
was accepted the first time. -/
theorem accepted_run_complete_complete_of_parts (h : a.Plain)
    (hword : ∀ x ∈ word, x ∈ (complete (complete a)).alphabet)
    (hmoves : ∀ m ∈ ((complete a).run word).moves,
      ∀ p ∈ m.target.parts, p ∈ (complete a).states) :
    ((complete (complete a)).run word).accepted = ((complete a).run word).accepted := by
  have hword' : ∀ x ∈ word, x ∈ (complete a).alphabet := fun x hx =>
    (mem_alphabet_automaton.mp (hword x hx)).1
  have hinitial : ∀ p ∈ a.initial.parts, p ∈ (complete a).states := by
    obtain ⟨n, hn⟩ := Automaton.exists_of_isSimple h.initial
    have hmem : a.initial ∈ (complete a).states := (movesBy_course h).initial_mem
    rw [hn] at hmem ⊢
    exact fun p hp => List.mem_singleton.mp hp ▸ hmem
  obtain ⟨hset, hparts⟩ := foldl_follow_complete_of_parts h hword'
    (movesBy_course h).initial_mem hinitial hmoves
  rw [initial_complete] at hset hparts
  rw [Bool.eq_iff_iff, accepted_run_complete_iff (movesBy_complete_complete h) hword,
    accepted_run_complete_iff (movesBy_course h) hword', initial_complete, hset]
  refine exists_congr fun p => and_congr_right fun hp => ?_
  simp only [mem_finals_complete_iff, hparts p hp, State.parts_of_mem_parts hp,
    List.mem_singleton, exists_eq_left, true_and]

end Subset

namespace Automaton

variable {a : Automaton}

theorem determinized_determinized (hwell : a.WellFormed) :
    a.determinized.automaton.determinized.automaton =
      Subset.complete (Subset.complete a.eliminated) := by
  have hquiet : a.determinized.automaton.hasEpsilon = false := by
    rw [Bool.eq_false_iff, ne_eq, hasEpsilon_iff]
    rintro ⟨e, he, hsilent⟩
    have := (Subset.complete_course (wellFormed_eliminated hwell)).not_isEpsilon e he
    exact Bool.false_ne_true (this.symm.trans hsilent)
  rw [determinized_automaton (a := a.determinized.automaton), eliminated_of_not_hasEpsilon hquiet,
    determinized_automaton]

theorem words_determinized_determinized (hwell : a.WellFormed) :
    (Subset.complete (Subset.complete a.eliminated)).words = a.words := by
  have hmade : a.determinized.automaton.WellFormed := wellFormed_determinizedWithin a none
  rw [← determinized_determinized hwell, hmade.words_determinized, hwell.words_determinized]

/-- The second time a word over the alphabet is accepted where it is spelled by a path through
listed states to a final one. -/
theorem accepted_run_again_iff_path (hwell : a.WellFormed) (hsimple : a.Simple)
    (hword : word ∈ a.words) :
    (a.determinized.automaton.determinized.automaton.run word).accepted = true ↔
      ∃ t ∈ a.determinized.automaton.finals,
        Path (a.eliminated.leaving a.determinized.automaton.states).transitions
          a.initial word t := by
  rw [← words_determinized_determinized hwell] at hword
  rw [determinized_determinized hwell, Subset.accepted_run_complete_complete
    hsimple.plain_eliminated a.quiet_eliminated hword, ← a.initial_eliminated]
  simp only [mem_reached_iff_path, and_comm]
  rfl

/-- **Applied to what it has made, the construction keeps what can be accepted by way of the states
that it lists by themselves.** So no word comes in, and a word stays if its run meets only sets all
of whose parts are listed. -/
theorem accepted_run_again (hwell : a.WellFormed) (hsimple : a.Simple) (word : List Symbol) :
    ((a.determinized.automaton.determinized.automaton.run word).accepted = true ↔
      word ∈ a.words ∧ ∃ t ∈ a.determinized.automaton.finals,
        Path (a.eliminated.leaving a.determinized.automaton.states).transitions
          a.initial word t) ∧
    ((a.determinized.automaton.determinized.automaton.run word).accepted = true →
      (a.determinized.automaton.run word).accepted = true) ∧
    ((∀ m ∈ (a.determinized.automaton.run word).moves, ∀ p ∈ m.target.parts,
        p ∈ a.determinized.automaton.states) →
      (a.determinized.automaton.determinized.automaton.run word).accepted =
        (a.determinized.automaton.run word).accepted) := by
  have hplain := hsimple.plain_eliminated
  have hquiet := a.quiet_eliminated
  have hagain := words_determinized_determinized hwell
  have hread : (a.determinized.automaton.determinized.automaton.run word).accepted = true →
      word ∈ a.words := by
    rw [determinized_determinized hwell, ← hagain]
    exact mem_words_of_accepted_run
  refine ⟨⟨fun haccepted => ⟨hread haccepted, ?_⟩, fun ⟨hword, hpath⟩ => ?_⟩,
    fun haccepted => ?_, fun hparts => ?_⟩
  · exact (accepted_run_again_iff_path hwell hsimple (hread haccepted)).mp haccepted
  · exact (accepted_run_again_iff_path hwell hsimple hword).mpr hpath
  · have hword := hread haccepted
    rw [← hagain] at hword
    rw [determinized_determinized hwell] at haccepted
    exact Subset.accepted_run_complete_of_complete hplain hquiet hword haccepted
  · by_cases hword : word ∈ a.words
    · rw [← hagain] at hword
      rw [determinized_determinized hwell]
      exact Subset.accepted_run_complete_complete_of_parts hplain hword hparts
    · have hforeign : word ∉ a.determinized.automaton.words := hwell.words_determinized ▸ hword
      rw [Bool.eq_false_iff.mpr (mt hread hword),
        Bool.eq_false_iff.mpr (mt mem_words_of_accepted_run hforeign)]

/-- One symbol leads to a set of two states that are listed by themselves too. -/
def listedPart : Automaton :=
  of (.simple "A") [.simple "B"] [.simple "A", .simple "B"] ["a", "b"]
    [⟨.simple "A", [.simple "A", .simple "B"], "a"⟩, ⟨.simple "A", [.simple "B"], "b"⟩]

/-- The run meets the set, and nothing is lost. -/
theorem accepted_run_again_listedPart :
    listedPart.WellFormed ∧ listedPart.Simple ∧
      (listedPart.determinized.automaton.run ["a"]).accepted = true ∧
      (listedPart.determinized.automaton.determinized.automaton.run ["a"]).accepted = true ∧
      ∃ t ∈ listedPart.determinized.automaton.finals,
        Path (listedPart.eliminated.leaving listedPart.determinized.automaton.states).transitions
          listedPart.initial ["a"] t := by
  have hwell : listedPart.WellFormed := wellFormed_of ..
  obtain ⟨hpath, -, hparts⟩ := accepted_run_again hwell (by decide) ["a"]
  have hfirst : (listedPart.determinized.automaton.run ["a"]).accepted = true := by decide
  have hsecond := (hparts (by decide)).trans hfirst
  exact ⟨hwell, by decide, hfirst, hsecond, (hpath.mp hsecond).2⟩

/-- A state that leads to a set of two that are never met by themselves. -/
def fork : Automaton :=
  of (.simple "A") [.simple "B"] [.simple "A", .simple "B", .simple "C"] ["a"]
    [⟨.simple "A", [.simple "B", .simple "C"], "a"⟩]

/-- The construction can lose a word when it is applied to what it has made: the set is final the
first time, and no part of it is the second time. -/
theorem not_forall_accepted_run_again_eq :
    ¬∀ a : Automaton, a.WellFormed → (∀ s ∈ a.mentioned, s.isSimple) → a.Simple →
      a.SourcesListed → a.SymbolsListed → ∀ word,
        ((a.determinized.automaton.determinized.automaton.run word).accepted = true ↔
          (a.determinized.automaton.run word).accepted = true) := by
  intro h
  have hiff := h fork (wellFormed_of ..) (by decide) (by decide) (by decide) (by decide) ["a"]
  have hfirst : (fork.determinized.automaton.run ["a"]).accepted = true := by decide
  have hsecond :
      (fork.determinized.automaton.determinized.automaton.run ["a"]).accepted = false := by decide
  rw [hfirst, hsecond] at hiff
  exact Bool.false_ne_true (hiff.mpr rfl)

end Automaton

end Determinize
