import Determinize.Proofs.Minimal.Minimality
import Determinize.Proofs.Run.Paths
import Determinize.Proofs.Subset.Language
import Determinize.Proofs.Subset.Reachable

/-!
# The minimal automaton is determined by the language

An automaton in which nothing is missing and which has one state for each residual of its language
is the automaton of the residuals: its initial state is the language itself, a state is final if its
residual holds the empty word, and a symbol takes a residual to its residual by that symbol. None of
this speaks of the states. So two such automata with one language differ in the names of the states
only: each state goes to the state with the same residual.

Merging the blocks of what the subset construction makes gives such an automaton, if any word is
accepted at all. The language is that of the given automaton, so nothing else about it matters.

## Main definitions

* `Automaton.Isomorphism` — two automata are the same but for the names of their states
* `Automaton.OnePerResidual` — nothing is missing, and there is one state for each residual
* `Automaton.Matches` — states that accept the same words correspond

## Main results

* `Automaton.OnePerResidual.exists_isomorphism` — such automata with one language are isomorphic
* `Automaton.onePerResidual_minimized` — merging the blocks makes such an automaton
* `Automaton.isomorphism_minimized` — the minimal automaton is a canonical form of the language
-/

namespace Determinize

namespace Automaton

variable {a b : Automaton} {p q s t : State} {x : Symbol} {word : List Symbol}

/-- The function `f` takes the automaton `a` to the automaton `b`, listed state by listed state. -/
structure Isomorphism (a b : Automaton) (f : State → State) : Prop where
  /-- Different listed states go to different states. -/
  injOn : Set.InjOn f {s | s ∈ a.states}
  /-- The listed states of the one go to those of the other, each as often as it is listed. -/
  map_states : (a.states.map f).Perm b.states
  /-- The initial state goes to the initial state. -/
  map_initial : f a.initial = b.initial
  /-- The final states of the one go to those of the other. -/
  map_finals : (a.finals.map f).Perm b.finals
  /-- No other listed state goes to a final state. -/
  mem_finals_iff : ∀ s ∈ a.states, f s ∈ b.finals ↔ s ∈ a.finals
  /-- The alphabets have the same symbols. -/
  mem_alphabet_iff : ∀ x, x ∈ a.alphabet ↔ x ∈ b.alphabet
  /-- Where a symbol takes a listed state, it takes the state that this one goes to. -/
  map_next : ∀ s ∈ a.states, ∀ x ∈ a.alphabet, ∃ t ∈ a.states,
    successors a.transitions s x = [t] ∧ successors b.transitions (f s) x = [f t]

/-- Nothing is missing, and what is accepted from the listed states are the residuals of the
language, each from one state. -/
structure OnePerResidual (a : Automaton) (next : State → Symbol → State) : Prop
    extends MovesBy a next where
  /-- No state is listed twice. -/
  nodup_states : a.states.Nodup
  /-- No final state is listed twice. -/
  nodup_finals : a.finals.Nodup
  /-- Final states are listed. -/
  finals_subset : a.finals ⊆ a.states
  /-- From different states different words are accepted. -/
  eq_of_acceptedFrom_eq : ∀ p ∈ a.states, ∀ q ∈ a.states,
    a.acceptedFrom p = a.acceptedFrom q → p = q
  /-- What is accepted from the states are the residuals. -/
  residuals_eq : a.residuals = a.acceptedFrom '' {s | s ∈ a.states}

/-! ### Automata with one state for each residual -/

theorem nil_mem_acceptedFrom : [] ∈ a.acceptedFrom s ↔ s ∈ a.finals := by
  rw [mem_acceptedFrom, outcome_nil, Option.some_inj, isFinal_iff]
  exact and_iff_right fun x hx => absurd hx List.not_mem_nil

/-- What remains to be accepted after a symbol is what is accepted from the next state. -/
theorem MovesBy.acceptedFrom_next {next : State → Symbol → State} (h : a.MovesBy next)
    (hs : s ∈ a.states) (hx : x ∈ a.alphabet) :
    a.acceptedFrom (next s x) = (a.acceptedFrom s).leftQuotient [x] := by
  have hword : [x] ∈ a.words := by
    intro y hy
    rwa [List.mem_singleton.mp hy]
  exact (h.leftQuotient_acceptedFrom hs hword).symm

theorem residuals_congr (halphabet : ∀ x, x ∈ a.alphabet ↔ x ∈ b.alphabet)
    (hlanguage : a.language = b.language) : a.residuals = b.residuals := by
  have hwords : a.words = b.words := by
    ext word
    rw [mem_words, mem_words]
    exact forall_congr' fun x => imp_congr_right fun _ => halphabet x
  rw [residuals, residuals, hwords, hlanguage]

/-- A function that is injective on a list and takes it to the members of another one. -/
theorem perm_map_of_injOn {f : State → State} {l k : List State} (hl : l.Nodup) (hk : k.Nodup)
    (hinj : ∀ p ∈ l, ∀ q ∈ l, f p = f q → p = q) (hmem : ∀ t, t ∈ k ↔ ∃ s ∈ l, f s = t) :
    (l.map f).Perm k := by
  have hnodup : (l.map f).Nodup := List.Nodup.map_on hinj hl
  rw [List.perm_ext_iff_of_nodup hnodup hk]
  intro t
  rw [List.mem_map, hmem]

/-- The function takes each listed state of `a` to a listed state of `b` from which the same words
are accepted. -/
structure Matches (a b : Automaton) (f : State → State) : Prop where
  /-- Listed states go to listed states. -/
  mem : ∀ s ∈ a.states, f s ∈ b.states
  /-- The same words are accepted. -/
  acceptedFrom_eq : ∀ s ∈ a.states, b.acceptedFrom (f s) = a.acceptedFrom s

namespace Matches

variable {f : State → State} {next next' : State → Symbol → State} (h : a.Matches b f)
include h

theorem mem_finals_iff (hs : s ∈ a.states) : f s ∈ b.finals ↔ s ∈ a.finals := by
  rw [← nil_mem_acceptedFrom, h.acceptedFrom_eq s hs, nil_mem_acceptedFrom]

theorem eq_of_eq (ha : a.OnePerResidual next) (hp : p ∈ a.states) (hq : q ∈ a.states)
    (hpq : f p = f q) : p = q := by
  refine ha.eq_of_acceptedFrom_eq p hp q hq ?_
  rw [← h.acceptedFrom_eq p hp, ← h.acceptedFrom_eq q hq, hpq]

/-- The state that accepts the same words is the one that the function gives. -/
theorem eq_of_acceptedFrom_eq (hb : b.OnePerResidual next') (hs : s ∈ a.states) (ht : t ∈ b.states)
    (hst : a.acceptedFrom s = b.acceptedFrom t) : f s = t :=
  hb.eq_of_acceptedFrom_eq _ (h.mem s hs) t ht ((h.acceptedFrom_eq s hs).trans hst)

/-- Each listed state of `b` has a residual of the language of `a`, so it is met. -/
theorem exists_of_mem (ha : a.OnePerResidual next) (hb : b.OnePerResidual next')
    (hresiduals : a.residuals = b.residuals) (ht : t ∈ b.states) : ∃ s ∈ a.states, f s = t := by
  have hresidual : b.acceptedFrom t ∈ a.residuals := by
    rw [hresiduals, hb.residuals_eq]
    exact ⟨t, ht, rfl⟩
  rw [ha.residuals_eq] at hresidual
  obtain ⟨s, hs, hst⟩ := hresidual
  exact ⟨s, hs, h.eq_of_acceptedFrom_eq hb hs ht hst⟩

/-- Both next states have the residual by one more symbol. -/
theorem map_next (ha : a.OnePerResidual next) (hb : b.OnePerResidual next') (hs : s ∈ a.states)
    (hx : x ∈ a.alphabet) (hx' : x ∈ b.alphabet) : f (next s x) = next' (f s) x := by
  refine h.eq_of_acceptedFrom_eq hb (ha.next_mem s hs x hx)
    (hb.next_mem _ (h.mem s hs) x hx') ?_
  rw [ha.acceptedFrom_next hs hx, hb.acceptedFrom_next (h.mem s hs) hx', h.acceptedFrom_eq s hs]

theorem isomorphism (ha : a.OnePerResidual next) (hb : b.OnePerResidual next')
    (halphabet : ∀ x, x ∈ a.alphabet ↔ x ∈ b.alphabet) (hlanguage : a.language = b.language) :
    a.Isomorphism b f where
  injOn _ hp _ hq := h.eq_of_eq ha hp hq
  map_states := by
    have hresiduals := residuals_congr halphabet hlanguage
    refine perm_map_of_injOn ha.nodup_states hb.nodup_states
      (fun p hp q hq => h.eq_of_eq ha hp hq) fun t => ⟨h.exists_of_mem ha hb hresiduals, ?_⟩
    rintro ⟨s, hs, rfl⟩
    exact h.mem s hs
  map_initial := by
    refine h.eq_of_acceptedFrom_eq hb ha.initial_mem hb.initial_mem ?_
    rw [← language_eq_acceptedFrom, ← language_eq_acceptedFrom, hlanguage]
  map_finals := by
    have hresiduals := residuals_congr halphabet hlanguage
    refine perm_map_of_injOn ha.nodup_finals hb.nodup_finals
      (fun p hp q hq => h.eq_of_eq ha (ha.finals_subset hp) (ha.finals_subset hq)) fun t => ?_
    constructor
    · intro ht
      obtain ⟨s, hs, rfl⟩ := h.exists_of_mem ha hb hresiduals (hb.finals_subset ht)
      exact ⟨s, (h.mem_finals_iff hs).mp ht, rfl⟩
    · rintro ⟨s, hs, rfl⟩
      exact (h.mem_finals_iff (ha.finals_subset hs)).mpr hs
  mem_finals_iff _ hs := h.mem_finals_iff hs
  mem_alphabet_iff := halphabet
  map_next s hs x hx := by
    have hx' : x ∈ b.alphabet := (halphabet x).mp hx
    refine ⟨next s x, ha.next_mem s hs x hx, ha.successors_eq s hs x hx, ?_⟩
    rw [hb.successors_eq _ (h.mem s hs) x hx', h.map_next ha hb hs hx hx']

end Matches

/-- Automata with one state for each residual are isomorphic if they have the same language. -/
theorem OnePerResidual.exists_isomorphism {next next' : State → Symbol → State}
    (ha : a.OnePerResidual next) (hb : b.OnePerResidual next')
    (halphabet : ∀ x, x ∈ a.alphabet ↔ x ∈ b.alphabet) (hlanguage : a.language = b.language) :
    ∃ f, a.Isomorphism b f := by
  have hex : ∀ s ∈ a.states, ∃ t ∈ b.states, b.acceptedFrom t = a.acceptedFrom s := by
    intro s hs
    have hresidual : a.acceptedFrom s ∈ b.residuals := by
      rw [← residuals_congr halphabet hlanguage, ha.residuals_eq]
      exact ⟨s, hs, rfl⟩
    rw [hb.residuals_eq] at hresidual
    exact hresidual
  choose! f hmem hf using hex
  have hmatches : a.Matches b f := ⟨hmem, hf⟩
  exact ⟨f, hmatches.isomorphism ha hb halphabet hlanguage⟩

/-! ### What merging the blocks leaves of a subset construction -/

/-- The language of the constructed automaton is that of the given one, over its alphabet. -/
theorem mem_language_determinized (hwell : a.WellFormed) (hsimple : a.Simple)
    (hsources : a.SourcesListed) :
    word ∈ a.determinized.automaton.language ↔ word ∈ a.words ∧ a.accepts word = true := by
  have hlanguage : word ∈ a.determinized.automaton.language ↔
      word ∈ a.determinized.automaton.words ∧
        (a.determinized.automaton.run word).accepted = true := Iff.rfl
  rw [hlanguage, ← hwell.words_determinized]
  refine and_congr_right fun hword => ?_
  rw [determinized_automaton,
    Subset.accepted_run_complete hsimple.plain_eliminated a.quiet_eliminated hword, accepts_iff]
  rw [hwell.words_determinized] at hword
  exact exists_final_eliminated hsources hword

theorem alphabet_minimized (hwell : a.WellFormed) :
    (a.determinized.automaton.minimized .byBlocks).alphabet = a.alphabet := by
  rw [← hwell.alphabet_determinized]
  exact alphabet_mergedByPartition

theorem mem_language_minimized (hwell : a.WellFormed) (hsimple : a.Simple)
    (hsources : a.SourcesListed) :
    word ∈ (a.determinized.automaton.minimized .byBlocks).language ↔
      word ∈ a.words ∧ a.accepts word = true := by
  have hlanguage : (a.determinized.automaton.minimized .byBlocks).language =
      a.determinized.automaton.language :=
    language_mergedByPartition (movesBy_determinized hsimple)
      (wellFormed_determinizedWithin a none).nodup_states
  rw [hlanguage, mem_language_determinized hwell hsimple hsources]

/-- If some word over the alphabet is accepted, the blocks make up an automaton with one state for
each residual. -/
theorem onePerResidual_minimized (hwell : a.WellFormed) (hsimple : a.Simple)
    (hsources : a.SourcesListed) (hword : word ∈ a.words) (haccepts : a.accepts word = true) :
    ∃ next, (a.determinized.automaton.minimized .byBlocks).OnePerResidual next := by
  have hmoves := movesBy_determinized hsimple
  have hdet : a.determinized.automaton.WellFormed := wellFormed_determinizedWithin a none
  have hcomplete : a.determinized.automaton.Complete :=
    Subset.complete_course (wellFormed_eliminated hwell)
  have hreached : ∀ s ∈ a.determinized.automaton.states,
      ∃ word ∈ a.determinized.automaton.words,
        word.foldl (Subset.follow a.eliminated.index) a.determinized.automaton.initial = s :=
    fun s hs => Subset.exists_word_of_mem_states (wellFormed_eliminated hwell).not_isEpsilon hs
  have hnonempty : (a.determinized.automaton.minimized .byBlocks).language ≠ 0 := by
    intro hempty
    have hmem := (mem_language_minimized hwell hsimple hsources).mpr ⟨hword, haccepts⟩
    rw [hempty] at hmem
    exact Language.notMem_zero word hmem
  obtain ⟨next, hnext⟩ := exists_movesBy_mergedByPartition hmoves hdet.nodup_states
  refine ⟨next, hnext, nodup_states_mergedByPartition hdet.nodup_states,
    nodup_finals_mergedByPartition hdet.nodup_finals, fun s hs => ?_, fun p hp q hq heq => ?_,
    residuals_mergedByPartition hmoves hdet.nodup_states hreached⟩
  · obtain ⟨hs, hleft⟩ := mem_finals_mergedByPartition.mp hs
    exact mem_states_mergedByPartition.mpr ⟨hcomplete.finals_sublist.subset hs, hleft⟩
  · exact eq_of_acceptedFrom_eq hmoves hdet.nodup_states
      (Subset.acceptedFrom_trap hsimple.plain_eliminated) (fun h => hnonempty h.1) hp hq heq

/-- A word that is accepted is over the alphabet, if every symbol that is read is in it. -/
theorem mem_words_of_accepts (hsymbols : a.SymbolsListed) (h : a.accepts word = true) :
    word ∈ a.words := by
  intro x hx
  by_contra hforeign
  have hunread : ∀ e ∈ a.transitions, e.isEpsilon = false → e.symbol ≠ x := by
    rintro e he hread rfl
    exact hforeign (hsymbols e he hread)
  rw [accepts_eq_false_of_mem hx hunread] at h
  exact absurd h Bool.false_ne_true

/-- **The minimal automaton is a canonical form of the language.** Two automata over the same symbols
that accept the same words, and at least one, have isomorphic minimal automata. -/
theorem isomorphism_minimized (hawell : a.WellFormed) (hbwell : b.WellFormed)
    (hasimple : a.Simple) (hbsimple : b.Simple) (hasources : a.SourcesListed)
    (hbsources : b.SourcesListed) (hasymbols : a.SymbolsListed) (hbsymbols : b.SymbolsListed)
    (halphabet : ∀ x, x ∈ a.alphabet ↔ x ∈ b.alphabet)
    (haccepts : ∀ word, a.accepts word = b.accepts word) (hsome : ∃ word, a.accepts word = true) :
    ∃ f, (a.determinized.automaton.minimized .byBlocks).Isomorphism
      (b.determinized.automaton.minimized .byBlocks) f := by
  obtain ⟨word, hword⟩ := hsome
  obtain ⟨next, ha⟩ := onePerResidual_minimized hawell hasimple hasources
    (mem_words_of_accepts hasymbols hword) hword
  rw [haccepts] at hword
  obtain ⟨next', hb⟩ := onePerResidual_minimized hbwell hbsimple hbsources
    (mem_words_of_accepts hbsymbols hword) hword
  refine ha.exists_isomorphism hb (fun x => ?_) (Set.ext fun word => ?_)
  · rw [alphabet_minimized hawell, alphabet_minimized hbwell]
    exact halphabet x
  · have hwords : word ∈ a.words ↔ word ∈ b.words :=
      forall_congr' fun x => imp_congr_right fun _ => halphabet x
    have hmem : word ∈ (a.determinized.automaton.minimized .byBlocks).language ↔
        word ∈ (b.determinized.automaton.minimized .byBlocks).language := by
      rw [mem_language_minimized hawell hasimple hasources,
        mem_language_minimized hbwell hbsimple hbsources, hwords, haccepts]
    exact hmem

/-- An automaton that reads a single symbol, on a loop, accepts the words made of it. -/
theorem accepts_iff_of_loop (hbefore : Path a.transitions a.initial [] s)
    (hloop : Path a.transitions s [x] s) (hafter : Path a.transitions s [] t) (ht : t ∈ a.finals)
    (honly : ∀ e ∈ a.transitions, e.isEpsilon = false → e.symbol = x) :
    a.accepts word = true ↔ ∀ y ∈ word, y = x := by
  simp only [accepts_iff, mem_reached_iff_path]
  constructor
  · rintro ⟨t, hpath, -⟩ y hy
    obtain ⟨e, he, hread, rfl⟩ := hpath.exists_of_mem hy
    exact honly e he hread
  · intro hword
    have hround : Path a.transitions s word s := by
      induction word with
      | nil => exact .nil s
      | cons y word ih =>
        obtain rfl : y = x := hword y List.mem_cons_self
        exact hloop.append (ih fun z hz => hword z (List.mem_cons_of_mem y hz))
    have hpath := hbefore.append (hround.append hafter)
    rw [List.nil_append, List.append_nil] at hpath
    exact ⟨t, hpath, ht⟩

/-- A single final state with a loop on one of two symbols. -/
def loopOnZero : Automaton :=
  of (.simple "P") [.simple "P"] [.simple "P"] ["1", "0"] [⟨.simple "P", [.simple "P"], "0"⟩]

theorem accepts_silentCycle_eq_loopOnZero (word : List Symbol) :
    silentCycle.accepts word = loopOnZero.accepts word := by
  have hcycle : silentCycle.accepts word = true ↔ ∀ y ∈ word, y = "0" := by
    refine accepts_iff_of_loop (s := .simple "B") (t := .simple "C") ?_ ?_ ?_ (by decide) (by decide)
    · exact .silent (e := ⟨.simple "A", [.simple "B"], "λ"⟩) (by decide) (by decide) (by decide)
        (.nil _)
    · exact .read (e := ⟨.simple "B", [.simple "B"], "0"⟩) (by decide) (by decide) (by decide)
        (.nil _)
    · exact .silent (e := ⟨.simple "B", [.simple "C"], ""⟩) (by decide) (by decide) (by decide)
        (.nil _)
  have hloop : loopOnZero.accepts word = true ↔ ∀ y ∈ word, y = "0" := by
    refine accepts_iff_of_loop (s := .simple "P") (.nil _) ?_ (.nil _) (by decide) (by decide)
    exact .read (e := ⟨.simple "P", [.simple "P"], "0"⟩) (by decide) (by decide) (by decide)
      (.nil _)
  rw [Bool.eq_iff_iff, hcycle, hloop]

/-- The silent cycle and the loop accept the same words, and each minimal automaton has an initial
state and the trap. -/
theorem isomorphism_minimized_silentCycle_loopOnZero :
    (∃ f, (silentCycle.determinized.automaton.minimized .byBlocks).Isomorphism
      (loopOnZero.determinized.automaton.minimized .byBlocks) f) ∧
    silentCycle.WellFormed ∧ loopOnZero.WellFormed ∧ silentCycle.Simple ∧ loopOnZero.Simple ∧
    silentCycle.SourcesListed ∧ loopOnZero.SourcesListed ∧ silentCycle.SymbolsListed ∧
    loopOnZero.SymbolsListed ∧ (∀ x, x ∈ silentCycle.alphabet ↔ x ∈ loopOnZero.alphabet) ∧
    (∀ word, silentCycle.accepts word = loopOnZero.accepts word) ∧
    (∃ word, silentCycle.accepts word = true) ∧
    (silentCycle.determinized.automaton.minimized .byBlocks).states = [.simple "A", .trap] ∧
    (loopOnZero.determinized.automaton.minimized .byBlocks).states = [.simple "P", .trap] := by
  have hcycle : silentCycle.WellFormed := wellFormed_of ..
  have hloop : loopOnZero.WellFormed := wellFormed_of ..
  have halphabet : ∀ x, x ∈ silentCycle.alphabet ↔ x ∈ loopOnZero.alphabet := by
    have hperm : silentCycle.alphabet.Perm loopOnZero.alphabet := by decide
    exact fun x => hperm.mem_iff
  have hsome : ∃ word, silentCycle.accepts word = true := ⟨["0", "0"], by decide⟩
  exact ⟨isomorphism_minimized hcycle hloop (by decide) (by decide) (by decide) (by decide)
      (by decide) (by decide) halphabet accepts_silentCycle_eq_loopOnZero hsome,
    hcycle, hloop, by decide, by decide, by decide, by decide, by decide, by decide, halphabet,
    accepts_silentCycle_eq_loopOnZero, hsome, by decide, by decide⟩

end Automaton

end Determinize
