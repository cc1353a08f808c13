import Determinize.Proofs.Run.Deterministic
import Mathlib.Computability.MyhillNerode
import Mathlib.Data.Set.Card

/-!
# Residuals of the language of a deterministic automaton

What remains to be accepted after a word is a residual of the language. Where no transition is
missing, the residual by a word is what is accepted from the state that the word leads to, so if
every listed state is led to, the residuals are what is accepted from the listed states.

## Main definitions

* `Automaton.words` — the words over the alphabet
* `Automaton.acceptedFrom`, `Automaton.language` — the words accepted from a state and at the start
* `Automaton.residuals` — the left quotients of the language by the words over the alphabet
* `Automaton.Separated` — two states that some word over the alphabet tells apart

## Main results

* `Automaton.MovesBy.acceptedFrom_eq_iff` — indistinct states are those that accept the same words
* `Automaton.MovesBy.residuals_eq_image` — residuals and states

## Implementation notes

Symbols are strings, of which the alphabet has finitely many, so languages are restricted to words
over the alphabet by their definition and not by their type.
-/

namespace Determinize

namespace Automaton

variable {a : Automaton} {p q s : State} {word : List Symbol}

/-- The words over the alphabet. -/
def words (a : Automaton) : Set (List Symbol) := {word | ∀ x ∈ word, x ∈ a.alphabet}

/-- The words over the alphabet that the run from `s` accepts. -/
def acceptedFrom (a : Automaton) (s : State) : Language Symbol :=
  {word | word ∈ a.words ∧ (a.runFrom a.index s word).accepted = true}

/-- The words over the alphabet that the run accepts. -/
def language (a : Automaton) : Language Symbol :=
  {word | word ∈ a.words ∧ (a.run word).accepted = true}

/-- The residuals of the language by words over the alphabet. -/
def residuals (a : Automaton) : Set (Language Symbol) := a.language.leftQuotient '' a.words

/-- Some word over the alphabet is accepted from one of the states and not from the other. -/
def Separated (a : Automaton) (p q : State) : Prop :=
  ∃ word ∈ a.words, (a.runFrom a.index p word).accepted ≠ (a.runFrom a.index q word).accepted

theorem mem_words : word ∈ a.words ↔ ∀ x ∈ word, x ∈ a.alphabet := Iff.rfl

/-- A run that accepts has read symbols of the alphabet. -/
theorem mem_words_of_accepted_run (h : (a.run word).accepted = true) : word ∈ a.words := by
  intro x hx
  by_contra hforeign
  rw [accepted_run, outcome_eq_none_of_mem hx hforeign] at h
  exact Bool.false_ne_true h

theorem mem_acceptedFrom :
    word ∈ a.acceptedFrom s ↔ word ∈ a.words ∧ a.outcome s word = some true := by
  refine and_congr_right fun _ => ?_
  rw [accepted_runFrom]
  cases a.outcome s word with
  | none => simp
  | some b => simp

theorem language_eq_acceptedFrom : a.language = a.acceptedFrom a.initial := rfl

/-- States that accept different words are separated. -/
theorem separated_of_acceptedFrom_ne (h : a.acceptedFrom p ≠ a.acceptedFrom q) :
    a.Separated p q := by
  by_contra hseparated
  refine h (Set.ext fun word => and_congr_right fun hword => ?_)
  by_contra hne
  exact hseparated ⟨word, hword, fun heq => hne (by rw [heq])⟩

/-! ### Where no transition is missing -/

namespace MovesBy

variable {next : State → Symbol → State} (h : a.MovesBy next)
include h

/-- Listed states are indistinct if they accept the same words over the alphabet. -/
theorem acceptedFrom_eq_iff (hp : p ∈ a.states) (hq : q ∈ a.states) :
    a.acceptedFrom p = a.acceptedFrom q ↔ a.Indistinct p q := by
  constructor
  · intro heq word
    by_cases hword : word ∈ a.words
    · have hiff : word ∈ a.acceptedFrom p ↔ word ∈ a.acceptedFrom q := by rw [heq]
      rw [mem_acceptedFrom, mem_acceptedFrom, and_congr_right_iff, h.outcome_eq hp hword,
        h.outcome_eq hq hword, Option.some_inj, Option.some_inj] at hiff
      rw [h.outcome_eq hp hword, h.outcome_eq hq hword, Bool.eq_iff_iff.mpr (hiff hword)]
    · -- a symbol that is not in the alphabet stops both runs
      obtain ⟨x, hx, hforeign⟩ : ∃ x ∈ word, x ∉ a.alphabet := by
        simpa [mem_words] using hword
      rw [outcome_eq_none_of_mem hx hforeign, outcome_eq_none_of_mem hx hforeign]
  · intro hindistinct
    ext word
    rw [mem_acceptedFrom, mem_acceptedFrom, hindistinct word]

/-- What remains to be accepted after a word is what is accepted from where the word leads. -/
theorem leftQuotient_acceptedFrom (hs : s ∈ a.states) (hword : word ∈ a.words) :
    (a.acceptedFrom s).leftQuotient word = a.acceptedFrom (word.foldl next s) := by
  ext rest
  have hwords : word ++ rest ∈ a.words ↔ rest ∈ a.words := by
    simp only [mem_words, List.mem_append]
    exact ⟨fun hall x hx => hall x (Or.inr hx), fun hrest x hx => hx.elim (hword x) (hrest x)⟩
  rw [Language.mem_leftQuotient, mem_acceptedFrom, mem_acceptedFrom, h.outcome_append hs hword,
    hwords]

/-- If every listed state is led to by some word, the residuals are what is accepted from the listed
states. -/
theorem residuals_eq_image
    (hreached : ∀ s ∈ a.states, ∃ word ∈ a.words, word.foldl next a.initial = s) :
    a.residuals = a.acceptedFrom '' {s | s ∈ a.states} := by
  rw [residuals, language_eq_acceptedFrom]
  ext l
  constructor
  · rintro ⟨word, hword, rfl⟩
    exact ⟨_, h.foldl_mem h.initial_mem hword,
      (h.leftQuotient_acceptedFrom h.initial_mem hword).symm⟩
  · rintro ⟨s, hs, rfl⟩
    obtain ⟨word, hword, rfl⟩ := hreached s hs
    exact ⟨word, hword, h.leftQuotient_acceptedFrom h.initial_mem hword⟩

end MovesBy

end Automaton

end Determinize
