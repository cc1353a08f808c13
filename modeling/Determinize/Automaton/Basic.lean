import Determinize.Transition
/-!
# Automata

One type serves for nondeterministic automata, with any number of targets and with epsilon
transitions, and for deterministic ones, with exactly one target per state and symbol. All parts
are lists, since their order is what tables, graphs and constructions show.

## Main definitions

* `Automaton` — the five parts
* `Automaton.of` — the parts put in order: states, final states and symbols once each, and no
  epsilon symbol in the alphabet
* `Automaton.WellFormed` — what `Automaton.of` guarantees
* `Automaton.describe`, `Automaton.summary` — the automaton as text, in full and on one line

## Implementation notes

The guarantees are a predicate and not fields: a single part may be replaced afterwards without
any check, and every operation of the library is defined for such automata too. Sources and
targets of transitions need not be listed as states.
-/

namespace Determinize

/-- A finite automaton. -/
structure Automaton where
  /-- The state a run starts in. -/
  initial : State
  /-- The states in which a word is accepted. -/
  finals : List State
  /-- The listed states. -/
  states : List State
  /-- The input symbols. -/
  alphabet : List Symbol
  /-- The transitions, in the order they were given. -/
  transitions : List Transition
deriving DecidableEq

namespace Automaton

/-- The automaton with the given parts: repeated states, final states and symbols are dropped after
their first occurrence, and epsilon symbols are no input symbols. -/
def of (initial : State) (finals states : List State) (alphabet : List Symbol)
    (transitions : List Transition) : Automaton where
  initial := initial
  finals := finals.eraseDups
  states := states.eraseDups
  alphabet := (alphabet.filter fun a => !a.isEpsilon).eraseDups
  transitions := transitions

/-- States, final states and symbols occur once each, and no symbol is an epsilon symbol. -/
structure WellFormed (a : Automaton) : Prop where
  /-- No state is listed twice. -/
  nodup_states : a.states.Nodup
  /-- No final state is listed twice. -/
  nodup_finals : a.finals.Nodup
  /-- No symbol is listed twice. -/
  nodup_alphabet : a.alphabet.Nodup
  /-- The alphabet holds input symbols only. -/
  not_isEpsilon : ∀ x ∈ a.alphabet, x.isEpsilon = false

/-- An automaton with the same parts, put in order again. -/
def copy (a : Automaton) : Automaton := of a.initial a.finals a.states a.alphabet a.transitions

/-- Whether a word may end in the state. -/
def isFinal (a : Automaton) (s : State) : Bool := s ∈ a.finals

/-- Whether some transition reads nothing. -/
def hasEpsilon (a : Automaton) : Bool := a.transitions.any (·.isEpsilon)

/-- The states the automaton speaks of: listed, initial, and at either end of a transition. -/
def mentioned (a : Automaton) : List State :=
  a.initial :: a.states ++ a.transitions.flatMap fun t => t.source :: t.targets

/-! ### Text -/

/-- The automaton in full, one transition a line. -/
def describe (a : Automaton) : String :=
  "\n".intercalate <|
    ["States: " ++ State.listText a.states,
     "Alphabet: " ++ ", ".intercalate a.alphabet,
     "Start State: " ++ a.initial.text,
     "Final States: " ++ State.listText a.finals,
     "Transitions:"] ++ a.transitions.map fun t => "  " ++ t.text

/-- The automaton on one line, with `n` for the number of its transitions. -/
def summaryOf (a : Automaton) (n : Nat) : String :=
  "Automaton(initial=" ++ a.initial.text ++ ", states=" ++ toString a.states.length ++
    ", finals=" ++ toString a.finals.length ++ ", transitions=" ++ toString n ++ ")"

/-- The automaton on one line: its initial state and how much of everything it has. -/
def summary (a : Automaton) : String := a.summaryOf a.transitions.length

@[simp] theorem isFinal_iff {a : Automaton} {s : State} : a.isFinal s = true ↔ s ∈ a.finals := by
  simp [isFinal]

theorem hasEpsilon_iff {a : Automaton} :
    a.hasEpsilon = true ↔ ∃ t ∈ a.transitions, t.isEpsilon = true := by
  simp [hasEpsilon]

end Automaton

end Determinize
