import Determinize.Automaton.Basic
import Determinize.Order.Distinct
import Determinize.State.Reading
/-!
# Reading transitions and automata

The parts of a transition or an automaton may be values of any kind. Each part is checked in a
fixed order, and the first fault is the one reported.

## Main definitions

* `Transition.ofRaw` — a transition from its source, its next states and its symbol
* `Automaton.ofRaw` — an automaton from its five parts

## Main results

* `Automaton.wellFormed_of` — what `Automaton.of` makes is well formed
-/

namespace Determinize

/-- Whether a value that should be a symbol is an epsilon symbol. -/
def Symbol.isEpsilonRaw : Raw → Except Fault Bool
  | .str a => .ok (Symbol.isEpsilon a)
  | x => .error (.noAttribute x.kind "strip")

/-- The transition with the given parts. -/
def Transition.ofRaw (source next symbol : Raw) : Reading Transition := do
  if source.isMany then Reading.fail .manySources
  let a ← (symbol.symbol : Except Fault Symbol)
  let s ← (State.ofRaw source : Except Fault State)
  let targets ← (← next.collection "next states").mapM fun x => Reading.ofExcept (State.ofRaw x)
  return ⟨s, targets, a⟩

/-- The transition that a value is. -/
def Transition.ofValue : Raw → Except Fault Transition
  | .transition t => .ok t
  | x => .error (.notATransition x.kind)

namespace Automaton

/-- The automaton with the given parts. -/
def ofRaw (initial finals states alphabet transitions : Raw) : Reading Automaton := do
  if initial.isMany then Reading.fail .manyInitials
  let start ← (State.ofRaw initial : Except Fault State)
  let ends ← (← finals.collection "final states").mapM fun x => Reading.ofExcept (State.ofRaw x)
  let listed ← (← states.collection "states").mapM fun x => Reading.ofExcept (State.ofRaw x)
  let symbols ← (← alphabet.collection "alphabet").mapM fun x => Reading.ofExcept x.symbol
  let moves ← (← transitions.collection "transitions").mapM fun x =>
    Reading.ofExcept (Transition.ofValue x)
  return of start ends listed symbols moves

theorem wellFormed_of (initial : State) (finals states : List State) (alphabet : List Symbol)
    (transitions : List Transition) : (of initial finals states alphabet transitions).WellFormed where
  nodup_states := nodup_eraseDups _
  nodup_finals := nodup_eraseDups _
  nodup_alphabet := nodup_eraseDups _
  not_isEpsilon x hx := by
    simpa using (List.mem_filter.1 (List.mem_eraseDups.1 hx)).2

theorem WellFormed.filter_alphabet {a : Automaton} (h : a.WellFormed) :
    (a.alphabet.filter fun x => !x.isEpsilon) = a.alphabet :=
  List.filter_eq_self.2 fun x hx => by simp [h.not_isEpsilon x hx]

/-- An alphabet of input symbols that occur once each is taken over as it is. -/
theorem WellFormed.alphabet_of {a : Automaton} (h : a.WellFormed) (initial : State)
    (finals states : List State) (transitions : List Transition) :
    (of initial finals states a.alphabet transitions).alphabet = a.alphabet := by
  simp [of, h.filter_alphabet, eraseDups_eq_self h.nodup_alphabet]

/-- Copying an automaton that is well formed changes nothing. -/
theorem WellFormed.copy_eq {a : Automaton} (h : a.WellFormed) : a.copy = a := by
  simp [copy, of, h.filter_alphabet, eraseDups_eq_self h.nodup_finals,
    eraseDups_eq_self h.nodup_states, eraseDups_eq_self h.nodup_alphabet]

end Automaton

end Determinize
