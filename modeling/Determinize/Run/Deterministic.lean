import Determinize.Index
/-!
# Running a deterministic automaton

A run reads a word symbol by symbol and moves to the first stored successor each time. It stops
before the end of the word at a symbol that is not in the alphabet, and at a symbol on which the
state it is in leads nowhere; both reject the word.

## Main definitions

* `Move`, `Ending`, `Run` — the steps of a run and how it ended
* `Automaton.runFrom`, `Automaton.run` — running a word from a given state and from the start
* `Run.accepted`, `Run.trace` — the verdict and the account of the run

## Implementation notes

What has no text of its own cannot be a symbol of a word. `Run.meeting` adds such a thing behind
the word: a run that got that far stops there.
-/

namespace Determinize

/-- One step of a run. -/
structure Move where
  /-- The symbol that was read. -/
  symbol : Symbol
  /-- The state the run left. -/
  source : State
  /-- The state the run came to. -/
  target : State
deriving DecidableEq

/-- How a run ended. -/
inductive Ending where
  /-- The word was read to its end. -/
  | read (accepted : Bool) (last : State)
  /-- Something that is not in the alphabet came next. -/
  | foreign (shown : String)
  /-- The state leads nowhere on the symbol that came next. -/
  | stuck (state : State) (symbol : Symbol)
deriving DecidableEq

/-- The course of a run. -/
structure Run where
  /-- The state the run started in. -/
  start : State
  /-- The steps made. -/
  moves : List Move
  /-- How it ended. -/
  ending : Ending
deriving DecidableEq

namespace Automaton

/-- Where a run in the state `s` goes on `x`. -/
def next? (index : Index) (s : State) (x : Symbol) : Option State := (index.successors s x).head?

/-- The run on a word from the state `s`, with the table of the transitions. -/
def runFrom (a : Automaton) (index : Index) (s : State) : List Symbol → Run
  | [] => ⟨s, [], .read (a.isFinal s) s⟩
  | x :: rest =>
    if x ∈ a.alphabet then
      match next? index s x with
      | none => ⟨s, [], .stuck s x⟩
      | some t =>
        let r := a.runFrom index t rest
        ⟨s, ⟨x, s, t⟩ :: r.moves, r.ending⟩
    else ⟨s, [], .foreign x⟩

/-- The run on a word from the initial state. -/
def run (a : Automaton) (word : List Symbol) : Run := a.runFrom a.index a.initial word

end Automaton

namespace Run

/-- Whether the word was read to its end and the run is in a final state then. -/
def accepted (r : Run) : Bool :=
  match r.ending with
  | .read b _ => b
  | _ => false

/-- The run on the word with something behind it that is no symbol. -/
def meeting (r : Run) (shown : String) : Run :=
  match r.ending with
  | .read _ _ => { r with ending := .foreign shown }
  | _ => r

/-- The account of the run, a line for the start, for each step and for the end. -/
def trace (r : Run) : List String :=
  ("Start state: " ++ r.start.text) :: r.moves.map moveLine ++ [endLine r.ending]
where
  /-- The line of a step. -/
  moveLine (m : Move) : String :=
    "  Input '" ++ m.symbol ++ "': " ++ m.source.text ++ " -> " ++ m.target.text
  /-- The line of the end. -/
  endLine : Ending → String
    | .read b s =>
      "Ended in " ++ (if b then "accepting" else "non-accepting") ++ " state: " ++ s.text
    | .foreign shown => "Error: Symbol '" ++ shown ++ "' is not in the alphabet"
    | .stuck s x =>
      "Error: No transition defined for state " ++ s.text ++ " with symbol '" ++ x ++ "'"

end Run

end Determinize
