import Determinize.Automaton.Basic
/-!
# Log events

What the operations of this library report while they work. An event is a value: what happened and
to which states. Its level, the part of the library it belongs to and its text are read off it.
The operations themselves return no events; beside each one stands a function that lists the
events of the same call.

## Main definitions

* `Event` — what happened
* `Event.level`, `Event.topic`, `Event.message` — how it is shown
-/

namespace Determinize

/-- How important an event is. -/
inductive Level where
  /-- A detail of a computation. -/
  | debug
  /-- A result. -/
  | info
  /-- Something that the user should correct. -/
  | warning
deriving DecidableEq, Repr

/-- The part of the library an event belongs to. -/
inductive Topic where
  /-- Epsilon closures and their elimination. -/
  | closure
  /-- Subset construction. -/
  | construction
  /-- Minimization. -/
  | minimization
  /-- Settings. -/
  | settings
  /-- The page. -/
  | page
deriving DecidableEq, Repr

/-- What is reported. -/
inductive Event where
  /-- The closure of a listed state. -/
  | closureOf (s : State) (l : List State)
  /-- The targets of a transition without epsilon steps. -/
  | closedMove (s : State) (x : Symbol) (l : List State)
  /-- A state was taken off the stack. -/
  | popped (s : State)
  /-- A state leads to another on a symbol. -/
  | moved (s : State) (x : Symbol) (t : State)
  /-- The trap was made, since a state leads nowhere on a symbol. -/
  | trapNeeded (s : State) (x : Symbol)
  /-- A construction met its limit. -/
  | interrupted (steps : Nat)
  /-- A construction came to its end. -/
  | built (steps states finals : Nat)
  /-- Two states were found equal; the first one is to go. -/
  | equal (remove keep : State)
  /-- A state was found equal to another and stays, being the trap. -/
  | trapStays
  /-- A state was found equal to another and stays. -/
  | stays (s : State)
  /-- A state is replaced by another. -/
  | merging (remove keep : State)
  /-- A minimization came to its end. -/
  | minimized (mode : String) (before after : Nat)
  /-- The log level asked for does not exist; the second text is used. -/
  | unknownLevel (name shown : String)
  /-- An automaton was entered. -/
  | entered (a : Automaton)
deriving DecidableEq

namespace Event

/-- How important the event is. -/
def level : Event → Level
  | built .. | minimized .. => .info
  | unknownLevel .. => .warning
  | _ => .debug

/-- The part of the library the event belongs to. -/
def topic : Event → Topic
  | closureOf .. | closedMove .. => .closure
  | popped .. | moved .. | trapNeeded .. | interrupted .. | built .. => .construction
  | equal .. | trapStays | stays .. | merging .. | minimized .. => .minimization
  | unknownLevel .. => .settings
  | entered .. => .page

/-- The text of the event. -/
def message : Event → String
  | closureOf s l => "Lambda-closure of " ++ s.text ++ ": [" ++ State.listText l ++ "]"
  | closedMove s x l =>
    "NFA closure: " ++ s.text ++ " -> " ++ x ++ " = [" ++ State.listText l ++ "]"
  | popped s => "Popped state: " ++ s.text
  | moved s x t => s.text ++ ", " ++ x ++ " -> " ++ t.text
  | trapNeeded s x => "Trap state needed for " ++ s.text ++ ", " ++ x
  | interrupted n => "Construction interrupted at step " ++ toString n
  | built steps states finals =>
    "DFA built in " ++ toString steps ++ " steps: " ++ toString states ++ " states, " ++
      toString finals ++ " final"
  | equal remove keep => "The two states are equal [" ++ remove.text ++ " = " ++ keep.text ++ "]"
  | trapStays => "Trap state will not be removed."
  | stays s => s.text ++ " will not be removed."
  | merging remove keep => "Merging " ++ remove.text ++ " into " ++ keep.text
  | minimized mode before after =>
    "DFA minimization (" ++ mode ++ ") complete: reduced from " ++ toString before ++ " to " ++
      toString after ++ " states"
  | unknownLevel name shown => "Unknown log level " ++ Text.quoted name ++ ", using " ++ shown
  | entered a => "Input automaton: " ++ a.summary

end Event

end Determinize
