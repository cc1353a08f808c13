import Determinize.Index
/-!
# Transition tables

A deterministic automaton is shown as a table with a row for each listed state and a column for
each symbol. A cell holds the first stored successor, or a dash where there is none. On request
the initial state and the final states are marked.
-/

namespace Determinize

/-- A table of texts. -/
structure Table where
  /-- The heads of the columns. -/
  columns : List String
  /-- The rows, each with a text for every column. -/
  rows : List (List String)
deriving DecidableEq

namespace Automaton

/-- The text of a cell: where the state leads on the symbol. -/
def cell (index : Index) (s : State) (x : Symbol) : String :=
  match index.successors s x with
  | [] => "-"
  | t :: _ => t.display

/-- The head of the row of a state. -/
def rowHead (a : Automaton) (marked : Bool) (s : State) : String :=
  s.display ++ (if marked ∧ s = a.initial then " (Start)" else "") ++
    if marked ∧ a.isFinal s then " (Final)" else ""

/-- The transition table. -/
def table (a : Automaton) (marked : Bool) : Table :=
  let index := a.index
  { columns := "State" :: a.alphabet
    rows := a.states.map fun s => a.rowHead marked s :: a.alphabet.map (cell index s) }

end Automaton

end Determinize
