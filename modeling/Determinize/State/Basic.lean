import Determinize.Order.Ascending
/-!
# States

A state of an automaton is one of three things: a state the user named, a set of such states
that acts as one state, or the trap, the sink that a deterministic automaton falls into where
nothing else is left.

## Main definitions

* `Group` — two or more names, strictly ascending
* `State` — simple, composite or the trap
* `State.names`, `State.parts` — the simple states a state stands for
* `State.text`, `State.display` — how a state is written in messages, and in graphs and tables

## Implementation notes

The two conditions on the names of a composite state are fields of `Group`. So a set of simple
states has one composite state at most, and equality of states is equality of sets.
-/

namespace Determinize

/-- The names of two or more states, strictly ascending. -/
structure Group where
  /-- The names, in ascending order. -/
  names : List String
  /-- The names ascend, so none occurs twice. -/
  ascending : Ascending names
  /-- There are at least two names. -/
  two_le : 2 ≤ names.length
deriving DecidableEq

/-- A state of an automaton. -/
inductive State where
  /-- A state that the user named. -/
  | simple (name : String)
  /-- A set of named states that acts as one state. -/
  | composite (members : Group)
  /-- The sink that is added where a state and a symbol have no successor. -/
  | trap
deriving DecidableEq

instance : Inhabited State := ⟨.trap⟩

namespace State

/-- The names of the simple states that a state stands for; none for the trap. -/
def names : State → List String
  | simple n => [n]
  | composite g => g.names
  | trap => []

/-- The states a state stands for: the members of a composite state, in order, and otherwise the
state itself. -/
def parts : State → List State
  | simple n => [simple n]
  | composite g => g.names.map simple
  | trap => [trap]

/-- Whether the state is a set of named states. -/
def isComposite : State → Bool
  | composite _ => true
  | _ => false

/-- Whether the state is one that the user named. -/
def isSimple : State → Bool
  | simple _ => true
  | _ => false

/-- The bracket that opens the text of a composite state. -/
def openBracket : Char := '{'

/-- The bracket that closes the text of a composite state. -/
def closeBracket : Char := '}'

/-- The sign between the members in the text of a composite state. -/
def separator : Char := ','

/-- The text of a state in messages: a composite state shows its members in brackets. -/
def text : State → String
  | simple n => n
  | composite g =>
    String.singleton openBracket ++ (String.singleton separator).intercalate g.names ++
      String.singleton closeBracket
  | trap => "TRAP"

/-- The text of a state in graphs and tables: a composite state shows its members only. -/
def display : State → String
  | composite g => String.join g.names
  | s => s.text

@[simp] theorem names_simple (n : String) : (simple n).names = [n] := rfl

@[simp] theorem names_composite (g : Group) : (composite g).names = g.names := rfl

@[simp] theorem names_trap : trap.names = [] := rfl

/-- The parts of a state other than the trap are its names, as simple states. -/
theorem parts_eq_map_names {s : State} (h : s ≠ trap) : s.parts = s.names.map simple := by
  cases s with
  | simple n => rfl
  | composite g => rfl
  | trap => exact absurd rfl h

theorem parts_ne_nil (s : State) : s.parts ≠ [] := by
  cases s with
  | simple n => simp [parts]
  | composite g =>
    intro h
    have := g.two_le
    simp [List.map_eq_nil_iff.1 h] at this
  | trap => simp [parts]

theorem ascending_names (s : State) : Ascending s.names := by
  cases s with
  | simple n => simp [Ascending]
  | composite g => exact g.ascending
  | trap => simp [Ascending]

end State

end Determinize
