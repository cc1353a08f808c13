import Determinize.Text.Quoted
/-!
# Faults

Everything that can be wrong with the input of an operation, by cause, and the one text of each
cause. A fault that is about a value of the wrong kind carries the name of the kind it met; one
that is about a particular text carries the text.

## Main definitions

* `Fault` — the causes
* `Fault.message` — what the user is told
* `Fault.Category`, `Fault.category` — the categories that a caller can tell apart
* `Fault.isIncomplete` — the faults of a form that is not filled in yet
-/

namespace Determinize

/-- What can be wrong with the input of an operation. -/
inductive Fault where
  /-- A state was to be made of a name, and something else was given. -/
  | notAName (kind : String)
  /-- One state was expected, and something else was given. -/
  | notAState (kind : String)
  /-- Brackets without a name between them. -/
  | emptyComposite (written : String)
  /-- Brackets around a single name. -/
  | lonelyComposite (written : String)
  /-- A member of a composite state is not a simple state. -/
  | memberNotSimple
  /-- A composite state was to be made of fewer than two states. -/
  | tooFewMembers
  /-- Several states were given as the source of a transition. -/
  | manySources
  /-- Several states were given as the initial state. -/
  | manyInitials
  /-- A symbol is not a text. -/
  | notASymbol (kind : String)
  /-- Something among the transitions is no transition. -/
  | notATransition (kind : String)
  /-- The elements of something that has none were asked for. -/
  | notIterable (kind : String)
  /-- Something that cannot be a member of a set or the key of a table was used as one. -/
  | unhashable (kind : String)
  /-- A value of this kind has no such attribute. -/
  | noAttribute (kind name : String)
  /-- Two values of these kinds have no order. -/
  | unordered (left right : String)
  /-- The step limit of a construction is no positive whole number. -/
  | badLimit (shown : String)
  /-- There is no such way to minimize. -/
  | unknownMode (shown : String)
  /-- A replay has no such step. -/
  | noSuchStep (last : Nat) (shown : String)
  /-- Nothing is kept under the name. -/
  | unknownName (name : String)
  /-- The form names no initial state. -/
  | noInitial
  /-- The form names no final state. -/
  | noFinal
  /-- No row of the form describes a transition. -/
  | noTransition
  /-- A name in the form holds a bracket. -/
  | bracketInName (name : String)
deriving DecidableEq, Repr

namespace Fault

/-- What the user is told. -/
def message : Fault → String
  | notAName kind => "Expected a state name (str), got " ++ kind
  | notAState kind => "Expected a single state (str), got " ++ kind
  | emptyComposite written => "Empty composite state: " ++ Text.quoted written
  | lonelyComposite written => "Composite state with a single member: " ++ Text.quoted written
  | memberNotSimple => "Composite states are built from simple states only"
  | tooFewMembers => "A composite state needs at least two members"
  | manySources => "Expected a single state for a transition source"
  | manyInitials => "Expected a single initial state"
  | notASymbol kind => "Expected a string symbol, got " ++ kind
  | notATransition kind => "Expected a Transition, got " ++ kind
  | notIterable kind => "'" ++ kind ++ "' object is not iterable"
  | unhashable kind => "unhashable type: '" ++ kind ++ "'"
  | noAttribute kind name => "'" ++ kind ++ "' object has no attribute '" ++ name ++ "'"
  | unordered left right =>
    "'<' not supported between instances of '" ++ left ++ "' and '" ++ right ++ "'"
  | badLimit shown => "step_limit must be a positive integer or None, got " ++ shown
  | unknownMode shown =>
    "Unknown minimization mode " ++ shown ++ ", expected one of single, converge, partition"
  | noSuchStep last shown => "Step must be between 1 and " ++ toString last ++ ", got " ++ shown
  | unknownName name => Text.quoted name
  | noInitial => "An initial state is required"
  | noFinal => "At least one final state is required"
  | noTransition => "At least one transition is required"
  | bracketInName name =>
    "State names cannot contain the \"\x7b\" or \"\x7d\" character: " ++ Text.quoted name

/-- The categories of faults that a caller can tell apart. -/
inductive Category where
  /-- A value of the wrong kind. -/
  | kind
  /-- A value of the right kind that cannot be used. -/
  | value
  /-- A form that is not filled in yet or has to be corrected. -/
  | form
  /-- An attribute that a value does not have. -/
  | attribute
  /-- A name under which nothing is kept. -/
  | name
deriving DecidableEq, Repr

/-- The category of the fault. -/
def category : Fault → Category
  | emptyComposite _ | lonelyComposite _ | tooFewMembers | badLimit _ | unknownMode _
  | noSuchStep .. => .value
  | noInitial | noFinal | noTransition | bracketInName _ => .form
  | noAttribute .. => .attribute
  | unknownName _ => .name
  | _ => .kind

/-- Whether the fault is one of a form that still has to be filled in or corrected. -/
def isIncomplete : Fault → Bool
  | noInitial | noFinal | noTransition | bracketInName _ => true
  | _ => false

end Fault

end Determinize
