import Determinize.Automaton.Reading
/-!
# Forms

An automaton can be entered as a form: a text for the initial state, a text with the final states
between commas, and rows with a source, a symbol and the next states between commas. White space
around names and symbols does not count, a row without a source or without next states is left out,
and a missing symbol stands for an epsilon transition.

## Main definitions

* `Cell` — what stands in a field of a form
* `Form`, `Form.Row` — the fields
* `Form.automaton` — the automaton that a form describes, or why it describes none

## Implementation notes

Names may not hold brackets. Since that is checked before a name is read as a state, every state
of the automaton is simple.
-/

namespace Determinize

/-- What stands in a field of a form. -/
inductive Cell where
  /-- Nothing. -/
  | blank
  /-- A text. -/
  | text (s : String)
  /-- Something of another kind. -/
  | other (kind : String)
deriving DecidableEq

namespace Cell

/-- The field with the given value. -/
def ofRaw (x : Raw) : Cell :=
  if x.isNothing then .blank
  else
    match x with
    | .str s => .text s
    | x => .other x.kind

/-- The text of the field without the white space around it. -/
def trimmed : Cell → Except Fault String
  | blank => .ok ""
  | text s => .ok (Text.trim s)
  | other kind => .error (.noAttribute kind "strip")

/-- The names between the commas of a text, without the white space around them; blank ones are
left out. -/
def namesIn (s : String) : List String :=
  ((s.toList.splitOn State.separator).map fun l => String.ofList (Text.trimChars l)).filter
    fun name => name ≠ ""

/-- The names in the field. -/
def names : Cell → Except Fault (List String)
  | blank => .ok []
  | text s => .ok (namesIn s)
  | other kind => .error (.noAttribute kind "split")

end Cell

/-- The fields of a form. -/
structure Form where
  /-- The initial state. -/
  initial : Cell
  /-- The final states. -/
  finals : Cell
  /-- The rows of the transition table, each a source, a symbol and the next states. -/
  rows : List (Cell × Cell × Cell)
deriving DecidableEq

namespace Form

/-- What a row of the form describes. -/
structure Entry where
  /-- The name of the source. -/
  source : String
  /-- The symbol. -/
  symbol : Symbol
  /-- The names of the next states. -/
  targets : List String
deriving DecidableEq

/-- Whether a name holds a bracket. -/
def hasBracket (name : String) : Bool :=
  name.toList.any fun c => c = State.openBracket ∨ c = State.closeBracket

/-- Refuses the first name that holds a bracket. -/
def checkNames (names : List String) : Except Fault Unit :=
  match names.find? hasBracket with
  | some name => .error (.bracketInName name)
  | none => .ok ()

/-- The symbol in the field; a blank field is an epsilon symbol. -/
def symbolIn (cell : Cell) : Except Fault Symbol :=
  cell.trimmed.map fun s => if s = "" then Symbol.epsilon else s

/-- What a row describes, if it has a source and next states. -/
def entry? (row : Cell × Cell × Cell) : Except Fault (Option Entry) := do
  let source ← row.1.trimmed
  let targets ← row.2.2.names
  if source = "" ∨ targets = [] then return none
  checkNames (source :: targets)
  return some ⟨source, ← symbolIn row.2.1, targets⟩

/-- The transition that an entry describes. -/
def Entry.transition (e : Entry) : Except Fault Transition := do
  return ⟨← State.ofText e.source, ← e.targets.mapM State.ofText, e.symbol⟩

/-- The names that an entry mentions. -/
def Entry.names (e : Entry) : List String := e.source :: e.targets

/-- The automaton with the given names and entries. States are listed in the order in which they
appear, the initial state first, and final states that appear nowhere else last. -/
def assemble (initial : String) (finals : List String) (entries : List Entry) :
    Except Fault Automaton := do
  let names := (initial :: entries.flatMap Entry.names ++ finals).eraseDups
  return .of (← State.ofText initial) (← finals.mapM State.ofText) (← names.mapM State.ofText)
    (entries.map (·.symbol)) (← entries.mapM Entry.transition)

/-- The automaton that the form describes. -/
def automaton (f : Form) : Except Fault Automaton := do
  let initial ← f.initial.trimmed
  let finals ← f.finals.names
  if initial = "" then throw .noInitial
  if finals = [] then throw .noFinal
  checkNames (initial :: finals)
  let entries := (← f.rows.mapM entry?).reduceOption
  if entries = [] then throw .noTransition
  assemble initial finals entries

example : Cell.namesIn " A,, B ," = ["A", "B"] := by decide

end Form

end Determinize
