import Determinize.Form
import Determinize.Minimal.Mode
/-!
# The memory of a page

Between two runs of the page a session keeps what the user typed, the table to be edited, and the
choices made. An edited table is kept under the version of the editor it was made with. Resetting
the form and loading an example begin a new version, so earlier edits are never seen again. What a
field holds is not checked before it is used, so it can be a value of any kind.

## Main definitions

* `Page.Example`, `Page.examples` — the automata offered for loading
* `Page.Session` — what is kept
* `Page.Session.reset`, `Page.Session.load` — the two buttons
* `Page.Action`, `Page.Session.act` — what the user does between two runs
-/

namespace Determinize

namespace Page

/-- A row of the transition table: source, symbol and next states. A cell may be missing. -/
abbrev EditedRow := Option String × Option String × Option String

/-- An automaton that is offered for loading. -/
structure Example where
  /-- The initial state. -/
  initial : String
  /-- The final states. -/
  finals : String
  /-- The rows of the transition table. -/
  rows : List (String × String × String)
  /-- What the automaton does. -/
  description : String
deriving DecidableEq

/-- The automata offered, in order. -/
def examples : List Example :=
  [⟨"A", "C", [("A", "0", "A,B"), ("A", "1", "A"), ("B", "1", "C")],
    "Binary strings ending with '01'"⟩,
   ⟨"A", "C", [("A", "", "B"), ("B", "1", "C")], "Lambda transition followed by '1'"⟩,
   ⟨"q0", "q2", [("q0", "a", "q0"), ("q0", "b", "q0"), ("q0", "a", "q1"), ("q1", "b", "q2")],
    "Strings over \x7ba, b\x7d ending with 'ab'"⟩,
   ⟨"S", "S", [("S", "a", "T"), ("T", "a", "S")], "Strings of even length containing only a's"⟩]

/-- A table of rows without missing cells, as the editor is given it. -/
abbrev GivenRows := List (String × String × String)

/-- The table of an empty form: one blank row. -/
def blankRows : GivenRows := [("", "", "")]

/-- The automaton at a place in the offer; a negative place counts from the end. -/
def exampleAt? (i : Int) : Option Example :=
  if 0 ≤ i then examples[i.toNat]? else examples.reverse[(-i - 1).toNat]?

/-- What the user can choose on the page. -/
structure Choices where
  /-- The way to minimize. -/
  mode : Mode
  /-- The step of the construction. -/
  step : Raw
  /-- The word to be tested. -/
  word : Raw
  /-- The place of the example that is selected. -/
  chosen : Int

/-- What is kept between two runs of the page. -/
structure Session where
  /-- The text for the initial state. -/
  initial : Raw
  /-- The text for the final states. -/
  finals : Raw
  /-- The table that the editor is given. -/
  rows : GivenRows
  /-- The version of the editor. -/
  version : Nat
  /-- The edited tables with the versions they belong to, the latest first. -/
  edits : List (Nat × List EditedRow)
  /-- The choices made. -/
  choices : Choices
  /-- The place of the example that was selected when the page ran last. -/
  offered : Int

/-- A button. -/
inductive Button where
  /-- Empties the form. -/
  | reset
  /-- Loads the selected example. -/
  | load
deriving DecidableEq, Repr

/-- What the user does between two runs of the page. -/
structure Action where
  /-- A new text for the initial state. -/
  initial? : Option Raw
  /-- A new text for the final states. -/
  finals? : Option Raw
  /-- A new content of the table. -/
  rows? : Option (List EditedRow)
  /-- A new way to minimize. -/
  mode? : Option Mode
  /-- A new step of the construction. -/
  step? : Option Raw
  /-- A new word. -/
  word? : Option Raw
  /-- The place of another example. -/
  example? : Option Int
  /-- The button that is pressed. -/
  click? : Option Button

namespace Session

/-- The form emptied, with a new editor. -/
def reset (s : Session) : Session :=
  { s with initial := .str "", finals := .str "", rows := blankRows, version := s.version + 1 }

/-- The form filled in with an example, with a new editor. -/
def load (s : Session) (e : Example) : Session :=
  { s with
    initial := .str e.initial
    finals := .str e.finals
    rows := e.rows
    version := s.version + 1 }

/-- The session after the page has run for the first time. -/
def fresh : Session :=
  reset
    { initial := .null, finals := .null, rows := blankRows, version := 0, edits := []
      choices := ⟨.single, .null, .str "", 0⟩, offered := 0 }

/-- The table as the editor returns it: the last edit of its version, or else what it was given. -/
def edited (s : Session) : List EditedRow :=
  match s.edits.lookup s.version with
  | some rows => rows
  | none => s.rows.map fun r => (some r.1, some r.2.1, some r.2.2)

/-- The form as the user filled it in; missing cells of the table are blank. -/
def form (s : Session) : Form where
  initial := .ofRaw s.initial
  finals := .ofRaw s.finals
  rows := s.edited.map fun r =>
    (.text (r.1.getD ""), .text (r.2.1.getD ""), .text (r.2.2.getD ""))

/-- What the user typed and edited. -/
def typed (s : Session) (act : Action) : Session :=
  { s with
    initial := act.initial?.getD s.initial
    finals := act.finals?.getD s.finals
    edits := match act.rows? with
      | some rows => (s.version, rows) :: s.edits
      | none => s.edits }

/-- What the user chose. -/
def chosen (s : Session) (act : Action) : Session :=
  { s with
    choices :=
      { mode := act.mode?.getD s.choices.mode
        step := act.step?.getD s.choices.step
        word := act.word?.getD s.choices.word
        chosen := act.example?.getD s.choices.chosen } }

/-- The button that the user pressed. What is loaded is the example that was selected when the
page ran last. -/
def clicked (s : Session) (act : Action) : Session :=
  match act.click? with
  | none => s
  | some .reset => s.reset
  | some .load =>
    match exampleAt? s.offered with
    | some e => s.load e
    | none => s

/-- The session when the page runs after an action. -/
def act (s : Session) (action : Action) : Session :=
  ((s.typed action).chosen action).clicked action

/-- The session after the page has run. -/
def afterRun (s : Session) : Session := { s with offered := s.choices.chosen }

end Session

end Page

end Determinize
