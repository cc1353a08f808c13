import Determinize.Event
import Determinize.Reading
import Determinize.View.Dot
import Determinize.View.Table
/-!
# What a page is made of

A page is a sequence of elements, in the order in which they are laid out. Next to the elements
stand the warnings and the events of making them. Laying out a page ends early at a fault.

## Main definitions

* `Page.Element` — texts, fields to fill in, buttons, choices, tables and graphs
* `Page.Screen` — elements with their warnings and events, and the fault at which they end

## Implementation notes

Screens are put together with `++`. What comes behind a fault is never laid out, so `s ++ t` is `s`
when `s` ends with a fault.

Laying out a single element is assumed to succeed: the faults of a screen are those of making its
elements, and whatever displays an element is trusted to take it. This is an assumption about
tables above all. The table of an automaton with the symbol `State` has two columns of one name,
and here it is a table like any other.
-/

namespace Determinize

namespace Page

/-- How a text is set. -/
inductive Style where
  /-- The title of the page. -/
  | title
  /-- A large heading. -/
  | header
  /-- A heading. -/
  | subheader
  /-- A small text under a figure or a field. -/
  | caption
  /-- Running text. -/
  | markdown
  /-- A note. -/
  | info
  /-- Good news. -/
  | success
  /-- Bad news. -/
  | error
deriving DecidableEq, Repr

/-- An element of a page. -/
inductive Element where
  /-- The title, the icon and the width of the window. -/
  | window (title icon layout : String)
  /-- A text. -/
  | text (style : Style) (s : String)
  /-- Columns of equal width. -/
  | columns (count : Nat)
  /-- Columns with the given proportions. -/
  | weightedColumns (weights : List Nat)
  /-- A part that can be folded away. -/
  | expander (label : String)
  /-- A button. -/
  | button (label : String)
  /-- A field for a text, with what is in it. -/
  | textInput (label : String) (key? placeholder? help? : Option String) (value : Raw)
  /-- A choice from a list that folds out. -/
  | selectbox (label : String) (options : List String)
  /-- A choice from options that are all shown, with the one chosen at first. -/
  | radio (label : String) (options : List String) (index : Nat)
  /-- A slider over numbers, with its place at first. -/
  | slider (label : String) (options : List Nat) (value : Nat)
  /-- A table to be edited. -/
  | editor (key rowCount : String) (wide : Bool) (table : Table)
  /-- A table. -/
  | table (t : Table)
  /-- A graph, in the DOT language. -/
  | graph (source : String)
  /-- A text in a fixed-width font. -/
  | code (s language : String)

/-- Elements with the warnings and events of making them. -/
structure Screen where
  /-- The elements, in order. -/
  elements : List Element
  /-- The warnings, in order. -/
  warnings : List Warning
  /-- The events, in order. -/
  events : List Event
  /-- What went wrong, if something did. -/
  fault? : Option Fault

namespace Screen

/-- A screen of elements alone. -/
def ofElements (l : List Element) : Screen := ⟨l, [], [], none⟩

/-- A screen of events alone. -/
def ofEvents (l : List Event) : Screen := ⟨[], [], l, none⟩

/-- A screen that ends with a fault. -/
def ofFault (fault : Fault) : Screen := ⟨[], [], [], some fault⟩

instance : Append Screen where
  append s t :=
    match s.fault? with
    | some _ => s
    | none => ⟨s.elements ++ t.elements, s.warnings ++ t.warnings, s.events ++ t.events, t.fault?⟩

theorem append_of_fault {s : Screen} {fault : Fault} (h : s.fault? = some fault) (t : Screen) :
    s ++ t = s := by
  change (match s.fault? with | some _ => s | none => _) = s
  rw [h]

theorem append_of_no_fault {s : Screen} (h : s.fault? = none) (t : Screen) :
    s ++ t =
      ⟨s.elements ++ t.elements, s.warnings ++ t.warnings, s.events ++ t.events, t.fault?⟩ := by
  change (match s.fault? with | some _ => s | none => _) = _
  rw [h]

@[simp] theorem fault?_append (s t : Screen) : (s ++ t).fault? = s.fault?.or t.fault? := by
  cases h : s.fault? with
  | none => rw [append_of_no_fault h]; rfl
  | some fault => rw [append_of_fault h, h]; rfl

theorem elements_append {s : Screen} (h : s.fault? = none) (t : Screen) :
    (s ++ t).elements = s.elements ++ t.elements := by
  rw [append_of_no_fault h]

@[simp] theorem elements_ofElements (l : List Element) : (ofElements l).elements = l := rfl

/-- An automaton with its table, its graph and a caption under the graph. There is no fault, since
laying out a table or a graph is assumed to succeed, whatever the names of the columns are. -/
def ofAutomaton (a : Automaton) (title caption : String) : Screen where
  elements :=
    [.weightedColumns [1, 2], .text .markdown ("### " ++ title ++ " Transition Table:"),
     .table (a.table true), .text .markdown ("### " ++ title ++ " Visualization:"),
     .graph (a.dot (some title)), .text .caption caption]
  warnings := a.graph.warnings
  events := []
  fault? := none

end Screen

end Page

end Determinize
