import Determinize.Decimal.Shortest
import Determinize.Transition
/-!
# Values of any kind

The constructors of this library can be called with whatever a user or a file supplies. Such a
value has one of ten kinds, and what is done with it depends on the kind: a text may name a state,
a list may be a collection, a number is neither.

## Main definitions

* `Raw` — a value of any kind
* `Raw.kind` — the name of the kind, for messages
* `Raw.quoted`, `Raw.text` — the value as it is shown inside messages, and as a text
* `Raw.isNothing` — the values that count as not given

## Implementation notes

States and transitions that have already been made are values too. The members of a set have no
order of their own; the list in which they are kept decides only how the set is shown and walked
through.
-/

namespace Determinize

/-- A value of any kind. -/
inductive Raw where
  /-- No value. -/
  | null
  /-- A truth value. -/
  | bool (b : Bool)
  /-- A whole number of any size. -/
  | int (n : Int)
  /-- A number of double precision. -/
  | float (x : Float)
  /-- A text. -/
  | str (s : String)
  /-- A list of values. -/
  | list (l : List Raw)
  /-- A table from texts to values. -/
  | record (fields : List (String × Raw))
  /-- A set of values. -/
  | set (members : List Raw)
  /-- A state. -/
  | state (s : State)
  /-- A transition. -/
  | transition (t : Transition)

instance : Inhabited Raw := ⟨.null⟩

namespace Raw

/-- The name of the kind of a value, for messages. -/
def kind : Raw → String
  | null => "NoneType"
  | bool _ => "bool"
  | int _ => "int"
  | float _ => "float"
  | str _ => "str"
  | list _ => "list"
  | record _ => "dict"
  | set _ => "set"
  | state (.simple _) => "SimpleState"
  | state (.composite _) => "CompositeState"
  | state .trap => "TrapState"
  | transition _ => "Transition"

/-- Whether the value counts as not given: nothing, false, zero, or empty. -/
def isNothing : Raw → Bool
  | null => true
  | bool b => !b
  | int n => n = 0
  | float x => (Decimal.Class.ofFloat x).compare? (.ofInt 0) = some .eq
  | str s => s.isEmpty
  | list l => l.isEmpty
  | record l => l.isEmpty
  | set l => l.isEmpty
  | state _ => false
  | transition _ => false

/-- Whether the value may be a member of a set or the key of a table. -/
def isHashable : Raw → Bool
  | list _ | record _ | set _ => false
  | _ => true

mutual

/-- The value as it is shown inside messages: texts in quotes, states by their bare text. -/
def quoted : Raw → String
  | null => "None"
  | bool true => "True"
  | bool false => "False"
  | int n => toString n
  | float x => Decimal.text x
  | str s => Text.quoted s
  | list l => "[" ++ ", ".intercalate (quotedAll l) ++ "]"
  | record l => "\x7b" ++ ", ".intercalate (quotedFields l) ++ "\x7d"
  | set [] => "set()"
  | set (x :: l) => "\x7b" ++ ", ".intercalate (quoted x :: quotedAll l) ++ "\x7d"
  | state s => s.text
  | transition t => t.text

/-- The values of a list as they are shown inside messages. -/
def quotedAll : List Raw → List String
  | [] => []
  | x :: l => quoted x :: quotedAll l

/-- The fields of a record as they are shown inside messages. -/
def quotedFields : List (String × Raw) → List String
  | [] => []
  | (k, x) :: l => (Text.quoted k ++ ": " ++ quoted x) :: quotedFields l

end

/-- The value as a text: a text is its own text. -/
def text : Raw → String
  | str s => s
  | x => x.quoted

end Raw

end Determinize
