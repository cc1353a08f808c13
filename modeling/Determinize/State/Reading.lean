import Determinize.Reading
/-!
# Reading a state

Wherever a state is expected, a state that has already been made stands for itself, and a text is
read by the bracket notation. The two constructors for states do not know that notation: a simple
state may have any text as its name, brackets included.

## Main definitions

* `State.ofRaw` — the state that a value stands for
* `State.simpleOfRaw`, `State.compositeOfRaw` — the two constructors
* `State.combineRaw` — combining a collection of values, absent entries ignored
-/

namespace Determinize

namespace State

/-- The state that a value stands for. -/
def ofRaw : Raw → Except Fault State
  | .state s => .ok s
  | .str s => ofText s
  | x => .error (.notAState x.kind)

/-- The simple state with the given name. -/
def simpleOfRaw : Raw → Except Fault State
  | .str s => .ok (simple s)
  | x => .error (.notAName x.kind)

/-- The name of a member of a composite state. -/
def memberName : Raw → Except Fault String
  | .state (simple n) => .ok n
  | _ => .error .memberNotSimple

/-- The composite state with the given members, which must be simple states that have been made
already. Members that cannot be put into a set are refused first. -/
def compositeOfRaw (members : List Raw) : Except Fault State := do
  let _ ← Raw.ofMembers members
  let names ← members.mapM memberName
  match ofNames? names with
  | some (composite g) => return composite g
  | _ => .error .tooFewMembers

/-- The state of an entry of a collection; an absent entry has none. -/
def entry : Raw → Except Fault (Option State)
  | .null => .ok none
  | x => (ofRaw x).map some

/-- The state that stands for all entries of a collection together. -/
def combineRaw (x : Raw) : Except Fault (Option State) := do
  let entries ← (← x.elements).mapM entry
  return combine entries

end State

end Determinize
