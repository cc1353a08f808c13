import Determinize.Raw.Order
/-!
# Reading values

Making something of a value of any kind can fail, and it can succeed with a warning. The warnings
given before a failure stay visible beside it, so they are kept next to the outcome and not
inside it.

## Main definitions

* `Warning` — what a user is warned of, and `Warning.message`
* `Reading` — the warnings given and the outcome
* `Raw.collection` — the values in a collection; a single value is taken, with a warning, for a
  collection of one
-/

namespace Determinize

/-- What a user is warned of. -/
inductive Warning where
  /-- A single value was given for a collection. -/
  | notACollection (what kind : String)
  /-- A label in a graph ends with a backslash that escapes the closing quote. -/
  | openQuote (label : String)
deriving DecidableEq, Repr

/-- What the user is told. -/
def Warning.message : Warning → String
  | notACollection what kind => "Expected " ++ what ++ " to be a collection, got " ++ kind
  | openQuote label =>
    "expect syntax error scanning invalid quoted string: " ++ Text.quoted label

/-- The warnings given while something was read, and what came of it. -/
structure Reading (α : Type) where
  /-- The warnings, in the order in which they were given. -/
  warnings : List Warning
  /-- What was read, or why it could not be read. -/
  outcome : Except Fault α

namespace Reading

variable {α β : Type}

instance : Monad Reading where
  pure a := ⟨[], .ok a⟩
  bind r f :=
    match r.outcome with
    | .error fault => ⟨r.warnings, .error fault⟩
    | .ok a => ⟨r.warnings ++ (f a).warnings, (f a).outcome⟩

/-- Gives a warning. -/
def warn (w : Warning) : Reading Unit := ⟨[w], .ok ()⟩

/-- Stops at a fault. -/
def fail (fault : Fault) : Reading α := ⟨[], .error fault⟩

/-- An outcome without any warning. -/
def ofExcept (outcome : Except Fault α) : Reading α := ⟨[], outcome⟩

instance : MonadLift (Except Fault) Reading where
  monadLift := ofExcept

end Reading

namespace Raw

/-- The members of a set in the order of their texts, members with one text in the order in which
they were put in. -/
def inTextOrder (members : List Raw) : List Raw :=
  members.mergeSort fun x y => !decide (y.text < x.text)

/-- The values in a collection. A value that is no collection is taken for a collection of one,
with a warning that says what was expected. -/
def collection (what : String) : Raw → Reading (List Raw)
  | set members => pure (inTextOrder members)
  | list l => pure l
  | x => do
    Reading.warn (.notACollection what x.kind)
    pure [x]

/-- The values that a walk through the value meets: the members of a list or set, the keys of a
record, the characters of a text. -/
def elements : Raw → Except Fault (List Raw)
  | list l => .ok l
  | set members => .ok members
  | record fields => .ok (fields.map fun f => str f.1)
  | str s => .ok (s.toList.map fun c => str (String.singleton c))
  | x => .error (.notIterable x.kind)

/-- Whether the value holds several values rather than being a single one. -/
def isMany : Raw → Bool
  | list _ | set _ => true
  | _ => false

/-- The symbol that a value is. -/
def symbol : Raw → Except Fault Symbol
  | str s => .ok s
  | x => .error (.notASymbol x.kind)

end Raw

end Determinize
