import Determinize.Fault
import Determinize.Order.Runs
import Determinize.Raw.Basic
/-!
# Comparing values of any kind

Equality is defined between any two values, and values of different kinds differ, except that
truth values and numbers are compared as numbers. An order exists between states, between numbers,
between texts, between lists, and, by inclusion, between sets; everything else is refused.

## Main definitions

* `Raw.same` — equality
* `Raw.less` — the order, or the fault of two values without one
* `Raw.distinct` — a list with only the first of equal values
* `Raw.ofMembers` — the set with the given members
* `Raw.sort` — a list of values in order, or the fault of the first pair without an order

## Implementation notes

Which pair of an unsortable list is reported depends on the course of the sort, which is that of
`Determinize.Order.Runs`.
-/

namespace Determinize

namespace Raw

/-- The number that a truth value or a number stands for. -/
def number? : Raw → Option Decimal.Class
  | bool b => some (.ofInt (if b then 1 else 0))
  | int n => some (.ofInt n)
  | float x => some (.ofFloat x)
  | _ => none

mutual

/-- Whether two values are equal. -/
def same : Raw → Raw → Bool
  | null, null => true
  | str s, str t => s = t
  | state s, state t => s = t
  | transition s, transition t => s = t
  | list l, list k => sameAll l k
  | record l, record k => l.length = k.length && sameFields l k
  | set l, set k => l.length = k.length && allIn l k
  | bool b, y => numberIs (bool b) y
  | int n, y => numberIs (int n) y
  | float x, y => numberIs (float x) y
  | _, _ => false
where
  /-- Whether two values are the same number. -/
  numberIs (x y : Raw) : Bool :=
    match x.number?, y.number? with
    | some m, some n => m.compare? n = some .eq
    | _, _ => false

/-- Whether two lists are equal value by value. -/
def sameAll : List Raw → List Raw → Bool
  | [], [] => true
  | x :: l, y :: k => same x y && sameAll l k
  | _, _ => false

/-- Whether every field of the one record is in the other with the same value. -/
def sameFields : List (String × Raw) → List (String × Raw) → Bool
  | [], _ => true
  | (f, x) :: l, k =>
    (match k.lookup f with
      | some y => same x y
      | none => false) && sameFields l k

/-- Whether every value of the one list is in the other. -/
def allIn : List Raw → List Raw → Bool
  | [], _ => true
  | x :: l, k => k.any (fun y => same x y) && allIn l k

end

/-- Of two values without an order. -/
def unordered (x y : Raw) : Fault := .unordered x.kind y.kind

mutual

/-- Whether the one value is less than the other. -/
def less : Raw → Raw → Except Fault Bool
  | state s, state t => .ok (s < t)
  | str s, str t => .ok (s < t)
  | set l, set k => .ok (l.length < k.length && allIn l k)
  | list l, list k => lessAll l k
  | x, y =>
    match x.number?, y.number? with
    | some m, some n => .ok (m.compare? n = some .lt)
    | _, _ => .error (unordered x y)

/-- Whether the one list is less than the other: at the first values that differ, or because it
ends first. -/
def lessAll : List Raw → List Raw → Except Fault Bool
  | [], k => .ok !k.isEmpty
  | _ :: _, [] => .ok false
  | x :: l, y :: k => if same x y then lessAll l k else less x y

end

/-- The values of a list, each only where it first occurs. -/
def distinct (l : List Raw) : List Raw := l.eraseDupsBy same

/-- The members of a set as they are kept: numbers in ascending order, anything else as it came. -/
def arranged (members : List Raw) : List Raw :=
  if members.all fun x => x.number?.isSome then
    members.mergeSort fun x y => (less y x).toOption = some false
  else members

/-- The set with the given members, if all of them can be members. -/
def ofMembers (l : List Raw) : Except Fault Raw :=
  match l.find? fun x => !x.isHashable with
  | some x => .error (.unhashable x.kind)
  | none => .ok (.set (arranged (distinct l)))

/-- The list in order, equal values in the order they came, or the fault of the first pair without
an order that is met. -/
def sort (l : List Raw) : Except Fault (List Raw) := Runs.sort less l

end Raw

end Determinize
