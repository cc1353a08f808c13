/-!
# Ranges of code points

The character properties this library needs are given as lists of closed ranges of code points,
ascending and apart, and asked through one function. A table module names the property and
the version of the Unicode character database it was taken from.
-/

namespace Determinize

namespace Text

/-- A closed range of code points. -/
structure CodeRange where
  /-- The first code point of the range. -/
  first : Nat
  /-- The last code point of the range. -/
  last : Nat
deriving DecidableEq, Repr

/-- Whether the code point of `c` lies in the range. -/
def CodeRange.holds (r : CodeRange) (c : Char) : Bool :=
  decide (r.first ≤ c.toNat ∧ c.toNat ≤ r.last)

/-- Whether the code point of `c` lies in one of the ranges. -/
def inRanges (table : List CodeRange) (c : Char) : Bool :=
  table.any (·.holds c)

end Text

end Determinize
