import Determinize.Decimal.Binary
/-!
# One decimal place

Percentages are written with one decimal. What is rounded is the exact binary value, and a value
halfway between two tenths goes to the even one.
-/

namespace Determinize

namespace Decimal

/-- The quotient of two whole numbers, rounded to the nearest; a tie goes to the even neighbour. -/
def roundQuotient (num den : Nat) : Nat :=
  match compare (2 * (num % den)) den with
  | .lt => num / den
  | .gt => num / den + 1
  | .eq => if num / den % 2 = 0 then num / den else num / den + 1

/-- The number times ten, rounded to a whole number. -/
def Magnitude.tenths (x : Magnitude) : Nat :=
  roundQuotient ((10 * x.m) <<< x.q.toNat) (1 <<< (-x.q).toNat)

/-- The text of a number that is not negative, with one decimal. -/
def Magnitude.tenthsText (x : Magnitude) : String :=
  toString (x.tenths / 10) ++ "." ++ toString (x.tenths % 10)

example : (Magnitude.ofBits (6.25 : Float).toBits).tenthsText = "6.2" := by decide +kernel

example : (Magnitude.ofBits (18.75 : Float).toBits).tenthsText = "18.8" := by decide +kernel

end Decimal

end Determinize
