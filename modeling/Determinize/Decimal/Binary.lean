/-!
# The exact value of a floating-point number

A finite number of double precision is an integer times a power of two. Everything this library
prints of such a number is computed from these two integers, never from a rounded text.

## Main definitions

* `Decimal.Magnitude` — the absolute value of a finite number, as `m * 2 ^ q`
* `Decimal.Magnitude.ofBits` — the magnitude that a bit pattern stands for
* `Decimal.Class` — zero, finite, infinite or not a number

## What is deliberately absent

There is no arithmetic here. Sums and quotients are those of the hardware type.
-/

namespace Determinize

namespace Decimal

/-- The absolute value `m * 2 ^ q` of a finite number. -/
structure Magnitude where
  /-- The significand, an integer. -/
  m : Nat
  /-- The exponent of two. -/
  q : Int
  /-- Whether the gap to the next smaller number is half the gap to the next larger one. -/
  narrowBelow : Bool
deriving DecidableEq, Repr

/-- The magnitude of a finite number with the bit pattern `b`; the sign bit is not looked at. -/
def Magnitude.ofBits (b : UInt64) : Magnitude :=
  let e := ((b >>> 52) &&& 0x7FF).toNat
  let f := (b &&& 0xFFFFFFFFFFFFF).toNat
  if e = 0 then ⟨f, -1074, false⟩ else ⟨1 <<< 52 + f, (e : Int) - 1075, decide (f = 0 ∧ 1 < e)⟩

/-- The kinds of floating-point numbers. -/
inductive Class where
  /-- A number with a magnitude. -/
  | finite (negative : Bool) (magnitude : Magnitude)
  /-- An infinity. -/
  | infinite (negative : Bool)
  /-- Not a number. -/
  | nan
deriving DecidableEq, Repr

/-- The class of the number with the bit pattern `b`. -/
def Class.ofBits (b : UInt64) : Class :=
  let negative := decide (b >>> 63 = 1)
  if ((b >>> 52) &&& 0x7FF) = 0x7FF then
    if (b &&& 0xFFFFFFFFFFFFF) = 0 then .infinite negative else .nan
  else .finite negative (Magnitude.ofBits b)

/-- The class of a number. -/
def Class.ofFloat (x : Float) : Class := Class.ofBits x.toBits

/-- Compares `a * 10 ^ i` with `n * 2 ^ j`, exactly. -/
def compareScaled (a : Nat) (i : Int) (n : Nat) (j : Int) : Ordering :=
  compare ((a * Nat.pow 10 i.toNat) <<< (-j).toNat) ((n * Nat.pow 10 (-i).toNat) <<< j.toNat)

/-- A whole number, as a number with a magnitude. -/
def Class.ofInt (n : Int) : Class := .finite (decide (n < 0)) ⟨n.natAbs, 0, false⟩

/-- Compares `± m * 2 ^ q` for two magnitudes, exactly. -/
def Magnitude.compareSigned (n₁ : Bool) (x₁ : Magnitude) (n₂ : Bool) (x₂ : Magnitude) : Ordering :=
  let signed (negative : Bool) (m : Nat) : Int := if negative then -(m : Int) else m
  compare (signed n₁ (x₁.m <<< (x₁.q - x₂.q).toNat)) (signed n₂ (x₂.m <<< (x₂.q - x₁.q).toNat))

/-- Compares two numbers, exactly; `none` if one of them is not a number. -/
def Class.compare? : Class → Class → Option Ordering
  | .nan, _ | _, .nan => none
  | .infinite n₁, .infinite n₂ => some (compare n₂ n₁)
  | .infinite n, .finite _ _ => some (if n then .lt else .gt)
  | .finite _ _, .infinite n => some (if n then .gt else .lt)
  | .finite n₁ x₁, .finite n₂ x₂ => some (Magnitude.compareSigned n₁ x₁ n₂ x₂)

example : Class.ofBits 0x3FF8000000000000 = .finite false ⟨2 ^ 52 + 2 ^ 51, -52, false⟩ := by
  decide +kernel

example : Class.compare? (Class.ofInt 4) (Class.ofBits 0x4010000000000000) = some .eq := by
  decide +kernel

end Decimal

end Determinize
