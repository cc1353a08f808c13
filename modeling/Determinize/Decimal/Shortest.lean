import Determinize.Decimal.Binary
/-!
# The fewest digits that identify a number

A number is written with the shortest decimal that reads back to it, and of the shortest ones
with the nearest. Positional notation is used for exponents of the leading digit from −4 to 15,
with `.0` after a whole number; other numbers get one digit before the point and a signed exponent
of at least two digits.

## Main definitions

* `Decimal.Digits` — a decimal, `digits * 10 ^ exponent`
* `Decimal.Magnitude.readsBack` — the decimal lies among the reals that round to the number
* `Decimal.Magnitude.shortest` — the digits chosen
* `Decimal.text` — the text of a number of any class
-/

namespace Determinize

namespace Decimal

/-- The decimal `digits * 10 ^ exponent`. -/
structure Digits where
  /-- The digits, read as one whole number. -/
  digits : Nat
  /-- The exponent of ten. -/
  exponent : Int
deriving DecidableEq, Repr

namespace Magnitude

/-- Whether the decimal lies among the reals that round to the number. These reach halfway to each
neighbour, ends included exactly when the significand is even. -/
def readsBack (x : Magnitude) (d : Digits) : Bool :=
  let low := if x.narrowBelow then 4 * x.m - 1 else 4 * x.m - 2
  let high := 4 * x.m + 2
  let closed := x.m % 2 == 0
  let below := compareScaled d.digits d.exponent low (x.q - 2)
  let above := compareScaled d.digits d.exponent high (x.q - 2)
  (below == .gt || (closed && below == .eq)) && (above == .lt || (closed && above == .eq))

/-- Whether the number lies below `10 ^ k`. -/
def below (x : Magnitude) (k : Int) : Bool := compareScaled 1 k x.m x.q == .gt

/-- The least of the `n + 1` exponents from `k` on with the number below that power of ten. -/
def scaleFrom (x : Magnitude) : Nat → Int → Int
  | 0, k => k
  | n + 1, k => if x.below k then k else scaleFrom x n (k + 1)

/-- The least `k` with the number below `10 ^ k`. The logarithm to the base two, times 30103/100000,
is an estimate from below that is off by two at most. -/
def scale (x : Magnitude) : Int :=
  x.scaleFrom 8 (Int.fdiv (((Nat.log2 x.m : Int) + x.q) * 30103) 100000 - 2)

/-- The number divided by `10 ^ e`, rounded down. -/
def floorAt (x : Magnitude) (e : Int) : Nat :=
  ((x.m * Nat.pow 10 (-e).toNat) <<< x.q.toNat) / (Nat.pow 10 e.toNat <<< (-x.q).toNat)

/-- The nearer of the two neighbours of the number among the multiples of `10 ^ e`, if one of them
reads back; an exact tie goes to the even one. -/
def nearestAt (x : Magnitude) (e : Int) : Option Digits :=
  let low : Digits := ⟨x.floorAt e, e⟩
  let high : Digits := ⟨x.floorAt e + 1, e⟩
  if x.readsBack low then
    if x.readsBack high then
      match compareScaled (low.digits + high.digits) e (2 * x.m) x.q with
      | .gt => some low
      | .lt => some high
      | .eq => some (if low.digits % 2 = 0 then low else high)
    else some low
  else if x.readsBack high then some high else none

/-- The decimal without trailing zeros, of which at most `n` are taken off. -/
def strip : Nat → Digits → Digits
  | 0, d => d
  | n + 1, d =>
    if d.digits ≠ 0 ∧ d.digits % 10 = 0 then strip n ⟨d.digits / 10, d.exponent + 1⟩ else d

/-- The shortest decimal that reads back, without trailing zeros. Seventeen digits suffice for a
number of double precision; beyond them the exact value is written. -/
def shortest (x : Magnitude) : Digits :=
  if x.m = 0 then ⟨0, 0⟩
  else
    let k := x.scale
    match (List.range 17).findSome? fun n => x.nearestAt (k - (n + 1 : Nat)) with
    | some d => strip 17 d
    | none => ⟨(x.m * Nat.pow 5 (-x.q).toNat) <<< x.q.toNat, min x.q 0⟩

end Magnitude

/-- The digits of an exponent, two at least. -/
def exponentText (e : Nat) : String :=
  if e < 10 then "0" ++ toString e else toString e

/-- The layout of a decimal. -/
def Digits.text (d : Digits) : String :=
  let ds := (toString d.digits).toList
  -- the exponent of the leading digit
  let e : Int := d.exponent + ds.length - 1
  if d.digits = 0 then "0.0"
  else if e < -4 ∨ 16 ≤ e then
    let mantissa := match ds with
      | [] => []
      | [c] => [c]
      | c :: r => c :: '.' :: r
    String.ofList mantissa ++ "e" ++ (if e < 0 then "-" else "+") ++ exponentText e.natAbs
  else if 0 ≤ d.exponent then
    String.ofList (ds ++ List.replicate d.exponent.toNat '0') ++ ".0"
  else if e < 0 then
    "0." ++ String.ofList (List.replicate (-e - 1).toNat '0' ++ ds)
  else
    String.ofList (ds.take (e + 1).toNat) ++ "." ++ String.ofList (ds.drop (e + 1).toNat)

/-- The text of a number of any class. -/
def Class.text : Class → String
  | .finite negative x => (if negative then "-" else "") ++ x.shortest.text
  | .infinite negative => (if negative then "-" else "") ++ "inf"
  | .nan => "nan"

/-- The text of a number. -/
def text (x : Float) : String := (Class.ofFloat x).text

example : text 1.5 = "1.5" := by decide +kernel

example : text 1e16 = "1e+16" := by decide +kernel

example : text (0.1 + 0.2) = "0.30000000000000004" := by decide +kernel

end Decimal

end Determinize
