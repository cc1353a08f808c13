/-!
# Sorting by runs

A list is cut into runs, stretches that are in order already, and neighbouring runs are merged until
one is left. The order is given by a comparison that can fail: the sort then stops at the pair that
has no order. Which pair that is depends on which comparisons are made and when, so the course of
the sort is part of its definition, and no comparison is made that the course does not need.

## Main definitions

* `Runs.opening`, `Runs.fill` — the run at the front of a list, and its least length
* `Runs.gallopFront`, `Runs.gallopBack` — how many elements stay before a given one
* `Runs.mergeFront`, `Runs.mergeBack`, `Runs.merge` — merging two neighbouring runs
* `Runs.sort` — the list in order, equal elements in the order they came

## Implementation notes

Merging takes one element at a time until one run has won several times in a row. Then it gallops:
it looks for the whole stretch that may be taken at once, with strides that double. How many wins
in a row start a gallop is the threshold; it falls while galloping pays and rises when it does not.
-/

namespace Determinize

namespace Runs

variable {α ε : Type}

/-! ### Searching

A test `before` is asked about the elements of a list in order. It holds of some first elements and
of no others, and what is looked for is their number. -/

/-- The answer of the test for the `i`-th element. -/
def ask (before : α → Except ε Bool) (l : List α) (i : Nat) : Except ε Bool :=
  match l[i]? with
  | some x => before x
  | none => .ok false

/-- The number of elements before, which is at least `low` and at most `low + width`, found by
halving. The first argument bounds the number of halvings. -/
def halve (before : α → Except ε Bool) (l : List α) : Nat → Nat → Nat → Except ε Nat
  | 0, low, _ => .ok low
  | _ + 1, low, 0 => .ok low
  | n + 1, low, width + 1 => do
    let half := (width + 1) / 2
    if ← ask before l (low + half) then halve before l n (low + half + 1) (width - half)
    else halve before l n low half

/-- Strides further, from `next` on and at most to `last`, as long as the answer is yes: the last
distance with the answer yes and the distance after it. -/
def stride (ahead : Nat → Except ε Bool) (last : Nat) : Nat → Nat → Nat → Except ε (Nat × Nat)
  | 0, done, _ => .ok (done, last)
  | n + 1, done, next => do
    if next < last then
      if ← ahead next then stride ahead last n next (2 * next + 1) else return (done, next)
    else return (done, last)

/-- The number of elements before, searched from the front. -/
def gallopFront (before : α → Except ε Bool) (l : List α) : Except ε Nat := do
  if ← ask before l 0 then
    let (done, next) ← stride (ask before l) l.length l.length 0 1
    halve before l l.length (done + 1) (next - (done + 1))
  else return 0

/-- The number of elements before, searched from the back. -/
def gallopBack (before : α → Except ε Bool) (l : List α) : Except ε Nat := do
  let last := l.length - 1
  if ← ask before l last then return l.length
  else
    let behind (i : Nat) : Except ε Bool := (ask before l (last - i)).map not
    let (done, next) ← stride behind l.length l.length 0 1
    halve before l l.length (l.length - next) (next - done - 1)

variable (less : α → α → Except ε Bool)

/-- Whether `e` stays before `x` when `x` comes from a later run. -/
def staysBefore (x e : α) : Except ε Bool := (less x e).map not

/-! ### Finding runs -/

/-- Takes elements from the list as long as comparing each with the one before gives `expected`:
the elements taken, last first, and the rest. -/
def extend (expected : Bool) (last : α) (taken : List α) : List α → Except ε (List α × List α)
  | [] => .ok (last :: taken, [])
  | y :: l => do
    if (← less y last) = expected then extend expected y (last :: taken) l
    else return (last :: taken, y :: l)

/-- The run at the front of the list, in order, and the rest. A run that falls is turned round; it
holds no equal elements. -/
def opening : List α → Except ε (List α × List α)
  | x :: y :: l => do
    let falling ← less y x
    let (taken, rest) ← extend less falling y [x] l
    return (if falling then taken else taken.reverse, rest)
  | l => .ok (l, [])

/-- Puts the elements of the second list at their places in the first, which is in order. -/
def insertAll (run : List α) : List α → Except ε (List α)
  | [] => .ok run
  | x :: l => do
    let i ← halve (staysBefore less x) run run.length 0 run.length
    insertAll (run.take i ++ x :: run.drop i) l

/-- The run with as many elements from the rest as it takes to make it `least` long. -/
def fill (least : Nat) (run rest : List α) : Except ε (List α × List α) := do
  let missing := least - run.length
  return (← insertAll less run (rest.take missing), rest.drop missing)

/-- The least length of a run of a list of `n` elements: the six leading binary digits of `n`, plus
one if a digit behind them, or `lost`, is not zero. The number of runs is then a power of two or
slightly less. -/
def leastLength (lost n : Nat) : Nat :=
  if n < 64 then n + lost else leastLength (max lost (n % 2)) (n / 2)
termination_by n
decreasing_by omega

/-! ### Merging -/

/-- How a merge proceeds. -/
inductive Pace where
  /-- One element at a time; how often the earlier and the later run have just won in a row. -/
  | walk (earlier later : Nat)
  /-- Whole stretches at once. -/
  | gallop
deriving DecidableEq, Repr

/-- So many elements taken at once make it worth while to go on galloping. -/
def worthwhile : Nat := 7

/-- The pace and the threshold after a gallop that took `i` and `j` elements. -/
def afterGallop (threshold i j : Nat) : Pace × Nat :=
  if worthwhile ≤ i ∨ worthwhile ≤ j then (.gallop, max 1 (threshold - 1))
  else (.walk 0 0, threshold + 1)

/-- Merges the run `a` with the later run `b` from the front; `out` is what is merged already, last
first. The outcome is the merged run and the threshold. A merge ends when `b` is used up or one
element of `a` is left, which is the last of all. The first argument bounds the number of turns. -/
def mergeFront : Nat → Pace → Nat → List α → List α → List α → Except ε (List α × Nat)
  | n + 1, .walk i j, threshold, out, x :: a, y :: b => do
    if ← less y x then
      if b.isEmpty then return (out.reverse ++ y :: x :: a, threshold)
      else
        let pace := if threshold ≤ j + 1 then .gallop else .walk 0 (j + 1)
        mergeFront n pace threshold (y :: out) (x :: a) b
    else if a.length = 1 then return (out.reverse ++ x :: y :: b ++ a, threshold)
    else
      let pace := if threshold ≤ i + 1 then .gallop else .walk (i + 1) 0
      mergeFront n pace threshold (x :: out) a (y :: b)
  | n + 1, .gallop, threshold, out, a, y :: b => do
    let i ← gallopFront (staysBefore less y) a
    let out := (a.take i).reverse ++ out
    match a.drop i with
    | [] => return (out.reverse ++ y :: b, threshold)
    | [x] => return (out.reverse ++ y :: b ++ [x], threshold)
    | x :: a =>
      let j ← if b.isEmpty then pure 0 else gallopFront (fun e => less e x) b
      let out := (b.take j).reverse ++ y :: out
      if (b.drop j).isEmpty then return (out.reverse ++ x :: a, threshold)
      else if a.length = 1 then return (out.reverse ++ x :: b.drop j ++ a, threshold)
      else
        let (pace, threshold) := afterGallop threshold i j
        mergeFront n pace threshold (x :: out) a (b.drop j)
  | _, _, threshold, out, a, b => .ok (out.reverse ++ a ++ b, threshold)

/-- Merges the run `a` with the later run `b` from the back. Both are given last element first, and
`out` is what is merged already, in order. A merge ends when `a` is used up or one element of `b` is
left, which is the first of all. The first argument bounds the number of turns. -/
def mergeBack : Nat → Pace → Nat → List α → List α → List α → Except ε (List α × Nat)
  | n + 1, .walk i j, threshold, out, x :: a, y :: b => do
    if ← less y x then
      if a.isEmpty then return ((y :: b).reverse ++ x :: out, threshold)
      else
        let pace := if threshold ≤ i + 1 then .gallop else .walk (i + 1) 0
        mergeBack n pace threshold (x :: out) a (y :: b)
    else if b.length = 1 then return (b ++ (x :: a).reverse ++ y :: out, threshold)
    else
      let pace := if threshold ≤ j + 1 then .gallop else .walk 0 (j + 1)
      mergeBack n pace threshold (y :: out) (x :: a) b
  | n + 1, .gallop, threshold, out, a, y :: b => do
    let i := a.length - (← gallopBack (staysBefore less y) a.reverse)
    let out := (a.take i).reverse ++ out
    match a.drop i with
    | [] => return ((y :: b).reverse ++ out, threshold)
    | x :: a =>
      let out := y :: out
      if b.length = 1 then return (b ++ (x :: a).reverse ++ out, threshold)
      else
        let j := b.length - (← gallopBack (fun e => less e x) b.reverse)
        let out := (b.take j).reverse ++ out
        if (b.drop j).length ≤ 1 then return (b.drop j ++ (x :: a).reverse ++ out, threshold)
        else if a.isEmpty then return ((b.drop j).reverse ++ x :: out, threshold)
        else
          let (pace, threshold) := afterGallop threshold i j
          mergeBack n pace threshold (x :: out) a (b.drop j)
  | _, _, threshold, out, a, b => .ok (a.reverse ++ b.reverse ++ out, threshold)

/-- Merges two neighbouring runs that interleave from their first elements to their last. The merge
proceeds from the end at which the shorter run lies. -/
def interleave (threshold : Nat) (a b : List α) : Except ε (List α × Nat) :=
  let n := a.length + b.length
  if a.length ≤ b.length then
    match b with
    | [] => .ok (a, threshold)
    | y :: b' =>
      if b'.isEmpty then .ok (y :: a, threshold)
      else if a.length = 1 then .ok (b ++ a, threshold)
      else mergeFront less n (.walk 0 0) threshold [y] a b'
  else
    match a.reverse with
    | [] => .ok (b, threshold)
    | x :: a' =>
      if a'.isEmpty then .ok (b ++ [x], threshold)
      else if b.length = 1 then .ok (b ++ a, threshold)
      else mergeBack less n (.walk 0 0) threshold [x] a' b.reverse

/-- Merges two neighbouring runs. What stays at the front of the first run or at the back of the
second is set aside before. -/
def merge (threshold : Nat) (a b : List α) : Except ε (List α × Nat) := do
  match b with
  | [] => return (a, threshold)
  | y :: _ =>
    let i ← gallopFront (staysBefore less y) a
    match (a.drop i).getLast? with
    | none => return (a ++ b, threshold)
    | some x =>
      let j ← gallopBack (fun e => less e x) b
      let (merged, threshold) ← interleave less threshold (a.drop i) (b.take j)
      return (a.take i ++ merged ++ b.drop j, threshold)

/-! ### The order of merges -/

/-- A run with its place in the list, and the depth of the boundary behind it. -/
structure Run (α : Type) where
  /-- The number of elements before it. -/
  start : Nat
  /-- The elements. -/
  items : List α
  /-- How often the list is halved before a cut falls between the middle of this run and the middle
  of the next; zero for the last run. -/
  depth : Nat

/-- Two neighbouring runs as one. -/
def Run.join (threshold : Nat) (p q : Run α) : Except ε (Run α × Nat) := do
  let (items, threshold) ← merge less threshold p.items q.items
  return ({ p with items := items }, threshold)

/-- How often `0 … n` is halved, always taking the half in which both lie, before a cut falls
between `a / 2` and `b / 2`. The first argument bounds the number of halvings. -/
def halvings (n : Nat) : Nat → Nat → Nat → Nat
  | 0, _, _ => 0
  | k + 1, a, b =>
    if n ≤ a then halvings n k (2 * (a - n)) (2 * (b - n)) + 1
    else if n ≤ b then 1
    else halvings n k (2 * a) (2 * b) + 1

/-- Merges the last runs, which stand first, as long as the boundary between them is deeper than
`depth`; the boundary behind the last run then has that depth. -/
def settle (depth : Nat) : Nat → Nat → List (Run α) → Except ε (List (Run α) × Nat)
  | n + 1, threshold, q :: p :: runs => do
    if depth < p.depth then
      let (joined, threshold) ← Run.join less threshold p q
      settle depth n threshold (joined :: runs)
    else return ({ q with depth := depth } :: p :: runs, threshold)
  | _, threshold, q :: runs => .ok ({ q with depth := depth } :: runs, threshold)
  | _, threshold, [] => .ok ([], threshold)

/-- Cuts the list, which begins at the place `start`, into runs of a list of `n` elements, merging
on the way. The first argument bounds the number of runs. -/
def cut (n : Nat) : Nat → Nat → Nat → List (Run α) → List α → Except ε (List (Run α) × Nat)
  | k + 1, threshold, start, runs, x :: l => do
    let (run, rest) ← opening less (x :: l)
    let (run, rest) ← fill less (leastLength 0 n) run rest
    let (runs, threshold) ← match runs with
      | [] => pure ([], threshold)
      | p :: _ =>
        let middle := 2 * p.start + p.items.length
        let depth := halvings n n middle (middle + p.items.length + run.length)
        settle less depth runs.length threshold runs
    cut n k threshold (start + run.length) (⟨start, run, 0⟩ :: runs) rest
  | _, threshold, _, runs, _ => .ok (runs, threshold)

/-- Merges all runs, of which the last stands first. -/
def mergeAll : Nat → Nat → List (Run α) → Except ε (List α)
  | n + 1, threshold, r :: q :: p :: runs => do
    if p.items.length < r.items.length then
      let (joined, threshold) ← Run.join less threshold p q
      mergeAll n threshold (r :: joined :: runs)
    else
      let (joined, threshold) ← Run.join less threshold q r
      mergeAll n threshold (joined :: p :: runs)
  | _, threshold, [q, p] => do return (← Run.join less threshold p q).1.items
  | _, _, [p] => .ok p.items
  | _, _, _ => .ok []

/-- The list in order, equal elements in the order they came; or the first failure of the
comparison. -/
def sort (l : List α) : Except ε (List α) :=
  if l.length < 2 then .ok l
  else do
    let (runs, threshold) ← cut less l.length l.length worthwhile 0 [] l
    mergeAll less runs.length threshold runs

end Runs

end Determinize
