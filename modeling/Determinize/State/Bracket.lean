import Determinize.Fault
import Determinize.State.Combine
/-!
# Reading a state from its text

A text in brackets names a composite state: the pieces between the commas are its members, empty
pieces do not count, and at least two different members are required. Every other text is the
name of a simple state.

## Main definitions

* `State.inside?` — what stands between the brackets of a bracketed text
* `State.pieces` — the pieces between the commas that are not empty
* `State.pieceFault?` — what is wrong with a piece that is itself bracketed
* `State.ofText` — the state that a text names

## What is deliberately absent

Brackets do not nest. A piece holds no comma, so a piece in brackets names one member at most
and is refused; what is reported is its innermost pair of brackets.
-/

namespace Determinize

namespace State

/-- What stands between the brackets, if the text `l` starts with the one and ends with the other. -/
def inside? (l : List Char) : Option (List Char) :=
  match l with
  | [] => none
  | c :: r =>
    if c = openBracket ∧ r.getLast? = some closeBracket then some r.dropLast else none

/-- The pieces of `l` between the commas, empty ones left out. -/
def pieces (l : List Char) : List (List Char) :=
  (l.splitOn separator).filter fun p => !p.isEmpty

/-- The innermost bracketed text that is reached from `l` by taking off at most `n` pairs of
brackets, if `l` is bracketed. -/
def innermost? : Nat → List Char → Option (List Char)
  | 0, _ => none
  | n + 1, l => (inside? l).map fun r => (innermost? n r).getD l

/-- What is wrong with the piece `l`, which holds no comma: nothing, unless it is bracketed. -/
def pieceFault? (l : List Char) : Option Fault :=
  (innermost? l.length l).map fun b =>
    if inside? b = some [] then .emptyComposite (String.ofList b)
    else .lonelyComposite (String.ofList b)

theorem category_of_pieceFault? {l : List Char} {fault : Fault} (h : pieceFault? l = some fault) :
    fault.category = .value := by
  rw [pieceFault?, Option.map_eq_some_iff] at h
  obtain ⟨b, -, rfl⟩ := h
  split <;> rfl

/-- The composite state with the members `l`, for the text `written`. -/
def ofPieces (written : String) (l : List (List Char)) : Except Fault State :=
  match l.findSome? pieceFault? with
  | some fault => .error fault
  | none =>
    match ofNames? (l.map String.ofList) with
    | none => .error (.emptyComposite written)
    | some (composite g) => .ok (composite g)
    | some _ => .error (.lonelyComposite written)

/-- The state that a text names. -/
def ofText (s : String) : Except Fault State :=
  match inside? s.toList with
  | none => .ok (simple s)
  | some r => ofPieces s (pieces r)

theorem ofText_of_inside?_eq_none {s : String} (h : inside? s.toList = none) :
    ofText s = .ok (simple s) := by
  simp [ofText, h]

/-- A text without the opening bracket names a simple state. -/
theorem ofText_of_not_mem {s : String} (h : openBracket ∉ s.toList) : ofText s = .ok (simple s) := by
  apply ofText_of_inside?_eq_none
  unfold inside?
  split
  · rfl
  · rename_i c r hc
    rw [hc] at h
    have : c ≠ openBracket := fun he => h (he ▸ List.mem_cons_self)
    simp [this]

example : (ofText "\x7bB,,A,B\x7d").toOption = ofNames? ["A", "B"] := by decide

example : pieceFault? "\x7b\x7bA\x7d\x7d".toList = some (.lonelyComposite "\x7bA\x7d") := by decide

end State

end Determinize
