import Determinize.Reading
import Determinize.Subset.Construction
/-!
# Replaying a construction step by step

A replay shows what a construction has made after 1, 2, … steps. Its last step, one after the
number of steps of the whole construction, is never interrupted and shows the whole.

## Main definitions

* `Replay` — an automaton and the number of steps of its construction
* `Replay.stepNumbers`, `Replay.isFinalStep`, `Replay.stepAt?` — the steps there are
* `Replay.stepAtRaw` — the step that a value of any kind names
* `stepLimit` — the limit of a construction named by a value of any kind

## Main results

* `Replay.stepAtRaw_eq_ok_iff` — only the number of a step names it
-/

namespace Determinize

/-- The limit of a construction that a value names: a positive whole number, or none. -/
def stepLimit : Raw → Except Fault (Option Nat)
  | .null => .ok none
  | .int n => if 0 < n then .ok (some n.toNat) else .error (.badLimit (toString n))
  | x => .error (.badLimit x.quoted)

/-- A construction that is shown step by step. -/
structure Replay where
  /-- The automaton the construction starts from. -/
  automaton : Automaton
  /-- The number of steps of the whole construction. -/
  completedSteps : Nat
deriving DecidableEq

namespace Replay

/-- The replay of the construction for an automaton. -/
def of (a : Automaton) : Replay := ⟨a, a.determinized.steps⟩

/-- The last step, which shows the whole construction. -/
def lastStep (r : Replay) : Nat := r.completedSteps + 1

/-- The steps that can be shown, from the first to the last. -/
def stepNumbers (r : Replay) : List Nat := List.range' 1 r.lastStep

/-- Whether the step shows the whole construction. -/
def isFinalStep (r : Replay) (k : Nat) : Bool := k = r.lastStep

/-- The construction after `k` steps, if there is such a step. -/
def stepAt? (r : Replay) (k : Nat) : Option Construction :=
  if k ∈ r.stepNumbers then some (r.automaton.determinizedUpTo k) else none

/-- Whether the value is a number of the last step. -/
def isFinalStepRaw (r : Replay) (x : Raw) : Bool := x.same (.int r.lastStep)

/-- Whether the value is equal to the number of a step. -/
def hasStep (r : Replay) (x : Raw) : Bool := r.stepNumbers.any fun (k : Nat) => x.same (.int k)

/-- The number of the step that the value names, and the construction after so many steps. A value
that is equal to such a number without being a whole number names a step, but no limit of a
construction. -/
def stepAtRaw (r : Replay) (x : Raw) : Except Fault (Nat × Construction) :=
  match x with
  | .int n =>
    match r.stepAt? n.toNat with
    | some c => .ok (n.toNat, c)
    | none => .error (.noSuchStep r.lastStep x.text)
  | x => .error (if r.hasStep x then .badLimit x.quoted else .noSuchStep r.lastStep x.text)

variable {r : Replay} {k : Nat} {c : Construction} {x : Raw}

theorem mem_stepNumbers : k ∈ r.stepNumbers ↔ 1 ≤ k ∧ k ≤ r.lastStep := by
  rw [stepNumbers, List.mem_range'_1]
  omega

theorem stepAt?_eq_some_iff :
    r.stepAt? k = some c ↔ k ∈ r.stepNumbers ∧ r.automaton.determinizedUpTo k = c := by
  rw [stepAt?, Option.ite_none_right_eq_some, Option.some.injEq]

/-- What names a step is its number, and what is shown then is the construction after so many
steps. -/
theorem stepAtRaw_eq_ok_iff : r.stepAtRaw x = .ok (k, c) ↔ x = .int k ∧ r.stepAt? k = some c := by
  cases x with
  | int n =>
    simp only [stepAtRaw, Raw.int.injEq]
    cases hstep : r.stepAt? n.toNat with
    | none =>
      constructor
      · intro h
        cases h
      · rintro ⟨rfl, h⟩
        rw [Int.toNat_natCast, h] at hstep
        cases hstep
    | some d =>
      -- there is no step zero, so the number is positive
      have hpos := (mem_stepNumbers.mp (stepAt?_eq_some_iff.mp hstep).1).1
      constructor
      · intro h
        cases h
        exact ⟨(Int.toNat_of_nonneg (by omega)).symm, hstep⟩
      · rintro ⟨rfl, h⟩
        rw [Int.toNat_natCast, h] at hstep
        cases hstep
        rw [Int.toNat_natCast]
  | _ => simp [stepAtRaw]

/-- Each of the steps that a replay offers is shown when it is asked for by its number. -/
theorem stepAtRaw_int (hk : k ∈ r.stepNumbers) :
    r.stepAtRaw (.int k) = .ok (k, r.automaton.determinizedUpTo k) :=
  stepAtRaw_eq_ok_iff.mpr ⟨rfl, stepAt?_eq_some_iff.mpr ⟨hk, rfl⟩⟩

end Replay

end Determinize
