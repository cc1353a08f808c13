import Determinize.Automaton.Reading
/-!
# Drafts

The parts of an automaton can be replaced without any check, and then anything may stand where its
transitions should stand: a list with other things between the transitions, or a value that is no
list at all. A draft is an automaton in that condition. What has to look at the transitions fails
at the first thing that is none of them; what does not look at them works as on any automaton.

## Main definitions

* `Draft` — an automaton, and what follows its transitions from the first thing that is none
* `Draft.of`, `Draft.withEntries` — an automaton as a draft, and a draft with other transitions
* `Draft.asked` — the automaton, for what asks every transition the same question
* `Draft.checked` — the automaton, for what insists on transitions

## Main results

* `Draft.entries_withEntries` — a draft keeps what was put in place of its transitions, and if that
  has no elements, every look at them fails for this reason

## Implementation notes

The transitions before the first stray are those of the automaton, so a draft without strays is an
automaton and nothing else. Transitions behind a stray are never reached by a look from the front;
they are kept with the strays, since they are shown. A value without elements is not kept: nothing
but the fault of a walk through it is ever seen of it.
-/

namespace Determinize

/-- An automaton in place of whose transitions anything may stand. -/
structure Draft where
  /-- The automaton with the transitions before the first stray. -/
  automaton : Automaton
  /-- The first thing that is no transition, and everything behind it; or why there is nothing to
  walk through. -/
  strays : Except Fault (List Raw)
  /-- What is first among the strays is no transition. -/
  head_strays : ∀ l t, strays = .ok l → l.head? ≠ some (.transition t)

namespace Draft

/-- What can be asked of a transition. -/
inductive Facet where
  /-- The state it leaves. -/
  | source
  /-- The symbol it reads. -/
  | symbol
  /-- Whether it reads nothing. -/
  | silence
deriving DecidableEq, Repr

/-- The name of the facet, for messages. -/
def Facet.name : Facet → String
  | source => "state"
  | symbol => "symbol"
  | silence => "is_epsilon"

/-- The automaton as a draft. -/
def of (a : Automaton) : Draft where
  automaton := a
  strays := .ok []
  head_strays l t h := by cases h; simp

/-- The transitions at the front of a list, and the rest of it. -/
def leading : List Raw → List Transition × List Raw
  | .transition t :: l => (t :: (leading l).1, (leading l).2)
  | l => ([], l)

theorem head?_leading (l : List Raw) (t : Transition) :
    (leading l).2.head? ≠ some (.transition t) := by
  induction l with
  | nil => simp [leading]
  | cons x l ih => cases x <;> simp [leading, ih]

theorem map_transition_leading (l : List Raw) :
    (leading l).1.map .transition ++ (leading l).2 = l := by
  induction l with
  | nil => rfl
  | cons x l ih => cases x <;> simp [leading, ih]

/-- The draft with the elements of the value for its transitions. -/
def withEntries (d : Draft) (x : Raw) : Draft :=
  match x.elements with
  | .ok l =>
    { automaton := { d.automaton with transitions := (leading l).1 }
      strays := .ok (leading l).2
      head_strays := fun k t h => by cases h; exact head?_leading l t }
  | .error fault =>
    { automaton := { d.automaton with transitions := [] }
      strays := .error fault
      head_strays := fun k t h => by cases h }

/-- Everything that stands where the transitions should stand. -/
def entries (d : Draft) : Except Fault (List Raw) :=
  d.strays.map (d.automaton.transitions.map .transition ++ ·)

/-- The automaton, where every transition is asked for a facet: a stray has no such facet. -/
def asked (d : Draft) (facet : Facet) : Except Fault Automaton := do
  match ← d.strays with
  | [] => return d.automaton
  | x :: _ => throw (.noAttribute x.kind facet.name)

/-- The automaton, where nothing but transitions will do. -/
def checked (d : Draft) : Except Fault Automaton := do
  match ← d.strays with
  | [] => return d.automaton
  | x :: _ => throw (.notATransition x.kind)

/-- Whether some transition reads nothing. A stray is met only if none before it does. -/
def hasEpsilon (d : Draft) : Except Fault Bool :=
  if d.automaton.hasEpsilon then .ok true else (d.asked .silence).map Automaton.hasEpsilon

/-- The draft in full, one entry a line. -/
def describe (d : Draft) : Except Fault String := do
  let lines := (← d.strays).map fun x => "  " ++ x.quoted
  return "\n".intercalate (d.automaton.describe :: lines)

/-- The draft on one line. -/
def summary (d : Draft) : Except Fault String := do
  return d.automaton.summaryOf (← d.entries).length

@[simp] theorem asked_of (a : Automaton) (facet : Facet) : (of a).asked facet = .ok a := rfl

@[simp] theorem checked_of (a : Automaton) : (of a).checked = .ok a := rfl

@[simp] theorem hasEpsilon_of (a : Automaton) : (of a).hasEpsilon = .ok a.hasEpsilon := by
  cases h : a.hasEpsilon <;> simp [hasEpsilon, Except.map, h, of, asked, bind, Except.bind, pure,
    Except.pure]

@[simp] theorem summary_of (a : Automaton) : (of a).summary = .ok a.summary := by
  simp [summary, entries, of, Except.map, bind, Except.bind, pure, Except.pure,
    Automaton.summary]

@[simp] theorem entries_withEntries (d : Draft) (x : Raw) :
    (d.withEntries x).entries = x.elements := by
  unfold withEntries entries
  split
  · next l h => simp [Except.map, map_transition_leading, h]
  · next fault h => simp [Except.map, h]

end Draft

end Determinize
