import Determinize.Proofs.Successors
import Determinize.Workbench
import Mathlib.Data.List.Basic

/-!
# Both ways of looking up successors

A question is a state and a symbol. The state may be given by its name, and then it is the state
with that name which is asked about, as a set where the name is in brackets. The symbol is compared
as it is written, so the spellings of an epsilon symbol are different questions.

What is stored for a question are the targets of the transitions that match it, one transition after
the other. The scan collects them and drops repetitions when all are there. The table is filled
while other questions interleave and drops repetitions under each key as they come. That makes no
difference: a target is dropped if it has come before, and for this only the targets under its own
key matter.

## Main definitions

* `stored` — the targets that are stored for a question, with repetitions

## Main results

* `pairwise_idxOf_eraseDups` — dropping repetitions keeps the order of first occurrence
* `Workbench.nextAnswer_str` — what is answered to a question
* `successors_exact` — the answers of the scan and the table agree and are the right ones
-/

namespace Determinize

variable {s t : State} {x : Symbol}

/-- The targets of the transitions from `s` on `x`, as they are stored. -/
def stored (transitions : List Transition) (s : State) (x : Symbol) : List State :=
  (transitions.filter (·.leaves s x)).flatMap (·.targets)

/-- Dropping repetitions asks of the last member whether it has come before. -/
theorem eraseDups_append_singleton (l : List State) (u : State) :
    (l ++ [u]).eraseDups = if u ∈ l then l.eraseDups else l.eraseDups ++ [u] := by
  rw [List.eraseDups_append]
  by_cases hu : u ∈ l
  · simp [List.removeAll, hu]
  · have hremove : [u].removeAll l = [u] := by simp [List.removeAll, hu]
    rw [hremove, eraseDups_eq_self (List.nodup_singleton u), if_neg hu]

/-- What is left without repetitions stands in the order in which it first occurred. -/
theorem pairwise_idxOf_eraseDups (l : List State) :
    l.eraseDups.Pairwise fun s t => l.idxOf s < l.idxOf t := by
  induction l using List.reverseRecOn with
  | nil => simp
  | append_singleton l u ih =>
    have hold : ∀ s ∈ l.eraseDups, (l ++ [u]).idxOf s = l.idxOf s := fun s hs =>
      List.idxOf_append_of_mem (List.mem_eraseDups.mp hs)
    have hpairs : l.eraseDups.Pairwise fun s t => (l ++ [u]).idxOf s < (l ++ [u]).idxOf t := by
      refine ih.imp_of_mem fun {s t} hs ht hst => ?_
      rwa [hold s hs, hold t ht]
    rw [eraseDups_append_singleton]
    by_cases hu : u ∈ l
    · rwa [if_pos hu]
    · -- a member that has not come before stands behind all others
      rw [if_neg hu, List.pairwise_append]
      refine ⟨hpairs, List.pairwise_singleton _ u, fun s hs t ht => ?_⟩
      obtain rfl := List.mem_singleton.mp ht
      rw [hold s hs, List.idxOf_append_of_notMem hu]
      exact Nat.lt_of_lt_of_le (List.idxOf_lt_length_of_mem (List.mem_eraseDups.mp hs))
        (Nat.le_add_right _ _)

/-- So successors stand in the order in which they are first stored. -/
theorem pairwise_idxOf_successors (transitions : List Transition) (s : State) (x : Symbol) :
    (successors transitions s x).Pairwise fun t u =>
      (stored transitions s x).idxOf t < (stored transitions s x).idxOf u :=
  pairwise_idxOf_eraseDups (stored transitions s x)

theorem Index.hasTransition_iff (ix : Index) (s : State) (x : Symbol) :
    ix.hasTransition s x = true ↔ ix.successors s x ≠ [] := by
  rw [hasTransition, Bool.not_eq_true', ne_eq, ← List.isEmpty_iff, Bool.not_eq_true]

/-- What is answered where the name of a state and a symbol are given, and no table was kept. -/
theorem Workbench.nextAnswer_str (w : Workbench) (a : Automaton) {name : Raw}
    (hname : State.ofRaw name = .ok s) (x : Symbol) :
    w.nextAnswer (.of a) none name (.str x) =
      .ok (.successors (successors a.transitions s x) (a.index.successors s x)
        (a.index.hasTransition s x)) := by
  rw [nextAnswer, hname]
  rfl

/-- **The table and the scan answer every question alike, and rightly.** The answer holds the
targets of the transitions from the state on the symbol, each once and in the order in which they
are first stored, and there is a transition where the answer holds a state. -/
theorem successors_exact (transitions : List Transition) (x : Symbol) {name : Raw}
    (hname : State.ofRaw name = .ok s) :
    (Index.ofTransitions transitions).successors s x = successors transitions s x ∧
      (successors transitions s x).Nodup ∧
      (∀ t, t ∈ successors transitions s x ↔
        ∃ e ∈ transitions, e.source = s ∧ e.symbol = x ∧ t ∈ e.targets) ∧
      ((successors transitions s x).Pairwise fun t u =>
        (stored transitions s x).idxOf t < (stored transitions s x).idxOf u) ∧
      ((Index.ofTransitions transitions).hasTransition s x = true ↔
        successors transitions s x ≠ []) ∧
      ∀ (w : Workbench) (a : Automaton), a.transitions = transitions →
        w.nextAnswer (.of a) none name (.str x) =
          .ok (.successors (successors transitions s x) (successors transitions s x)
            ((Index.ofTransitions transitions).hasTransition s x)) := by
  refine ⟨Index.successors_ofTransitions transitions s x, nodup_eraseDups _,
    fun t => mem_successors, pairwise_idxOf_successors transitions s x, ?_, fun w a ha => ?_⟩
  · rw [Index.hasTransition_iff, Index.successors_ofTransitions]
  · rw [w.nextAnswer_str a hname, a.successors_index, ha, Automaton.index, ha]

/-- Transitions of one source and symbol with others between them, with repeated and overlapping
targets and with none, and two spellings of an epsilon symbol. -/
def interleaved : List Transition :=
  [⟨.composite ⟨["B", "C"], by decide, by decide⟩, [.simple "C", .simple "B", .simple "C"], "0"⟩,
    ⟨.simple "B", [.simple "A"], "0"⟩,
    ⟨.composite ⟨["B", "C"], by decide, by decide⟩, [], "1"⟩,
    ⟨.composite ⟨["B", "C"], by decide, by decide⟩, [.simple "B", .trap, .simple "C"], "0"⟩,
    ⟨.composite ⟨["B", "C"], by decide, by decide⟩, [.simple "B"], "λ"⟩,
    ⟨.composite ⟨["B", "C"], by decide, by decide⟩, [.simple "C"], " λ"⟩]

/-- A set is asked about by its name. It leads to three states on the one symbol and nowhere on the
other, though there is a transition. -/
theorem successors_exact_interleaved :
    State.ofRaw (.str "{C,B}") = .ok (.composite ⟨["B", "C"], by decide, by decide⟩) ∧
      (∀ (w : Workbench) (a : Automaton), a.transitions = interleaved →
        w.nextAnswer (.of a) none (.str "{C,B}") (.str "0") =
          .ok (.successors [.simple "C", .simple "B", .trap] [.simple "C", .simple "B", .trap]
            true)) ∧
      successors interleaved (.composite ⟨["B", "C"], by decide, by decide⟩) "λ" = [.simple "B"] ∧
      (Index.ofTransitions interleaved).hasTransition
        (.composite ⟨["B", "C"], by decide, by decide⟩) "1" = false := by
  have hname : State.ofRaw (.str "{C,B}") =
      .ok (.composite ⟨["B", "C"], by decide, by decide⟩) := by decide
  obtain ⟨-, -, -, -, -, hanswer⟩ := successors_exact interleaved "0" hname
  refine ⟨hname, fun w a ha => ?_, by decide, by decide⟩
  rw [hanswer w a ha]
  rfl

end Determinize
