import Determinize.Proofs.Epsilon.Reachability
import Determinize.Proofs.Successors
import Determinize.Run.Nondeterministic

/-!
# The sets that a nondeterministic run goes through

A run that follows all possibilities at once starts in the closure of the initial state, and each
symbol takes it to the closure of the successors. So every set it is in is closed under epsilon
transitions, which is what makes the order of reading and silent moving irrelevant. A set that is
empty stays empty, so a run may give up there without reading on.

## Main definitions

* `Automaton.acceptsFrom` — reading a word, and giving up as soon as no state is left

## Main results

* `Automaton.mem_reached_nil`, `Automaton.mem_reached_append_singleton` — the first set, and the
  next one
* `Automaton.mem_reached_of_epsilonReach` — all of them are closed
* `Automaton.accepts_iff` — acceptance, as a member of the last set
* `Automaton.accepts_eq_acceptsFrom` — giving up early changes nothing
-/

namespace Determinize

namespace Automaton

variable {a : Automaton} {s t : State} {x : Symbol} {word : List Symbol}

theorem mem_reached_nil : t ∈ a.reached [] ↔ EpsilonReach a.transitions a.initial t :=
  mem_closure

theorem mem_reached_append_singleton :
    t ∈ a.reached (word ++ [x]) ↔
      ∃ s ∈ a.reached word, ∃ u ∈ a.symbolIndex.successors s x,
        EpsilonReach a.transitions u t := by
  rw [reached, List.foldl_append, List.foldl_cons, List.foldl_nil, advance, mem_closureFrom]
  constructor
  · rintro ⟨u, hu, hut⟩
    obtain ⟨s, hs, hsu⟩ := List.mem_flatMap.mp hu
    exact ⟨s, hs, u, hsu, hut⟩
  · rintro ⟨s, hs, u, hsu, hut⟩
    exact ⟨u, List.mem_flatMap.mpr ⟨s, hs, hsu⟩, hut⟩

/-- The sets are closed under epsilon transitions. -/
theorem mem_reached_of_epsilonReach (hs : s ∈ a.reached word)
    (hst : EpsilonReach a.transitions s t) : t ∈ a.reached word := by
  induction word using List.reverseRecOn with
  | nil => exact mem_reached_nil.mpr ((mem_reached_nil.mp hs).trans hst)
  | append_singleton word x _ =>
    obtain ⟨r, hr, u, hu, hus⟩ := mem_reached_append_singleton.mp hs
    exact mem_reached_append_singleton.mpr ⟨r, hr, u, hu, hus.trans hst⟩

theorem accepts_iff : a.accepts word = true ↔ ∃ t ∈ a.reached word, t ∈ a.finals := by
  simp [accepts]

/-- A symbol that no transition reads leaves no state to be in, and that stays so. -/
theorem accepts_eq_false_of_mem (hx : x ∈ word)
    (h : ∀ e ∈ a.transitions, e.isEpsilon = false → e.symbol ≠ x) : a.accepts word = false := by
  have hempty : ∀ t, t ∉ a.reached word := by
    induction word using List.reverseRecOn with
    | nil => exact absurd hx List.not_mem_nil
    | append_singleton word y ih =>
      intro t ht
      obtain ⟨s, hs, u, hu, -⟩ := mem_reached_append_singleton.mp ht
      obtain ⟨e, he, hread, -, hsymbol, -⟩ := mem_successors_symbolIndex.mp hu
      rcases List.mem_append.mp hx with hx | hx
      · exact ih hx s hs
      · exact h e he hread (hsymbol.trans (List.mem_singleton.mp hx).symm)
  rw [Bool.eq_false_iff, ne_eq, accepts_iff]
  rintro ⟨t, ht, -⟩
  exact hempty t ht

/-! ### Giving up early -/

/-- Whether some run on the word from one of the states `l` ends in a final state. The word is not
read on where no state is left. -/
def acceptsFrom (a : Automaton) (l : List State) : List Symbol → Bool
  | [] => l.any a.isFinal
  | x :: word =>
    let next := a.advance a.symbolIndex l x
    if next.isEmpty then false else a.acceptsFrom next word

theorem foldl_advance_nil : word.foldl (a.advance a.symbolIndex) [] = [] := by
  have hstay : ∀ x, a.advance a.symbolIndex [] x = [] := fun x =>
    List.eq_nil_iff_forall_not_mem.mpr fun t ht => by simp [advance, mem_closureFrom] at ht
  induction word with
  | nil => rfl
  | cons x word ih => rw [List.foldl_cons, hstay, ih]

theorem acceptsFrom_eq (l : List State) :
    a.acceptsFrom l word = (word.foldl (a.advance a.symbolIndex) l).any a.isFinal := by
  induction word generalizing l with
  | nil => rfl
  | cons x word ih =>
    rw [acceptsFrom, List.foldl_cons]
    by_cases hempty : a.advance a.symbolIndex l x = []
    · simp [hempty, foldl_advance_nil]
    · simp [hempty, ih]

/-- A word is accepted if it is accepted by a run that gives up as soon as no state is left. -/
theorem accepts_eq_acceptsFrom :
    a.accepts word = a.acceptsFrom (closure a.transitions a.initial) word :=
  (acceptsFrom_eq _).symm

end Automaton

end Determinize
