import Determinize.Proofs.Subset.Prefixes

/-!
# A construction that comes to its end leaves nothing out

While it goes on a construction is deterministic; at its end every set listed has been explored, so
every set has its one transition on every symbol. The trap is no exception. If a set leads nowhere
before any set leads to the trap, the trap gets its loops at once and is never explored; if the
given automaton has a trap of its own that a set leads to first, it is explored like any other set
and gets no loops. It is listed either way, and listed once, so it gets one row.

Nothing is assumed of the states here: they may be sets or the trap themselves.

## Main definitions

* `Automaton.Complete` — one transition for each listed state and symbol, and nothing else

## Main results

* `Automaton.Complete.movesBy` — runs of a complete automaton go by a function
* `Automaton.complete_determinized` — the subset construction makes a complete automaton
-/

namespace Determinize

namespace Automaton

/-- Each listed state has exactly one transition on each symbol of the alphabet, which leads to
exactly one listed state, and there are no other transitions. -/
structure Complete (a : Automaton) : Prop where
  /-- No state is listed twice. -/
  nodup_states : a.states.Nodup
  /-- The initial state is listed first. -/
  head?_states : a.states.head? = some a.initial
  /-- One transition is stored for each listed state and symbol, and it has one listed target. -/
  row : ∀ s ∈ a.states, ∀ x ∈ a.alphabet, ∃ t ∈ a.states,
    a.transitions.filter (·.leaves s x) = [⟨s, [t], x⟩]
  /-- Every transition leaves a listed state. -/
  source_mem : ∀ e ∈ a.transitions, e.source ∈ a.states
  /-- Every transition reads a symbol of the alphabet. -/
  symbol_mem : ∀ e ∈ a.transitions, e.symbol ∈ a.alphabet
  /-- No transition is an epsilon transition. -/
  not_isEpsilon : ∀ e ∈ a.transitions, e.isEpsilon = false
  /-- No final state is listed twice. -/
  nodup_finals : a.finals.Nodup
  /-- The final states are listed states, in the same order. -/
  finals_sublist : a.finals.Sublist a.states

variable {a : Automaton}

/-- The one target of each transition is the next state of a run. -/
theorem Complete.movesBy (h : a.Complete) : ∃ next, a.MovesBy next := by
  refine exists_movesBy (List.mem_of_mem_head? h.head?_states) fun s hs x hx => ?_
  obtain ⟨t, ht, hrow⟩ := h.row s hs x hx
  refine ⟨t, ht, ?_⟩
  rw [successors, hrow]
  rfl

theorem Complete.ending_run_ne_stuck (h : a.Complete) (word : List Symbol) (s : State)
    (x : Symbol) : (a.run word).ending ≠ .stuck s x := by
  obtain ⟨next, hmoves⟩ := h.movesBy
  exact hmoves.ending_runFrom_ne_stuck hmoves.initial_mem

end Automaton

namespace Subset

variable {a : Automaton} {s : State} {x : Symbol}

/-- The initial state is the first one found. -/
theorem head?_states_course (a : Automaton) (k : ℕ) :
    (course a k).states.head? = some a.initial := by
  obtain ⟨rest, hrest⟩ := (Course.isPrefix_run (Course.start a.initial) k).states
  rw [course, ← hrest]
  rfl

/-- At the end there is one transition for each set and symbol. -/
theorem exists_filter_leaves (halphabet : a.alphabet.Nodup) (hs : s ∈ (complete a).states)
    (hx : x ∈ (complete a).alphabet) :
    ∃ t ∈ (complete a).states, (complete a).transitions.filter (·.leaves s x) = [⟨s, [t], x⟩] := by
  have hdet := deterministic_course halphabet (bound a)
  have hsettled := settled_course a (bound a)
  have hunexplored : s ∉ (course a (bound a)).pending := by
    rw [pending_course]
    exact List.not_mem_nil
  obtain ⟨e, he, hsource, hsymbol⟩ := hsettled.covered s (mem_states_automaton.mp hs) hunexplored x
    (mem_alphabet_automaton.mp hx).1
  obtain ⟨t, ht, htargets⟩ := hdet.target e he
  subst hsource hsymbol
  refine ⟨t, ht, ?_⟩
  rw [Automaton.filter_leaves_eq_singleton hdet.nodup_keys he, ← htargets]

/-- What a construction has made at its end is complete. -/
theorem complete_course (h : a.WellFormed) : (complete a).Complete where
  nodup_states := (Automaton.wellFormed_of ..).nodup_states
  head?_states := by
    rw [complete, states_automaton_course]
    exact head?_states_course a _
  row s hs x hx := exists_filter_leaves h.nodup_alphabet hs hx
  source_mem e he := source_mem_course he
  symbol_mem e he := symbol_mem_course h he
  not_isEpsilon e he := h.not_isEpsilon _ ((settled_course a _).lawful e he).symbol_mem
  nodup_finals := (Automaton.wellFormed_of ..).nodup_finals
  finals_sublist := by
    rw [complete, finals_automaton_course, states_automaton_course]
    exact List.filter_sublist

end Subset

namespace Automaton

variable {a : Automaton}

theorem WellFormed.alphabet_eliminated (h : a.WellFormed) :
    a.eliminated.alphabet = a.alphabet := by
  rw [eliminated]
  split
  · exact h.alphabet_of ..
  · rfl

theorem WellFormed.alphabet_determinized (h : a.WellFormed) :
    a.determinized.automaton.alphabet = a.alphabet := by
  have helim : a.determinized.automaton.alphabet = a.eliminated.alphabet :=
    (wellFormed_eliminated h).alphabet_of ..
  rw [helim, h.alphabet_eliminated]

/-- **The subset construction makes a complete automaton**, over the given alphabet and from the
given initial state, whatever kinds of states it is applied to. So a run on it is stopped by no
listed state. -/
theorem complete_determinized (h : a.WellFormed) :
    a.determinized.interrupted = false ∧
      a.determinized.automaton.initial = a.initial ∧
      a.determinized.automaton.alphabet = a.alphabet ∧
      a.determinized.automaton.Complete ∧
      ∀ word s x, (a.determinized.automaton.run word).ending ≠ .stuck s x := by
  have hcomplete : a.determinized.automaton.Complete :=
    Subset.complete_course (wellFormed_eliminated h)
  refine ⟨?_, initial_determinized a, h.alphabet_determinized, hcomplete,
    hcomplete.ending_run_ne_stuck⟩
  simp [determinized, Construction.ofCourse, Subset.pending_course]

/-- A state that leads to a trap with a way out, and on the other symbol nowhere. -/
def leakyTrap : Automaton :=
  of (.simple "A") [.simple "A"] [.simple "A", .trap] ["0", "1"]
    [⟨.simple "A", [.trap], "0"⟩, ⟨.trap, [.simple "A"], "1"⟩]

/-- The trap is found as a target and explored, so it keeps its way out, and where it leads nowhere
it leads to itself. -/
theorem complete_determinized_leakyTrap :
    leakyTrap.WellFormed ∧ leakyTrap.determinized.automaton.Complete ∧
      (leakyTrap.determinized.automaton.run ["0", "1"]).ending ≠ .stuck (.simple "A") "0" ∧
      leakyTrap.determinized.automaton.transitions =
        [⟨.simple "A", [.trap], "0"⟩, ⟨.simple "A", [.trap], "1"⟩, ⟨.trap, [.trap], "0"⟩,
          ⟨.trap, [.simple "A"], "1"⟩] := by
  have hwell : leakyTrap.WellFormed := wellFormed_of ..
  obtain ⟨-, -, -, hcomplete, hrun⟩ := complete_determinized hwell
  exact ⟨hwell, hcomplete, hrun ["0", "1"] (.simple "A") "0", by decide⟩

end Automaton

end Determinize
