import Determinize.Proofs.Minimal.Language
import Determinize.Proofs.Subset.Complete

/-!
# Minimization leaves nothing dangling

A merge takes one state away and leads to another what led there. The state that was kept may be
taken away by a later merge, and then what led to the first is led on to a third. Whatever the
order, there is in the end one map that sends each listed state to a state that is left and leaves
those alone, and every transition that is left is an old one with its targets sent along that map.

Such a map is a *retraction*. Two retractions one after the other are one; a single merge is one as
long as it keeps a listed state and removes neither the initial state nor the trap. So it remains to
see that each mode makes only merges of that kind. A pass looks at its pair anew before each merge.
The merges of a partition are chosen in advance, and there no state is removed that another one is
kept for.

Nothing is assumed of the transitions but that they stay within the listed states. The automaton may
be nondeterministic and have epsilon transitions; if it is deterministic or complete, it stays so.

## Main definitions

* `Automaton.Listed` — every state the automaton speaks of is listed
* `Automaton.Retracts` — what is left of an automaton, and where its states have gone
* `Automaton.Total` — one transition for each listed state and symbol

## Main results

* `Automaton.Retracts.trans`, `Automaton.retracts_merged` — one merge, and one after another
* `Automaton.exists_retracts_minimized` — every mode retracts
* `Automaton.retracts_minimized` — so nothing is lost or dangling in what it leaves
-/

namespace Determinize

/-- The transition with each target sent along `into`. -/
def Transition.redirect (into : State → State) (e : Transition) : Transition :=
  { e with targets := e.targets.map into }

namespace Automaton

/-- Every state that the automaton speaks of is listed. -/
structure Listed (a : Automaton) : Prop where
  /-- The initial state is listed. -/
  initial_mem : a.initial ∈ a.states
  /-- Every final state is listed. -/
  final_mem : ∀ s ∈ a.finals, s ∈ a.states
  /-- Every transition leaves a listed state. -/
  source_mem : ∀ e ∈ a.transitions, e.source ∈ a.states
  /-- Every transition leads to listed states. -/
  target_mem : ∀ e ∈ a.transitions, ∀ t ∈ e.targets, t ∈ a.states

/-- States were removed from `a`, and `b` is left. Each listed state went along `into` to a state
that is left, and with it the transitions that led there. -/
structure Retracts (a b : Automaton) (into : State → State) : Prop where
  /-- The initial state is the same. -/
  initial_eq : b.initial = a.initial
  /-- The symbols are the same. -/
  alphabet_eq : b.alphabet = a.alphabet
  /-- The initial state is left. -/
  initial_mem : a.initial ∈ b.states
  /-- The trap is left if it was there. -/
  trap_mem : .trap ∈ a.states → .trap ∈ b.states
  /-- The states that are left are listed in the order they had. -/
  states_eq : b.states = a.states.filter (· ∈ b.states)
  /-- The final states are those that are left, in the order they had. -/
  finals_eq : b.finals = a.finals.filter (· ∈ b.states)
  /-- The transitions are those whose source is left, in the order they had and each with its symbol
  and with one target for every target it had. -/
  transitions_eq :
    b.transitions = (a.transitions.filter (·.source ∈ b.states)).map (·.redirect into)
  /-- Each listed state goes to a state that is left. -/
  into_mem : ∀ s ∈ a.states, into s ∈ b.states
  /-- A state that is left stays where it is. -/
  into_eq : ∀ s ∈ b.states, into s = s

/-- Each listed state has one transition on each symbol of the alphabet, which leads to one listed
state. -/
def Total (a : Automaton) : Prop :=
  ∀ s ∈ a.states, ∀ x ∈ a.alphabet, ∃ t ∈ a.states,
    a.transitions.filter (·.leaves s x) = [⟨s, [t], x⟩]

variable {a b c : Automaton} {s remove keep : State} {x : Symbol} {into onward : State → State}
  {e : Transition}

/-! ### Retractions follow one another -/

theorem filter_mem_eq_self {l states : List State} (h : ∀ s ∈ l, s ∈ states) :
    l.filter (· ∈ states) = l :=
  List.filter_eq_self.mpr fun s hs => decide_eq_true (h s hs)

/-- Where less is left, it does not matter what was left before. -/
theorem filter_filter_mem {α : Type} {f : α → State} {l : List α} {states left : List State}
    (h : ∀ s ∈ left, s ∈ states) :
    (l.filter (f · ∈ states)).filter (f · ∈ left) = l.filter (f · ∈ left) := by
  rw [List.filter_filter]
  refine List.filter_congr fun y _ => ?_
  by_cases hy : f y ∈ left
  · simp [hy, h _ hy]
  · simp [hy]

theorem Listed.retracts_self (h : a.Listed) : a.Retracts a id where
  initial_eq := rfl
  alphabet_eq := rfl
  initial_mem := h.initial_mem
  trap_mem htrap := htrap
  states_eq := (filter_mem_eq_self fun _ hs => hs).symm
  finals_eq := (filter_mem_eq_self h.final_mem).symm
  transitions_eq := by
    have hfilter : a.transitions.filter (·.source ∈ a.states) = a.transitions :=
      List.filter_eq_self.mpr fun e he => decide_eq_true (h.source_mem e he)
    have hredirect : Transition.redirect id = id := by
      funext e
      rw [Transition.redirect, List.map_id]
      rfl
    rw [hfilter, hredirect, List.map_id]
  into_mem _ hs := hs
  into_eq _ _ := rfl

namespace Retracts

theorem states_sublist (h : a.Retracts b into) : b.states.Sublist a.states := by
  rw [h.states_eq]
  exact List.filter_sublist

/-- States that are sent on go along both maps. -/
theorem trans (h : a.Retracts b into) (h' : b.Retracts c onward) :
    a.Retracts c (onward ∘ into) where
  initial_eq := h'.initial_eq.trans h.initial_eq
  alphabet_eq := h'.alphabet_eq.trans h.alphabet_eq
  initial_mem := h.initial_eq ▸ h'.initial_mem
  trap_mem htrap := h'.trap_mem (h.trap_mem htrap)
  states_eq := by
    have hstates := h'.states_eq
    rwa [h.states_eq, filter_filter_mem (f := fun s => s) h'.states_sublist.subset] at hstates
  finals_eq := by
    rw [h'.finals_eq, h.finals_eq, filter_filter_mem (f := fun s => s) h'.states_sublist.subset]
  transitions_eq := by
    have hsource : ((fun e => decide (e.source ∈ c.states)) ∘ (·.redirect into)) =
        fun e : Transition => decide (e.source ∈ c.states) := rfl
    have hredirect : Transition.redirect onward ∘ Transition.redirect into =
        Transition.redirect (onward ∘ into) := by
      funext e
      simp only [Function.comp_apply, Transition.redirect, List.map_map]
    rw [h'.transitions_eq, h.transitions_eq, List.filter_map, hsource, List.map_map, hredirect,
      filter_filter_mem h'.states_sublist.subset]
  into_mem s hs := h'.into_mem _ (h.into_mem s hs)
  into_eq s hs := by
    rw [Function.comp_apply, h.into_eq s (h'.states_sublist.subset hs), h'.into_eq s hs]

theorem mem_transitions (h : a.Retracts b into) :
    e ∈ b.transitions ↔ ∃ f ∈ a.transitions, f.source ∈ b.states ∧ f.redirect into = e := by
  rw [h.transitions_eq, List.mem_map]
  simp only [List.mem_filter, decide_eq_true_eq, and_assoc]

/-- Nothing that is left speaks of a state that was removed. -/
theorem listed (h : a.Retracts b into) (hlisted : a.Listed) : b.Listed where
  initial_mem := h.initial_eq ▸ h.initial_mem
  final_mem s hs := by
    rw [h.finals_eq] at hs
    exact of_decide_eq_true (List.mem_filter.mp hs).2
  source_mem e he := by
    obtain ⟨f, -, hsource, rfl⟩ := h.mem_transitions.mp he
    exact hsource
  target_mem e he t ht := by
    obtain ⟨f, hf, -, rfl⟩ := h.mem_transitions.mp he
    obtain ⟨u, hu, rfl⟩ := List.mem_map.mp ht
    exact h.into_mem u (hlisted.target_mem f hf u hu)

/-! ### What else is kept -/

theorem deterministic (h : a.Retracts b into) (hdet : a.Deterministic) : b.Deterministic where
  initial_mem := h.initial_eq ▸ h.initial_mem
  target e he := by
    obtain ⟨f, hf, -, rfl⟩ := h.mem_transitions.mp he
    obtain ⟨t, ht, htargets⟩ := hdet.target f hf
    refine ⟨into t, h.into_mem t ht, ?_⟩
    rw [Transition.redirect, htargets, List.map_singleton]
  nodup_keys := by
    have hkey : Transition.key ∘ Transition.redirect into = Transition.key := rfl
    rw [h.transitions_eq, List.map_map, hkey]
    exact hdet.nodup_keys.sublist (List.filter_sublist.map _)

/-- The transitions from a state that is left are redirected. -/
theorem filter_leaves (h : a.Retracts b into) (hs : s ∈ b.states) :
    b.transitions.filter (·.leaves s x) =
      (a.transitions.filter (·.leaves s x)).map (·.redirect into) := by
  have hleaves : ((·.leaves s x) ∘ (·.redirect into)) = fun e : Transition => e.leaves s x := rfl
  rw [h.transitions_eq, List.filter_map, hleaves, List.filter_filter]
  congr 1
  refine List.filter_congr fun e _ => ?_
  cases he : e.leaves s x with
  | false => rfl
  | true =>
    rw [(Transition.leaves_iff.mp he).1]
    simpa using hs

theorem total (h : a.Retracts b into) (htotal : a.Total) : b.Total := by
  intro s hs x hx
  rw [h.alphabet_eq] at hx
  obtain ⟨t, ht, hrow⟩ := htotal s (h.states_sublist.subset hs) x hx
  refine ⟨into t, h.into_mem t ht, ?_⟩
  rw [h.filter_leaves hs, hrow]
  rfl

theorem head?_states (h : a.Retracts b into) (hhead : a.states.head? = some a.initial) :
    b.states.head? = some a.initial := by
  obtain ⟨rest, hrest⟩ := List.head?_eq_some_iff.mp hhead
  rw [h.states_eq, hrest, List.filter_cons_of_pos (by simpa using h.initial_mem)]
  rfl

theorem symbol_mem (h : a.Retracts b into) (hsymbol : ∀ e ∈ a.transitions, e.symbol ∈ a.alphabet) :
    ∀ e ∈ b.transitions, e.symbol ∈ b.alphabet := by
  intro e he
  obtain ⟨f, hf, -, rfl⟩ := h.mem_transitions.mp he
  exact h.alphabet_eq ▸ hsymbol f hf

theorem complete (h : a.Retracts b into) (hcomplete : a.Complete) : b.Complete where
  nodup_states := hcomplete.nodup_states.sublist h.states_sublist
  head?_states := h.initial_eq ▸ h.head?_states hcomplete.head?_states
  row := h.total hcomplete.row
  source_mem e he := by
    obtain ⟨f, -, hsource, rfl⟩ := h.mem_transitions.mp he
    exact hsource
  symbol_mem := h.symbol_mem hcomplete.symbol_mem
  not_isEpsilon e he := by
    obtain ⟨f, hf, -, rfl⟩ := h.mem_transitions.mp he
    exact hcomplete.not_isEpsilon f hf
  nodup_finals := by
    rw [h.finals_eq]
    exact hcomplete.nodup_finals.filter _
  finals_sublist := by
    have hsublist := hcomplete.finals_sublist.filter (· ∈ b.states)
    rwa [← h.finals_eq, ← h.states_eq] at hsublist

end Retracts

/-! ### One merge -/

/-- A merge that keeps what has to be kept is a retraction. -/
theorem retracts_merged (hlisted : a.Listed) (h : a.Admits remove keep) :
    a.Retracts (a.merged remove keep) (State.redirected remove keep) where
  initial_eq := rfl
  alphabet_eq := rfl
  initial_mem := mem_states_merged.mpr ⟨hlisted.initial_mem, h.initial_ne⟩
  trap_mem htrap := mem_states_merged.mpr ⟨htrap, h.trap_ne⟩
  states_eq := List.filter_congr fun s hs => by simp [mem_states_merged, hs]
  finals_eq := List.filter_congr fun s hs => by simp [mem_states_merged, hlisted.final_mem s hs]
  transitions_eq := by
    have hfilter : (a.transitions.filter fun e => e.source ≠ remove) =
        a.transitions.filter (·.source ∈ (a.merged remove keep).states) :=
      List.filter_congr fun e he => by simp [mem_states_merged, hlisted.source_mem e he]
    rw [← hfilter]
    rfl
  into_mem _ hs := h.redirected_mem hs
  into_eq s hs := if_neg (mem_states_merged.mp hs).2

/-! ### All modes -/

/-- What every mode leaves is a retract. -/
theorem exists_retracts_minimized (hnodup : a.states.Nodup) (h : a.Listed) (mode : Mode) :
    ∃ into, a.Retracts (a.minimized mode) into := by
  have hmerges : (a.minimized mode).Listed ∧ ∃ into, a.Retracts (a.minimized mode) into := by
    refine minimized_induction (motive := fun b => b.Listed ∧ ∃ into, a.Retracts b into) hnodup
      ⟨h, id, h.retracts_self⟩ ?_ mode
    -- a merge goes on from what has been retracted before
    rintro b remove keep ⟨hlisted, into, hretracts⟩ hadmits
    have hmerged := retracts_merged hlisted hadmits
    exact ⟨hmerged.listed hlisted, _, hretracts.trans hmerged⟩
  exact hmerges.2

/-- **Minimization leaves nothing dangling and loses nothing.** In every mode the initial state, the
symbols and the trap stay, the states that are left keep their order, the final states and the
transitions are the old ones as far as their states are left, and every state that is spoken of is
listed. A deterministic or complete automaton stays deterministic or complete. -/
theorem retracts_minimized (hnodup : a.states.Nodup) (h : a.Listed) (mode : Mode) :
    (∃ into, a.Retracts (a.minimized mode) into) ∧
      (a.minimized mode).Listed ∧
      (a.minimized mode).states.Sublist a.states ∧
      (a.Deterministic → (a.minimized mode).Deterministic) ∧
      (a.Total → (a.minimized mode).Total) ∧
      (a.Complete → (a.minimized mode).Complete) := by
  obtain ⟨into, hretracts⟩ := exists_retracts_minimized hnodup h mode
  exact ⟨⟨into, hretracts⟩, hretracts.listed h, hretracts.states_sublist, hretracts.deterministic,
    hretracts.total, hretracts.complete⟩

/-- A state that leads to two others on one symbol, which lead to a third. -/
def relay : Automaton where
  initial := .simple "q0"
  finals := [.simple "q1", .simple "q2", .simple "q3"]
  states := [.simple "q0", .simple "q1", .simple "q2", .simple "q3", .trap]
  alphabet := ["0"]
  transitions := [⟨.simple "q0", [.simple "q1", .simple "q2"], "0"⟩,
    ⟨.simple "q1", [.simple "q3"], "0"⟩, ⟨.simple "q2", [.simple "q3"], "0"⟩,
    ⟨.simple "q3", [.simple "q3"], "0"⟩]

/-- The first of the two is merged into the second and the second into the third, to which both
targets are led in the end. -/
theorem retracts_minimized_relay :
    relay.states.Nodup ∧ relay.Listed ∧ (∃ into, relay.Retracts (relay.minimized .single) into) ∧
      (relay.minimized .single).Listed ∧
      (relay.minimized .single).states = [.simple "q0", .simple "q3", .trap] ∧
      (relay.minimized .single).transitions =
        [⟨.simple "q0", [.simple "q3", .simple "q3"], "0"⟩,
          ⟨.simple "q3", [.simple "q3"], "0"⟩] := by
  have hnodup : relay.states.Nodup := by decide
  have hlisted : relay.Listed := ⟨by decide, by decide, by decide, by decide⟩
  obtain ⟨hretracts, hleft, -⟩ := retracts_minimized hnodup hlisted .single
  exact ⟨hnodup, hlisted, hretracts, hleft, by decide, by decide⟩

end Automaton

end Determinize
