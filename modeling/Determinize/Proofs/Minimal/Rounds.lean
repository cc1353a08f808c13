import Determinize.Proofs.Minimal.Refinement

/-!
# The course of a refinement

Refinement is a loop: it counts the blocks, and as long as there are not as many as a round ago it
makes another round. Nothing is counted before the first round, so without any states there is no
round at all. Every round but the last makes a new block, and no block is empty, so there are at
most as many rounds as states.

What the loop leaves is what words can tell. From each of two states a word is read to its end or it
is not, and a missing transition is a third outcome beside the two ways to end: the blocks that are
left are those of the states that agree on all three.

## Main definitions

* `Automaton.Rounds` — the course of the loop, with the number of its rounds
* `Automaton.arrival?` — the state in which a run ends that reads its word to the end

## Main results

* `Automaton.rounds_partition_iff` — the loop has one course, and it leaves `Automaton.partition`
* `Automaton.indistinct_iff_arrival?` — indistinct states arrive alike on words over the alphabet
* `Automaton.partition_exact` — the blocks that are left, and who shares one
-/

namespace Determinize

/-- The state in which the run ends, if it reads its word to the end. -/
def Run.last? (r : Run) : Option State :=
  match r.ending with
  | .read _ s => some s
  | _ => none

namespace Automaton

variable {a : Automaton} {blocks rest other : Partition} {p q s : State} {x : Symbol}
  {word : List Symbol} {before n m : ℕ}

/-! ### The loop -/

/-- The loop from `blocks` on, a round ago having counted `before` blocks: it makes so many rounds
and leaves these blocks. -/
inductive Rounds (a : Automaton) : (before : ℕ) → Partition → ℕ → Partition → Prop
  /-- There are as many blocks as a round ago. -/
  | stop {before : ℕ} {blocks : Partition} :
      blocks.length = before → Rounds a before blocks 0 blocks
  /-- There are not, and the loop goes on from the next round. -/
  | round {before n : ℕ} {blocks rest : Partition} : blocks.length ≠ before →
      Rounds a blocks.length (a.refined a.index blocks) n rest → Rounds a before blocks (n + 1) rest

/-- The loop has one course only. -/
theorem Rounds.unique (h : a.Rounds before blocks n rest) (h' : a.Rounds before blocks m other) :
    n = m ∧ rest = other := by
  induction h generalizing m with
  | stop heq =>
    cases h' with
    | stop => exact ⟨rfl, rfl⟩
    | round hne => exact absurd heq hne
  | round hne _ ih =>
    cases h' with
    | stop heq => exact absurd heq hne
    | round _ h' =>
      obtain ⟨rfl, rfl⟩ := ih h'
      exact ⟨rfl, rfl⟩

/-- Once the loop has begun a round it ends, and the fuel of `refineWithin` lasts for it: every
round but the last makes a new block, and there are at most as many blocks as states. -/
theorem exists_rounds_refineWithin {states : List State} (h : blocks.Splits states)
    (hbefore : blocks.length ≠ before) (hn : states.length < n + blocks.length) :
    ∃ k, k + blocks.length ≤ states.length + 1 ∧
      a.Rounds before blocks k (a.refineWithin a.index n blocks) := by
  induction n generalizing blocks before with
  | zero => exact absurd h.length_le (by omega)
  | succ n ih =>
    have hle : blocks.length ≤ states.length := h.length_le
    have hgrown : blocks.length ≤ (a.refined a.index blocks).length := length_le_length_refined h
    rw [refineWithin_succ]
    by_cases hlength : (a.refined a.index blocks).length = blocks.length
    · rw [if_pos hlength]
      exact ⟨1, by omega, .round hbefore (.stop hlength)⟩
    · rw [if_neg hlength]
      obtain ⟨k, hk, hrounds⟩ := ih (splits_refined h) hlength (by omega)
      exact ⟨k + 1, by omega, .round hbefore hrounds⟩

/-- The loop ends after at most as many rounds as there are states. -/
theorem exists_rounds_partition (a : Automaton) :
    ∃ k ≤ a.states.length, a.Rounds 0 a.byAcceptance k a.partition := by
  have hstart := splits_byAcceptance a
  cases hblocks : a.byAcceptance with
  | nil =>
    -- without states there is nothing to refine
    have hpartition : a.partition = [] := by rw [partition, hblocks]; rfl
    rw [hpartition]
    exact ⟨0, Nat.zero_le _, .stop rfl⟩
  | cons b blocks =>
    rw [hblocks] at hstart
    have hne : (b :: blocks).length ≠ 0 := by simp
    have hfuel : a.states.length < a.states.length + 1 + (b :: blocks).length := by omega
    obtain ⟨k, hk, hrounds⟩ := exists_rounds_refineWithin (a := a) hstart hne hfuel
    rw [List.length_cons] at hk
    rw [partition, hblocks]
    exact ⟨k, by omega, hrounds⟩

/-- The loop has one course, which ends with the blocks of `Automaton.partition`. -/
theorem rounds_partition_iff (a : Automaton) :
    ∃ k ≤ a.states.length, ∀ m rest, a.Rounds 0 a.byAcceptance m rest ↔
      m = k ∧ rest = a.partition := by
  obtain ⟨k, hk, hrounds⟩ := exists_rounds_partition a
  refine ⟨k, hk, fun m rest => ⟨fun h => h.unique hrounds, ?_⟩⟩
  rintro ⟨rfl, rfl⟩
  exact hrounds

/-! ### Where runs arrive -/

/-- The state in which the run on the word from the state `s` ends, if it reads the word to the
end. -/
def arrival? (a : Automaton) (s : State) (word : List Symbol) : Option State :=
  (a.runFrom a.index s word).last?

/-- A run arrives where the run from its first successor arrives. -/
theorem arrival?_cons :
    a.arrival? s (x :: word) =
      if x ∈ a.alphabet then (successors a.transitions s x).head?.bind (a.arrival? · word)
      else none := by
  rw [arrival?, runFrom, next?, successors_index]
  by_cases hx : x ∈ a.alphabet
  · rw [if_pos hx, if_pos hx]
    cases (successors a.transitions s x).head? with
    | none => rfl
    | some t => rfl
  · rw [if_neg hx, if_neg hx]
    rfl

/-- The outcome of a run is whether it accepts where it arrives. -/
theorem outcome_eq_map_arrival? : a.outcome s word = (a.arrival? s word).map a.isFinal := by
  induction word generalizing s with
  | nil => rfl
  | cons x word ih =>
    rw [outcome_cons, arrival?_cons]
    split
    · cases (successors a.transitions s x).head? with
      | none => rfl
      | some t => exact ih
    · rfl

/-- Two runs have the same outcome when neither arrives, or both do and the states they arrive in
agree on finality. -/
theorem outcome_eq_outcome_iff :
    a.outcome p word = a.outcome q word ↔
      Option.Rel (fun s t => s ∈ a.finals ↔ t ∈ a.finals) (a.arrival? p word)
        (a.arrival? q word) := by
  rw [outcome_eq_map_arrival?, outcome_eq_map_arrival?]
  cases a.arrival? p word <;> cases a.arrival? q word
  · exact iff_of_true rfl .none
  · exact iff_of_false (by simp) (by rintro ⟨⟩)
  · exact iff_of_false (by simp) (by rintro ⟨⟩)
  · rename_i s t
    rw [Option.map_some, Option.map_some, Option.some_inj, Bool.eq_iff_iff, isFinal_iff,
      isFinal_iff]
    exact ⟨fun h => .some h, by rintro ⟨h⟩; exact h⟩

/-- A word with a symbol that is not in the alphabet tells no states apart. -/
theorem indistinct_iff_arrival? :
    a.Indistinct p q ↔ ∀ word, (∀ x ∈ word, x ∈ a.alphabet) →
      Option.Rel (fun s t => s ∈ a.finals ↔ t ∈ a.finals) (a.arrival? p word)
        (a.arrival? q word) := by
  constructor
  · exact fun h word _ => outcome_eq_outcome_iff.mp (h word)
  · intro h word
    by_cases hword : ∀ x ∈ word, x ∈ a.alphabet
    · exact outcome_eq_outcome_iff.mpr (h word hword)
    · push Not at hword
      obtain ⟨x, hx, hforeign⟩ := hword
      rw [outcome_eq_none_of_mem hx hforeign, outcome_eq_none_of_mem hx hforeign]

/-! ### What is left -/

/-- **Refinement separates exactly the states that some word tells apart.** Where each transition
leads to one listed state and no two leave the same state on the same symbol, the loop ends, after
at most as many rounds as states; the blocks it leaves hold each listed state once and nothing else,
and none is empty; and two states share a block exactly if on every word over the alphabet neither
run arrives, or both do and agree on finality. -/
theorem partition_exact (hnodup : a.states.Nodup)
    (htarget : ∀ e ∈ a.transitions, ∃ t ∈ a.states, e.targets = [t])
    (hkeys : (a.transitions.map Transition.key).Nodup) :
    (∃ k ≤ a.states.length, ∀ m rest, a.Rounds 0 a.byAcceptance m rest ↔
        m = k ∧ rest = a.partition) ∧
      (∀ block ∈ a.partition, block ≠ []) ∧
      (∀ s, a.partition.flatten.count s = if s ∈ a.states then 1 else 0) ∧
      ∀ p ∈ a.states, ∀ q ∈ a.states, a.partition.Together p q ↔
        ∀ word, (∀ x ∈ word, x ∈ a.alphabet) →
          Option.Rel (fun s t => s ∈ a.finals ↔ t ∈ a.finals) (a.arrival? p word)
            (a.arrival? q word) := by
  have hsplits := splits_partition a
  refine ⟨rounds_partition_iff a, hsplits.ne_nil, fun s => ?_, fun p hp q hq => ?_⟩
  · rw [hsplits.perm.count_eq, hnodup.count]
  · have hfunctional : a.Functional := functional_of_nodup_keys htarget hkeys
    rw [together_partition_iff hfunctional hnodup hp hq, indistinct_iff_arrival?]

/-- A chain without final states, and one more state before its second. Only the missing transition
at its end tells its states apart. -/
def openChain : Automaton where
  initial := .simple "q0"
  finals := []
  states := [.simple "q0", .simple "q1", .simple "q2", .simple "q3", .simple "p0"]
  alphabet := ["0"]
  transitions := [⟨.simple "q0", [.simple "q1"], "0"⟩, ⟨.simple "q1", [.simple "q2"], "0"⟩,
    ⟨.simple "q2", [.simple "q3"], "0"⟩, ⟨.simple "p0", [.simple "q1"], "0"⟩]

/-- The states of the chain are split off from its end, and the two at its front stay together. -/
theorem partition_exact_openChain :
    openChain.states.Nodup ∧
      (∀ e ∈ openChain.transitions, ∃ t ∈ openChain.states, e.targets = [t]) ∧
      (openChain.transitions.map Transition.key).Nodup ∧
      openChain.byAcceptance.length = 1 ∧
      openChain.partition = [[.simple "q0", .simple "p0"], [.simple "q1"], [.simple "q2"],
        [.simple "q3"]] ∧
      (∃ k ≤ 5, openChain.Rounds 0 openChain.byAcceptance k openChain.partition) ∧
      ∀ word, (∀ x ∈ word, x ∈ openChain.alphabet) →
        Option.Rel (fun s t => s ∈ openChain.finals ↔ t ∈ openChain.finals)
          (openChain.arrival? (.simple "q0") word) (openChain.arrival? (.simple "p0") word) := by
  have hnodup : openChain.states.Nodup := by decide
  have htarget : ∀ e ∈ openChain.transitions, ∃ t ∈ openChain.states, e.targets = [t] := by decide
  have hkeys : (openChain.transitions.map Transition.key).Nodup := by decide
  obtain ⟨⟨k, hk, hrounds⟩, -, -, htogether⟩ := partition_exact hnodup htarget hkeys
  refine ⟨hnodup, htarget, hkeys, by decide, by decide, ⟨k, hk, (hrounds _ _).mpr ⟨rfl, rfl⟩⟩, ?_⟩
  exact (htogether _ (by decide) _ (by decide)).mp
    ⟨[.simple "q0", .simple "p0"], by decide, by decide, by decide⟩

end Automaton

end Determinize
