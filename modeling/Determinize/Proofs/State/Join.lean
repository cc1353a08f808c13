import Determinize.Proofs.State.Members
import Determinize.State.Reading

/-!
# Combining states is a join

A combination is asked for two things only: whether there is an entry at all, and which names the
entries have. It is the one state with these names, and it is missing where there is no entry. So
the order of the entries, their repetitions and the way they are grouped have no influence, and
taking a state apart is undone by combining its parts. The trap needs no case of its own: it is the
state without names, so it is the result where entries are there and none of them has a name.

## Main definitions

* `State.Among` — a name is one of those that the entries have
* `Raw.ofEntry` — an entry as a value of any kind

## Main results

* `State.combine_eq_some_iff` — the state that a combination is, by its names
* `State.combine_append`, `State.combine_map_parts` — grouping, and the inverse law
* `State.combine_eq_some_trap_iff` — when the trap is left
* `State.combine_join` — all laws together, with the value that combining any values gives
-/

namespace Determinize

/-- An entry of a collection of states as a value of any kind. -/
def Raw.ofEntry : Option State → Raw
  | none => .null
  | some s => .state s

namespace State

variable {s t : State} {n : String} {xs ys : List (Option State)}

/-- The name is one of those that the entries have. -/
def Among (n : String) (entries : List (Option State)) : Prop :=
  ∃ s, some s ∈ entries ∧ n ∈ s.names

/-! ### The names of a combination -/

theorem exists_combine_eq_some_iff : (∃ t, combine xs = some t) ↔ ∃ s, some s ∈ xs := by
  rw [← Option.isSome_iff_exists, Option.isSome_iff_ne_none, ne_eq, combine_eq_none_iff]
  simp only [not_forall, not_not]

/-- A combination is the state that has the names of the entries, if there is an entry. -/
theorem combine_eq_some_iff :
    combine xs = some t ↔ (∃ s, some s ∈ xs) ∧ ∀ n, n ∈ t.names ↔ Among n xs := by
  constructor
  · intro h
    exact ⟨exists_combine_eq_some_iff.mp ⟨t, h⟩, fun n => mem_names_of_combine h⟩
  · rintro ⟨hentry, hnames⟩
    obtain ⟨u, hu⟩ := exists_combine_eq_some_iff.mpr hentry
    have hut : u = t := eq_of_mem_names_iff fun n => (mem_names_of_combine hu).trans (hnames n).symm
    rw [hu, hut]

theorem among_combine_iff (n : String) (xs : List (Option State)) :
    (∃ t, combine xs = some t ∧ n ∈ t.names) ↔ Among n xs := by
  constructor
  · rintro ⟨t, ht, hn⟩
    exact (mem_names_of_combine ht).mp hn
  · rintro ⟨s, hs, hn⟩
    obtain ⟨t, ht⟩ := exists_combine_eq_some_iff.mpr ⟨s, hs⟩
    exact ⟨t, ht, (mem_names_of_combine ht).mpr ⟨s, hs, hn⟩⟩

/-! ### Order, repetition and grouping -/

/-- What a combination is asked for determines it. -/
theorem combine_congr (hentry : (∃ s, some s ∈ xs) ↔ ∃ s, some s ∈ ys)
    (hnames : ∀ n, Among n xs ↔ Among n ys) : combine xs = combine ys := by
  refine Option.ext fun t => ?_
  rw [combine_eq_some_iff, combine_eq_some_iff, hentry]
  simp only [hnames]

/-- Order and repetition of the entries do not matter. -/
theorem combine_eq_of_mem_iff (h : ∀ e, e ∈ xs ↔ e ∈ ys) : combine xs = combine ys := by
  refine combine_congr ?_ fun n => ?_
  · simp only [h]
  · simp only [Among, h]

/-- The entries can be combined in two groups first. -/
theorem combine_append (xs ys : List (Option State)) :
    combine (xs ++ ys) = combine [combine xs, combine ys] := by
  have hmem : ∀ s, some s ∈ [combine xs, combine ys] ↔
      combine xs = some s ∨ combine ys = some s := by
    intro s
    simp only [List.mem_cons, List.not_mem_nil, or_false, eq_comm]
  refine combine_congr ?_ fun n => ?_
  · simp only [hmem, List.mem_append, exists_or, exists_combine_eq_some_iff]
  · have hgroups : Among n [combine xs, combine ys] ↔ Among n xs ∨ Among n ys := by
      rw [← among_combine_iff n xs, ← among_combine_iff n ys]
      simp only [Among, hmem, or_and_right, exists_or]
    rw [hgroups]
    simp only [Among, List.mem_append, or_and_right, exists_or]

/-! ### Taking a state apart -/

theorem simple_mem_parts_iff : simple n ∈ s.parts ↔ n ∈ s.names := by
  cases s with
  | simple m => simp [parts]
  | composite g => simp [parts]
  | trap => simp [parts]

theorem mem_names_iff_exists_parts : n ∈ s.names ↔ ∃ p ∈ s.parts, n ∈ p.names := by
  cases s with
  | simple m => simp [parts]
  | composite g => simp [parts]
  | trap => simp [parts]

/-- A state is the combination of its parts. -/
theorem combine_map_parts (s : State) : combine (s.parts.map some) = some s := by
  have hmem : ∀ p, some p ∈ s.parts.map some ↔ p ∈ s.parts := by
    intro p
    simp
  refine combine_eq_some_iff.mpr ⟨?_, fun n => ?_⟩
  · obtain ⟨p, hp⟩ := List.exists_mem_of_ne_nil _ s.parts_ne_nil
    exact ⟨p, (hmem p).mpr hp⟩
  · rw [mem_names_iff_exists_parts]
    simp only [Among, hmem]

/-- The parts of a combination other than the trap are the parts of the entries other than the
trap, ordered by name. -/
theorem parts_of_combine (h : combine xs = some s) (hs : s ≠ trap) :
    ∃ names, s.parts = names.map simple ∧ Ascending names ∧
      ∀ n, n ∈ names ↔ ∃ t, some t ∈ xs ∧ t ≠ trap ∧ simple n ∈ t.parts := by
  refine ⟨s.names, parts_eq_map_names hs, s.ascending_names, fun n => ?_⟩
  rw [mem_names_of_combine h]
  constructor
  · rintro ⟨t, ht, hn⟩
    refine ⟨t, ht, ?_, simple_mem_parts_iff.mpr hn⟩
    rintro rfl
    exact absurd hn List.not_mem_nil
  · rintro ⟨t, ht, -, hn⟩
    exact ⟨t, ht, simple_mem_parts_iff.mp hn⟩

/-! ### Nothing, and the trap -/

theorem combine_eq_none_iff_forall : combine xs = none ↔ ∀ e ∈ xs, e = none := by
  rw [combine_eq_none_iff]
  constructor
  · intro h e he
    cases e with
    | none => rfl
    | some s => exact absurd he (h s)
  · intro h s hs
    exact absurd (h _ hs) (by simp)

/-- The trap is left where it is an entry and no other state is. -/
theorem combine_eq_some_trap_iff :
    combine xs = some trap ↔ some trap ∈ xs ∧ ∀ e ∈ xs, e = some trap ∨ e = none := by
  have htrap : ∀ s, (∀ n, n ∉ s.names) ↔ s = trap := by
    intro s
    rw [← List.eq_nil_iff_forall_not_mem, names_eq_nil_iff]
  rw [combine_eq_some_iff]
  constructor
  · rintro ⟨⟨s, hs⟩, hnames⟩
    have hall : ∀ t, some t ∈ xs → t = trap := by
      intro t ht
      refine (htrap t).mp fun n hn => ?_
      exact absurd ((hnames n).mpr ⟨t, ht, hn⟩) List.not_mem_nil
    refine ⟨hall s hs ▸ hs, fun e he => ?_⟩
    cases e with
    | none => exact Or.inr rfl
    | some t => exact Or.inl (congrArg some (hall t he))
  · rintro ⟨hmem, hall⟩
    refine ⟨⟨trap, hmem⟩, fun n => ⟨fun hn => absurd hn List.not_mem_nil, ?_⟩⟩
    rintro ⟨s, hs, hn⟩
    rcases hall _ hs with h | h
    · obtain rfl := Option.some.inj h
      exact hn
    · exact absurd h (by simp)

/-! ### Values of any kind -/

/-- States and absent entries are never refused. -/
theorem combineRaw_list (xs : List (Option State)) :
    combineRaw (.list (xs.map Raw.ofEntry)) = .ok (combine xs) := by
  have hentry : ∀ e, entry (Raw.ofEntry e) = .ok e := by
    intro e
    cases e <;> rfl
  have hentries : (xs.map Raw.ofEntry).mapM entry = .ok xs := by
    induction xs with
    | nil => rfl
    | cons e xs ih =>
      rw [List.map_cons, List.mapM_cons, hentry, ih]
      rfl
  show ((xs.map Raw.ofEntry).mapM entry >>= fun entries => pure (combine entries)) = _
  rw [hentries]
  rfl

/-- **Combining states is a join, and taking apart is its inverse.** States and absent entries are
always combined, and the result depends on the set of entries alone. Groups can be combined first; a
state is the combination of its parts; the parts of a result are the parts of the entries in order
of their names. Nothing comes of nothing, and the trap of nothing but the trap. -/
theorem combine_join (xs ys : List (Option State)) :
    combineRaw (.list (xs.map Raw.ofEntry)) = .ok (combine xs) ∧
      (∀ zs, (∀ e, e ∈ xs ↔ e ∈ zs) → combine xs = combine zs) ∧
      combine (xs ++ ys) = combine [combine xs, combine ys] ∧
      (∀ s : State, combine (s.parts.map some) = some s) ∧
      (∀ s, combine xs = some s → s ≠ trap →
        ∃ names, s.parts = names.map simple ∧ Ascending names ∧
          ∀ n, n ∈ names ↔ ∃ t, some t ∈ xs ∧ t ≠ trap ∧ simple n ∈ t.parts) ∧
      (combine xs = none ↔ ∀ e ∈ xs, e = none) ∧
      (combine xs = some trap ↔ some trap ∈ xs ∧ ∀ e ∈ xs, e = some trap ∨ e = none) :=
  ⟨combineRaw_list xs, fun _ => combine_eq_of_mem_iff, combine_append xs ys, combine_map_parts,
    fun _ => parts_of_combine, combine_eq_none_iff_forall, combine_eq_some_trap_iff⟩

/-- Three spellings of one set: a trap beside states, two groups of which one is the trap, and a
repeated state out of order. -/
theorem combine_join_trapBesideStates :
    combine [some trap, some (simple "B"), none, some (simple "A")] =
        combine [some (simple "A"), some (simple "B"), some trap, none, some (simple "A")] ∧
      combine ([some trap, none] ++ [some (simple "B"), some (simple "A")]) =
        combine [combine [some trap, none], combine [some (simple "B"), some (simple "A")]] ∧
      combine [some trap, none] = some trap := by
  obtain ⟨-, hset, -⟩ := combine_join [some trap, some (simple "B"), none, some (simple "A")] []
  obtain ⟨-, -, hgroups, -, -, -, htrap⟩ :=
    combine_join [some trap, none] [some (simple "B"), some (simple "A")]
  refine ⟨hset _ fun e => ?_, hgroups, htrap.mpr (by simp)⟩
  simp only [List.mem_cons, List.not_mem_nil, or_false]
  tauto

end State

end Determinize
