import Determinize.Proofs.State.Join
import Determinize.State.Bracket

/-!
# What a text in brackets names

A text in brackets is the combination of its pieces, each of which is read as a text of its own.
This is a recursion through the pieces, but a short one: a piece holds no comma, so if it is in
brackets itself it has one piece at most, and is refused. Hence brackets do not nest, and a text in
brackets names a set exactly when it has two different pieces and none of them is in brackets.

What the pieces of a text are is said by `IsPiece` without splitting it: they are the stretches
between neighbouring commas, or between a comma and an end of the text.

The text of a composite state has its names for pieces, unless a name holds a comma or is empty. So
it is read as the same state exactly if no name does, and none is in brackets.

## Main definitions

* `State.Brackets` — a text in brackets, and what is inside
* `State.IsPiece` — a stretch between commas
* `State.NamesSet` — there are two different pieces, and none is in brackets
* `State.listed` — what the text of a composite state has between its brackets

## Main results

* `State.mem_pieces` — the pieces that are read are those that are not empty
* `State.ofText_of_inside?` — a text in brackets is the combination of its pieces
* `State.ofText_of_brackets` — what such a text names, or that it is refused
* `State.ofText_text_iff` — which composite states are read from their text
* `State.ofText_exact` — both together, and all other texts
-/

namespace Determinize

namespace State

variable {l r p : List Char} {v n : String} {fault : Fault} {names : List String}

/-- The text `l` is `r` in brackets. -/
def Brackets (l r : List Char) : Prop := l = openBracket :: (r ++ [closeBracket])

/-- The text `p` is a stretch of `l` without a comma, from the beginning of `l` or a comma to a comma
or the end of `l`. -/
def IsPiece (l p : List Char) : Prop :=
  separator ∉ p ∧ ∃ before after, l = before ++ p ++ after ∧
    (before = [] ∨ before.getLast? = some separator) ∧
    (after = [] ∨ after.head? = some separator)

/-- There are at least two different pieces that are not empty, and no piece is in brackets. -/
def NamesSet (r : List Char) : Prop :=
  (∃ p q, p ≠ q ∧ (p ≠ [] ∧ IsPiece r p) ∧ q ≠ [] ∧ IsPiece r q) ∧
    ∀ p b, IsPiece r p → ¬Brackets p b

/-! ### Brackets -/

theorem inside?_eq_some_iff : inside? l = some r ↔ Brackets l r := by
  rw [Brackets]
  cases l with
  | nil => simp [inside?]
  | cons c t =>
    rw [inside?]
    constructor
    · intro h
      split at h
      case isTrue hc =>
        obtain ⟨rfl, hlast⟩ := hc
        obtain ⟨u, rfl⟩ := List.getLast?_eq_some_iff.mp hlast
        simpa using h
      case isFalse => exact absurd h (by simp)
    · intro h
      obtain ⟨rfl, rfl⟩ := List.cons.inj h
      simp

theorem inside?_eq_none_iff : inside? l = none ↔ ∀ r, ¬Brackets l r := by
  rw [Option.eq_none_iff_forall_ne_some]
  exact forall_congr' fun r => not_congr inside?_eq_some_iff

theorem length_of_inside? (h : inside? l = some r) : l.length = r.length + 2 := by
  rw [show l = _ from inside?_eq_some_iff.mp h]
  simp

theorem not_mem_of_inside? {c : Char} (h : inside? l = some r) (hc : c ∉ l) : c ∉ r := by
  rw [show l = _ from inside?_eq_some_iff.mp h] at hc
  simp_all

/-! ### Pieces -/

theorem isPiece_of_mem_splitOn (h : p ∈ l.splitOn separator) : IsPiece l p := by
  -- the first comma leaves a shorter text behind it, so induct on the length
  induction hn : l.length using Nat.strongRecOn generalizing l with
  | _ n ih =>
    by_cases hmem : separator ∈ l
    · obtain ⟨q, rest, rfl, hq⟩ := List.eq_append_cons_of_mem hmem
      rw [List.splitOn_append_cons_self_of_not_mem hq, List.mem_cons] at h
      rcases h with rfl | h
      · exact ⟨hq, [], separator :: rest, rfl, Or.inl rfl, Or.inr rfl⟩
      · have hlt : rest.length < n := by
          rw [← hn, List.length_append, List.length_cons]
          omega
        obtain ⟨hp, before, after, hrest, hbefore, hafter⟩ := ih rest.length hlt h rfl
        refine ⟨hp, q ++ separator :: before, after, by simp [hrest], Or.inr ?_, hafter⟩
        rcases hbefore with rfl | hbefore
        · simp
        · simp [List.getLast?_cons, hbefore]
    · rw [List.splitOn_eq_singleton hmem, List.mem_singleton] at h
      subst h
      exact ⟨hmem, [], [], by simp, Or.inl rfl, Or.inl rfl⟩

theorem IsPiece.mem_splitOn (h : IsPiece l p) : p ∈ l.splitOn separator := by
  obtain ⟨hp, before, after, rfl, hbefore, hafter⟩ := h
  have hend : p ∈ (p ++ after).splitOn separator := by
    rcases hafter with rfl | hafter
    · rw [List.append_nil, List.splitOn_eq_singleton hp]
      exact List.mem_singleton.mpr rfl
    · obtain ⟨rest, rfl⟩ := List.head?_eq_some_iff.mp hafter
      rw [List.splitOn_append_cons_self_of_not_mem hp]
      exact List.mem_cons_self
  rcases hbefore with rfl | hbefore
  · exact hend
  · obtain ⟨start, rfl⟩ := List.getLast?_eq_some_iff.mp hbefore
    have hsplit : start ++ [separator] ++ p ++ after = start ++ separator :: (p ++ after) := by
      simp
    rw [hsplit, List.splitOn_append_cons_self]
    exact List.mem_append_right _ hend

/-- The pieces that are read are those that are not empty. -/
theorem mem_pieces : p ∈ pieces l ↔ p ≠ [] ∧ IsPiece l p := by
  have hsplit : p ∈ l.splitOn separator ↔ IsPiece l p :=
    ⟨isPiece_of_mem_splitOn, IsPiece.mem_splitOn⟩
  rw [pieces, List.mem_filter, hsplit, and_comm]
  simp

theorem not_mem_of_mem_pieces (h : p ∈ pieces l) : separator ∉ p := (mem_pieces.mp h).2.1

/-- A text without a comma has one piece at most. -/
theorem pieces_of_not_mem (h : separator ∉ l) : pieces l = if l = [] then [] else [l] := by
  rw [pieces, List.splitOn_eq_singleton h]
  by_cases hl : l = []
  · simp [hl]
  · simp [hl]

/-! ### Pieces in brackets -/

/-- Taking off more pairs of brackets than there is room for finds nothing new. -/
theorem innermost?_succ {k : ℕ} (h : l.length ≤ k) : innermost? (k + 1) l = innermost? k l := by
  induction k generalizing l with
  | zero =>
    obtain rfl := List.eq_nil_of_length_eq_zero (Nat.le_zero.mp h)
    rfl
  | succ k ih =>
    rw [innermost?, innermost?]
    cases hin : inside? l with
    | none => rfl
    | some r =>
      have hlength := length_of_inside? hin
      rw [Option.map_some, Option.map_some, ih (by omega)]

theorem pieceFault?_of_inside?_eq_none (h : inside? l = none) : pieceFault? l = none := by
  rw [pieceFault?]
  cases hlength : l.length with
  | zero => rfl
  | succ k => rw [innermost?, h, Option.map_none, Option.map_none]

/-- A text in brackets is refused for what is wrong with the text inside, and for itself if that is
not in brackets. -/
theorem pieceFault?_of_inside? (h : inside? l = some r) :
    pieceFault? l = some ((pieceFault? r).getD
      (if r = [] then .emptyComposite (String.ofList l) else .lonelyComposite (String.ofList l))) := by
  rw [pieceFault?, pieceFault?, length_of_inside? h, innermost?, h, Option.map_some,
    Option.map_some, innermost?_succ (Nat.le_refl _)]
  cases innermost? r.length r with
  | none => simp [h]
  | some b => rfl

theorem pieceFault?_eq_none_iff : pieceFault? l = none ↔ inside? l = none := by
  refine ⟨fun h => ?_, pieceFault?_of_inside?_eq_none⟩
  cases hin : inside? l with
  | none => rfl
  | some r => simp [pieceFault?_of_inside? hin] at h

/-! ### The recursion through the pieces -/

/-- A text without a comma names a simple state, unless it is in brackets. -/
theorem ofText_ofList (h : separator ∉ l) :
    ofText (String.ofList l) =
      match pieceFault? l with
      | some fault => .error fault
      | none => .ok (simple (String.ofList l)) := by
  rw [ofText, String.toList_ofList]
  cases hin : inside? l with
  | none => rw [pieceFault?_of_inside?_eq_none hin]
  | some r =>
    rw [pieceFault?_of_inside? hin]
    show ofPieces _ (pieces r) = _
    rw [ofPieces, pieces_of_not_mem (not_mem_of_inside? hin h)]
    by_cases hr : r = []
    · subst hr
      rfl
    · rw [if_neg hr, if_neg hr, List.findSome?_cons]
      cases pieceFault? r <;> rfl

/-- Texts without a comma are read one by one, up to the first that is in brackets. -/
theorem mapM_ofText_ofList {ps : List (List Char)} (h : ∀ p ∈ ps, separator ∉ p) :
    (ps.mapM fun p => ofText (String.ofList p)) =
      match ps.findSome? pieceFault? with
      | some fault => .error fault
      | none => .ok ((ps.map String.ofList).map simple) := by
  induction ps with
  | nil => rfl
  | cons p ps ih =>
    obtain ⟨hp, hps⟩ := List.forall_mem_cons.mp h
    rw [List.mapM_cons, ofText_ofList hp, ih hps, List.findSome?_cons]
    cases pieceFault? p with
    | some fault => rfl
    | none => cases ps.findSome? pieceFault? <;> rfl

/-- Simple states are combined by their names. -/
theorem combine_map_simple (names : List String) :
    combine ((names.map simple).map some) = ofNames? names := by
  have hentries : ((names.map simple).map some).reduceOption = names.map simple := by
    simp [List.reduceOption]
  rw [combine, hentries]
  simp [List.flatMap_map]

/-- What the combination of the pieces of the text `v` is taken for: only a composite state will
do. -/
def ofCombination (v : String) : Option State → Except Fault State
  | some (composite g) => .ok (composite g)
  | some _ => .error (.lonelyComposite v)
  | none => .error (.emptyComposite v)

theorem exists_ofCombination_eq_error {s? : Option State} (h : ∀ g, s? ≠ some (composite g)) :
    ∃ fault, ofCombination v s? = .error fault ∧ fault.category = .value := by
  cases s? with
  | none => exact ⟨_, rfl, rfl⟩
  | some s =>
    cases s with
    | simple k => exact ⟨_, rfl, rfl⟩
    | composite g => exact absurd rfl (h g)
    | trap => exact ⟨_, rfl, rfl⟩

/-- A text in brackets is the combination of its pieces, each read as a text of its own. It is
refused if a piece is, and if they have no name or only one. -/
theorem ofText_of_inside? (h : inside? v.toList = some r) :
    ofText v = ((pieces r).mapM fun p => ofText (String.ofList p)) >>= fun members =>
      ofCombination v (combine (members.map some)) := by
  rw [mapM_ofText_ofList fun p hp => not_mem_of_mem_pieces hp, ofText, h]
  show ofPieces v (pieces r) = _
  rw [ofPieces]
  cases (pieces r).findSome? pieceFault? with
  | some fault => rfl
  | none =>
    show _ = ofCombination v (combine ((((pieces r).map String.ofList).map simple).map some))
    rw [combine_map_simple]
    cases ofNames? ((pieces r).map String.ofList) with
    | none => rfl
    | some s => cases s <;> rfl

/-! ### Sets of names -/

/-- A composite state has two different members. -/
theorem exists_ne_of_group (g : Group) : ∃ m ∈ g.names, ∃ n ∈ g.names, m ≠ n := by
  obtain ⟨names, hascending, hlength⟩ := g
  match names with
  | [] => exact absurd hlength (by simp)
  | [_] => exact absurd hlength (by simp)
  | m :: n :: rest =>
    refine ⟨m, List.mem_cons_self, n, List.mem_cons_of_mem _ List.mem_cons_self, ?_⟩
    rintro rfl
    exact Std.lt_irrefl ((List.pairwise_cons.mp hascending).1 m List.mem_cons_self)

/-- Names have a composite state if two of them differ. -/
theorem exists_composite_of_ne {m : String} (hm : m ∈ names) (hn : n ∈ names) (hne : m ≠ n) :
    ∃ g, ofNames? names = some (composite g) ∧ ∀ k, k ∈ g.names ↔ k ∈ names := by
  cases hs : ofNames? names with
  | none =>
    obtain rfl := ofNames?_eq_none_iff.mp hs
    exact absurd hm List.not_mem_nil
  | some s =>
    have hnames : ∀ k, k ∈ s.names ↔ k ∈ names := by
      intro k
      rw [(names_of_ofNames? hs).1, mem_ascending]
    cases s with
    | simple k =>
      have hmk : m = k := List.mem_singleton.mp ((hnames m).mpr hm)
      have hnk : n = k := List.mem_singleton.mp ((hnames n).mpr hn)
      exact absurd (hmk.trans hnk.symm) hne
    | composite g => exact ⟨g, rfl, hnames⟩
    | trap => exact absurd rfl (names_of_ofNames? hs).2

/-- If no two names differ, their state is not composite. -/
theorem ofNames?_ne_composite (h : ∀ m ∈ names, ∀ n ∈ names, m = n) (g : Group) :
    ofNames? names ≠ some (composite g) := by
  intro hs
  obtain ⟨m, hm, n, hn, hne⟩ := exists_ne_of_group g
  have hnames : ∀ k ∈ g.names, k ∈ names := by
    intro k hk
    rw [show g.names = _ from (names_of_ofNames? hs).1] at hk
    exact mem_ascending.mp hk
  exact hne (h m (hnames m hm) n (hnames n hn))

/-! ### Texts in brackets -/

theorem mem_map_ofList {ps : List (List Char)} : n ∈ ps.map String.ofList ↔ n.toList ∈ ps := by
  rw [List.mem_map]
  constructor
  · rintro ⟨p, hp, rfl⟩
    rwa [String.toList_ofList]
  · intro hn
    exact ⟨n.toList, hn, String.ofList_toList⟩

/-- The names that a text in brackets lists. -/
theorem mem_names_pieces : n ∈ (pieces r).map String.ofList ↔ n ≠ "" ∧ IsPiece r n.toList := by
  rw [mem_map_ofList, mem_pieces, ne_eq, ne_eq, String.toList_eq_nil_iff]

theorem namesSet_iff :
    NamesSet r ↔ (∃ m ∈ (pieces r).map String.ofList, ∃ n ∈ (pieces r).map String.ofList, m ≠ n) ∧
      ∀ p ∈ pieces r, pieceFault? p = none := by
  have hempty : ∀ b, ¬Brackets [] b := fun b h => List.cons_ne_nil _ _ h.symm
  constructor
  · rintro ⟨⟨p, q, hne, hp, hq⟩, hplain⟩
    refine ⟨⟨_, List.mem_map_of_mem (mem_pieces.mpr hp), _, List.mem_map_of_mem (mem_pieces.mpr hq),
      mt String.ofList_inj.mp hne⟩, fun p hp => ?_⟩
    exact pieceFault?_eq_none_iff.mpr
      (inside?_eq_none_iff.mpr fun b => hplain p b (mem_pieces.mp hp).2)
  · rintro ⟨⟨m, hm, n, hn, hne⟩, hplain⟩
    refine ⟨⟨m.toList, n.toList, mt String.toList_inj.mp hne, mem_pieces.mp (mem_map_ofList.mp hm),
      mem_pieces.mp (mem_map_ofList.mp hn)⟩, fun p b hp => ?_⟩
    by_cases hnil : p = []
    · exact hnil ▸ hempty b
    · exact inside?_eq_none_iff.mp
        (pieceFault?_eq_none_iff.mp (hplain p (mem_pieces.mpr ⟨hnil, hp⟩))) b

instance : Decidable (NamesSet r) := decidable_of_iff _ namesSet_iff.symm

/-- A text in brackets names the set of its pieces, or is refused. -/
theorem ofText_of_brackets (h : Brackets v.toList r) :
    (NamesSet r → ∃ g, ofText v = .ok (composite g) ∧
      ∀ n, n ∈ g.names ↔ n ≠ "" ∧ IsPiece r n.toList) ∧
    (¬NamesSet r → ∃ fault, ofText v = .error fault ∧ fault.category = .value) := by
  have hread := ofText_of_inside? (inside?_eq_some_iff.mpr h)
  rw [mapM_ofText_ofList fun p hp => not_mem_of_mem_pieces hp] at hread
  rw [namesSet_iff]
  cases hfind : (pieces r).findSome? pieceFault? with
  | some fault =>
    rw [hfind] at hread
    obtain ⟨p, hp, hfault⟩ := List.exists_of_findSome?_eq_some hfind
    refine ⟨fun hset => ?_, fun _ => ⟨fault, hread, category_of_pieceFault? hfault⟩⟩
    exact absurd (hset.2 p hp) (by simp [hfault])
  | none =>
    rw [hfind] at hread
    replace hread : ofText v =
      ofCombination v (combine ((((pieces r).map String.ofList).map simple).map some)) := hread
    rw [combine_map_simple] at hread
    constructor
    · rintro ⟨⟨m, hm, n, hn, hne⟩, -⟩
      obtain ⟨g, hg, hnames⟩ := exists_composite_of_ne hm hn hne
      rw [hg] at hread
      exact ⟨g, hread, fun n => (hnames n).trans mem_names_pieces⟩
    · intro hnot
      have hsame : ∀ m ∈ (pieces r).map String.ofList, ∀ n ∈ (pieces r).map String.ofList,
          m = n := by
        intro m hm n hn
        by_contra hne
        exact hnot ⟨⟨m, hm, n, hn, hne⟩, List.findSome?_eq_none_iff.mp hfind⟩
      rw [hread]
      exact exists_ofCombination_eq_error (ofNames?_ne_composite hsame)

theorem ofText_of_not_brackets (h : ∀ r, ¬Brackets v.toList r) : ofText v = .ok (simple v) :=
  ofText_of_inside?_eq_none (inside?_eq_none_iff.mpr h)

/-! ### The text of a composite state -/

/-- What the text of a composite state has between its brackets. -/
def listed (g : Group) : List Char := [separator].intercalate (g.names.map String.toList)

theorem brackets_text (g : Group) : Brackets (composite g).text.toList (listed g) := by
  rw [Brackets, text, String.toList_append, String.toList_append, String.toList_singleton,
    String.toList_singleton, String.toList_intercalate, String.toList_singleton]
  rfl

/-- The pieces of the text of a composite state are its names, if no name holds a comma. -/
theorem isPiece_listed_iff {g : Group} (h : ∀ n ∈ g.names, separator ∉ n.toList) :
    IsPiece (listed g) p ↔ String.ofList p ∈ g.names := by
  have hsplit : (listed g).splitOn separator = g.names.map String.toList := by
    refine List.splitOn_intercalate _ (List.forall_mem_map.mpr h) ?_
    intro hnil
    have htwo := g.two_le
    rw [List.map_eq_nil_iff.mp hnil] at htwo
    exact absurd htwo (by simp)
  have hmem : p ∈ g.names.map String.toList ↔ String.ofList p ∈ g.names := by
    rw [List.mem_map]
    constructor
    · rintro ⟨n, hn, rfl⟩
      rwa [String.ofList_toList]
    · intro hp
      exact ⟨_, hp, String.toList_ofList⟩
  rw [← hmem]
  exact ⟨fun hp => hsplit ▸ hp.mem_splitOn, fun hp => isPiece_of_mem_splitOn (by rwa [hsplit])⟩

/-- A composite state is read from its text exactly if no name is empty, holds a comma or is in
brackets. -/
theorem ofText_text_iff (g : Group) :
    ofText (composite g).text = .ok (composite g) ↔
      ∀ n ∈ g.names, n ≠ "" ∧ separator ∉ n.toList ∧ ∀ b, ¬Brackets n.toList b := by
  obtain ⟨hset, hnot⟩ := ofText_of_brackets (brackets_text g)
  constructor
  · intro hread n hn
    by_cases hnames : NamesSet (listed g)
    · obtain ⟨k, hk, hmem⟩ := hset hnames
      obtain rfl : k = g := by simpa [hread] using hk.symm
      obtain ⟨hne, hpiece⟩ := (hmem n).mp hn
      exact ⟨hne, hpiece.1, fun b => hnames.2 _ b hpiece⟩
    · obtain ⟨fault, hfault, -⟩ := hnot hnames
      rw [hread] at hfault
      exact absurd hfault (by simp)
  · intro hplain
    have hpiece : ∀ {p}, IsPiece (listed g) p ↔ String.ofList p ∈ g.names :=
      isPiece_listed_iff fun n hn => (hplain n hn).2.1
    have hmember : ∀ n : String, n ≠ "" ∧ IsPiece (listed g) n.toList ↔ n ∈ g.names := by
      intro n
      rw [hpiece, String.ofList_toList]
      exact ⟨And.right, fun hn => ⟨(hplain n hn).1, hn⟩⟩
    have hnames : NamesSet (listed g) := by
      obtain ⟨m, hm, n, hn, hne⟩ := exists_ne_of_group g
      obtain ⟨hmne, hmpiece⟩ := (hmember m).mpr hm
      obtain ⟨hnne, hnpiece⟩ := (hmember n).mpr hn
      refine ⟨⟨m.toList, n.toList, mt String.toList_inj.mp hne,
        ⟨mt String.toList_eq_nil_iff.mp hmne, hmpiece⟩,
        mt String.toList_eq_nil_iff.mp hnne, hnpiece⟩, fun p b hp => ?_⟩
      have hplain := (hplain _ (hpiece.mp hp)).2.2 b
      rwa [String.toList_ofList] at hplain
    obtain ⟨k, hk, hmem⟩ := hset hnames
    have hkg : composite k = composite g :=
      eq_of_mem_names_iff fun n => (hmem n).trans (hmember n)
    rw [hk, hkg]

/-- **The bracket notation is read exactly.** A text in brackets names the set of its pieces that
are not empty, if there are two of them and no piece is in brackets, and it is refused as a value in
all other cases; every other text is the name of a simple state. So a composite state is read from
its text if its names are not empty and hold neither a comma nor a bracket. -/
theorem ofText_exact (v : String) :
    (∀ r, Brackets v.toList r →
      (NamesSet r → ∃ g, ofText v = .ok (composite g) ∧
        ∀ n, n ∈ g.names ↔ n ≠ "" ∧ IsPiece r n.toList) ∧
      (¬NamesSet r → ∃ fault, ofText v = .error fault ∧ fault.category = .value)) ∧
    ((∀ r, ¬Brackets v.toList r) → ofText v = .ok (simple v)) ∧
    ∀ g : Group, (∀ n ∈ g.names, n ≠ "" ∧
        separator ∉ n.toList ∧ openBracket ∉ n.toList ∧ closeBracket ∉ n.toList) →
      ofText (composite g).text = .ok (composite g) := by
  refine ⟨fun r => ofText_of_brackets, ofText_of_not_brackets, fun g hplain => ?_⟩
  refine (ofText_text_iff g).mpr fun n hn => ?_
  obtain ⟨hne, hseparator, hopen, -⟩ := hplain n hn
  refine ⟨hne, hseparator, fun b hb => hopen ?_⟩
  rw [show n.toList = _ from hb]
  exact List.mem_cons_self

/-- A comma comes before any bracket, so two pairs of brackets around two names list two names with
a stray bracket each. -/
theorem ofText_exact_strayBrackets :
    (NamesSet "\x7bA,B\x7d".toList ∧
      ∃ g, ofText "\x7b\x7bA,B\x7d\x7d" = .ok (composite g) ∧
        ∀ n, n ∈ g.names ↔ n ≠ "" ∧ IsPiece "\x7bA,B\x7d".toList n.toList) ∧
      (¬NamesSet "\x7bA\x7d,B".toList ∧
        ∃ fault, ofText "\x7b\x7bA\x7d,B\x7d" = .error fault ∧ fault.category = .value) ∧
      ofText "A,B\x7d" = .ok (simple "A,B\x7d") ∧
      ∃ g : Group, g.names = ["A", "B"] ∧ ofText (composite g).text = .ok (composite g) := by
  have hset : NamesSet "\x7bA,B\x7d".toList := by decide
  have hnot : ¬NamesSet "\x7bA\x7d,B".toList := by decide
  obtain ⟨hlisted, -, hback⟩ := ofText_exact "\x7b\x7bA,B\x7d\x7d"
  obtain ⟨hrefused, -, -⟩ := ofText_exact "\x7b\x7bA\x7d,B\x7d"
  obtain ⟨-, hsimple, -⟩ := ofText_exact "A,B\x7d"
  refine ⟨⟨hset, (hlisted _ ?_).1 hset⟩, ⟨hnot, (hrefused _ ?_).2 hnot⟩,
    hsimple (inside?_eq_none_iff.mp (by decide)),
    ⟨["A", "B"], by decide, by decide⟩, rfl, hback _ (by decide)⟩
  · exact inside?_eq_some_iff.mp (by decide)
  · exact inside?_eq_some_iff.mp (by decide)

end State

end Determinize
