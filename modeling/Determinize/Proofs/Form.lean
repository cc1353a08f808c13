import Determinize.Form
import Determinize.Proofs.Subset.Language
import Mathlib.Data.List.TakeWhile

/-!
# What comes of a form

A form is refused for what is wrong with it, or it becomes an automaton of simple states. What can
be wrong with it is said here of the texts in its fields alone: the field of the initial state is
blank, nothing but blanks and commas stands in the field of the final states, a name that counts
holds a bracket, or no row counts. A row counts if it has a source and at least one next state, and
only the names of rows that count are looked at.

Since names with brackets are refused before a name is read as a state, reading one cannot fail and
makes a simple state. So a form of texts has no other fault, and what the construction and the
minimization ask of an automaton is true of what a form describes.

## Main definitions

* `Text.IsTrimOf` — what is left of a text without the white space at its ends
* `Cell.isBlank`, `Cell.name`, `Cell.listed` — what is written in a field
* `Form.counts`, `Form.entryOf` — the rows that count, and what they say
* `Form.Defect` — what is wrong with a form, as the fault that tells the user
* `Form.Describes` — what is asked of the automaton

## Main results

* `Form.automaton_cases` — a form of texts has a defect or describes an automaton
* `Form.refused_iff_defect` — which forms are refused, and what becomes of the others
-/

namespace Determinize

/-! ### White space at the ends -/

namespace Text

/-- The characters `t` are what is left of `l` without the white space at its two ends. -/
structure IsTrimOf (t l : List Char) : Prop where
  /-- Only white space was cut off. -/
  eq_append : ∃ before after, l = before ++ t ++ after ∧
    (∀ c ∈ before, isBlank c = true) ∧ ∀ c ∈ after, isBlank c = true
  /-- No white space is left in front. -/
  head_not_blank : ∀ c ∈ t.head?, isBlank c = false
  /-- No white space is left at the end. -/
  last_not_blank : ∀ c ∈ t.getLast?, isBlank c = false

theorem isBlank_head_dropWhile {l : List Char} {c : Char} (h : c ∈ (l.dropWhile isBlank).head?) :
    isBlank c = false := by
  induction l with
  | nil => exact absurd h (by simp)
  | cons d l ih =>
    by_cases hd : isBlank d = true
    · rw [List.dropWhile_cons_of_pos hd] at h
      exact ih h
    · rw [List.dropWhile_cons_of_neg hd] at h
      obtain rfl : d = c := by simpa using h
      exact Bool.eq_false_iff.mpr hd

theorem isTrimOf_trimChars (l : List Char) : IsTrimOf (trimChars l) l where
  eq_append := by
    refine ⟨l.takeWhile isBlank, ((l.dropWhile isBlank).reverse.takeWhile isBlank).reverse, ?_,
      fun c hc => List.mem_takeWhile_imp hc,
      fun c hc => List.mem_takeWhile_imp (List.mem_reverse.mp hc)⟩
    rw [trimChars, List.append_assoc, ← List.reverse_append, List.takeWhile_append_dropWhile,
      List.reverse_reverse, List.takeWhile_append_dropWhile]
  head_not_blank c hc := by
    have hprefix : trimChars l <+: l.dropWhile isBlank := by
      rw [trimChars, ← List.reverse_suffix, List.reverse_reverse]
      exact List.dropWhile_suffix _
    obtain ⟨rest, hrest⟩ := hprefix
    refine isBlank_head_dropWhile (l := l) ?_
    rw [← hrest, List.head?_append, Option.mem_def.mp hc]
    rfl
  last_not_blank c hc := by
    rw [trimChars, List.getLast?_reverse] at hc
    exact isBlank_head_dropWhile hc

theorem IsTrimOf.eq_nil_iff {t l : List Char} (h : IsTrimOf t l) :
    t = [] ↔ ∀ c ∈ l, isBlank c = true := by
  obtain ⟨before, after, rfl, hbefore, hafter⟩ := h.eq_append
  constructor
  · rintro rfl c hc
    rw [List.append_nil, List.mem_append] at hc
    exact hc.elim (hbefore c) (hafter c)
  · intro hall
    cases t with
    | nil => rfl
    | cons c t =>
      have hblank := hall c (by simp)
      rw [h.head_not_blank c rfl] at hblank
      exact absurd hblank Bool.false_ne_true

theorem ofList_eq_empty_iff {l : List Char} : String.ofList l = "" ↔ l = [] := by
  rw [← String.ofList_nil, String.ofList_inj]

end Text

/-! ### Texts in fields -/

namespace Cell

/-- Whether a text or nothing is in the field. -/
def isText : Cell → Bool
  | other _ => false
  | _ => true

/-- The text in the field. -/
def written : Cell → String
  | text s => s
  | _ => ""

/-- Whether nothing but white space is in the field. -/
def isBlank (c : Cell) : Bool := c.written.toList.all Text.isBlank

/-- Whether nothing but white space is between the commas in the field. -/
def isBlankList (c : Cell) : Bool :=
  (c.written.toList.splitOn State.separator).all fun piece => piece.all Text.isBlank

/-- The one name in the field. -/
def name (c : Cell) : String := Text.trim c.written

/-- The names between the commas in the field. -/
def listed (c : Cell) : List String := namesIn c.written

/-- The symbol in the field. -/
def symbol (c : Cell) : Symbol := if c.isBlank then Symbol.epsilon else c.name

variable {c : Cell}

theorem name_eq_empty_iff : c.name = "" ↔ c.isBlank = true := by
  rw [name, Text.trim, Text.ofList_eq_empty_iff, (Text.isTrimOf_trimChars _).eq_nil_iff, isBlank,
    List.all_eq_true]

theorem listed_eq_nil_iff : c.listed = [] ↔ c.isBlankList = true := by
  rw [listed, namesIn, List.filter_eq_nil_iff, isBlankList, List.all_eq_true]
  simp only [List.forall_mem_map, decide_eq_true_eq, not_not, Text.ofList_eq_empty_iff,
    (Text.isTrimOf_trimChars _).eq_nil_iff, List.all_eq_true]

theorem trimmed_eq (h : c.isText = true) : c.trimmed = .ok c.name := by
  cases c with
  | blank => rfl
  | text s => rfl
  | other kind => exact absurd h (by simp [isText])

theorem names_eq (h : c.isText = true) : c.names = .ok c.listed := by
  cases c with
  | blank => rfl
  | text s => rfl
  | other kind => exact absurd h (by simp [isText])

end Cell

namespace Form

variable {f : Form} {a : Automaton} {names : List String} {n : String}
  {row : Cell × Cell × Cell} {rows : List (Cell × Cell × Cell)} {entries : List Entry}

theorem ok_bind {α β : Type} (x : α) (k : α → Except Fault β) : (Except.ok x >>= k) = k x := rfl

theorem throw_bind {α β : Type} (fault : Fault) (k : α → Except Fault β) :
    (throw fault >>= k) = .error fault := rfl

theorem symbolIn_eq {c : Cell} (h : c.isText = true) : symbolIn c = .ok c.symbol := by
  rw [symbolIn, Cell.trimmed_eq h, Cell.symbol]
  by_cases hblank : c.isBlank = true
  · rw [if_pos hblank]
    show Except.ok (if c.name = "" then _ else _) = _
    rw [if_pos (Cell.name_eq_empty_iff.mpr hblank)]
  · rw [if_neg hblank]
    show Except.ok (if c.name = "" then _ else _) = _
    rw [if_neg (mt Cell.name_eq_empty_iff.mp hblank)]

/-! ### Names without brackets -/

/-- Names are let through if none holds a bracket, and else refused for one that does. -/
theorem checkNames_cases (names : List String) :
    (checkNames names = .ok () ∧ ∀ n ∈ names, hasBracket n = false) ∨
      ∃ n ∈ names, hasBracket n = true ∧ checkNames names = .error (.bracketInName n) := by
  rw [checkNames]
  cases hfind : names.find? hasBracket with
  | none =>
    refine Or.inl ⟨rfl, fun n hn => ?_⟩
    simpa using List.find?_eq_none.mp hfind n hn
  | some n =>
    exact Or.inr ⟨n, List.mem_of_find?_eq_some hfind, List.find?_some hfind, rfl⟩

theorem ofText_of_hasBracket_eq_false (h : hasBracket n = false) :
    State.ofText n = .ok (.simple n) := by
  refine State.ofText_of_not_mem fun hmem => ?_
  have := List.any_eq_false.mp h _ hmem
  simp at this

/-- Names without brackets are read as simple states. -/
theorem mapM_ofText (h : ∀ n ∈ names, hasBracket n = false) :
    names.mapM State.ofText = .ok (names.map .simple) := by
  induction names with
  | nil => rfl
  | cons n names ih =>
    obtain ⟨hn, hnames⟩ := List.forall_mem_cons.mp h
    rw [List.mapM_cons, ofText_of_hasBracket_eq_false hn, ih hnames]
    rfl

/-! ### Rows -/

/-- Whether the row counts: it has a source and at least one next state. -/
def counts (row : Cell × Cell × Cell) : Bool := !row.1.isBlank && !row.2.2.isBlankList

/-- What a row says that counts. -/
def entryOf (row : Cell × Cell × Cell) : Entry := ⟨row.1.name, row.2.1.symbol, row.2.2.listed⟩

/-- The transition from simple state to simple states that an entry describes. -/
def Entry.move (e : Entry) : Transition := ⟨.simple e.source, e.targets.map .simple, e.symbol⟩

/-- Whether texts or nothing are in the fields of the row. -/
def isTextRow (row : Cell × Cell × Cell) : Bool :=
  row.1.isText && row.2.1.isText && row.2.2.isText

/-- What a row says, if it counts. -/
def said? (row : Cell × Cell × Cell) : Option Entry :=
  if counts row then some (entryOf row) else none

theorem reduceOption_map_said? (rows : List (Cell × Cell × Cell)) :
    (rows.map said?).reduceOption = (rows.filter counts).map entryOf := by
  induction rows with
  | nil => rfl
  | cons row rows ih =>
    rw [List.map_cons, said?]
    by_cases hrow : counts row = true
    · rw [if_pos hrow, List.reduceOption_cons_of_some, ih, List.filter_cons_of_pos hrow,
        List.map_cons]
    · rw [if_neg hrow, List.reduceOption_cons_of_none, ih, List.filter_cons_of_neg hrow]

/-- Only the names of a row that counts are looked at. -/
theorem entry?_eq (h : isTextRow row = true) :
    entry? row =
      if counts row then (checkNames (entryOf row).names).map fun _ => some (entryOf row)
      else .ok none := by
  obtain ⟨⟨hsource, hsymbol⟩, htargets⟩ := by simpa only [isTextRow, Bool.and_eq_true] using h
  have hcounts : counts row = true ↔ ¬(row.1.name = "" ∨ row.2.2.listed = []) := by
    rw [Cell.name_eq_empty_iff, Cell.listed_eq_nil_iff]
    simp [counts]
  rw [ entry?, Cell.trimmed_eq hsource, Cell.names_eq htargets, symbolIn_eq hsymbol]
  simp only [ok_bind]
  by_cases hrow : counts row = true
  · rw [if_pos hrow, if_neg (hcounts.mp hrow)]
    show (checkNames (entryOf row).names).bind _ = _
    cases checkNames (entryOf row).names <;> rfl
  · rw [if_neg hrow, if_pos (not_not.mp (mt hcounts.mpr hrow))]
    rfl

theorem entry?_cases (h : isTextRow row = true) :
    ((counts row = true → ∀ n ∈ (entryOf row).names, hasBracket n = false) ∧
      entry? row = .ok (said? row)) ∨
    (counts row = true ∧ ∃ n ∈ (entryOf row).names, hasBracket n = true ∧
      entry? row = .error (.bracketInName n)) := by
  rw [entry?_eq h, said?]
  by_cases hrow : counts row = true
  · rw [if_pos hrow, if_pos hrow]
    rcases checkNames_cases (entryOf row).names with ⟨hok, hnames⟩ | ⟨n, hn, hbracket, herror⟩
    · rw [hok]
      exact Or.inl ⟨fun _ => hnames, rfl⟩
    · rw [herror]
      exact Or.inr ⟨hrow, n, hn, hbracket, rfl⟩
  · rw [if_neg hrow, if_neg hrow]
    exact Or.inl ⟨fun h => absurd h hrow, rfl⟩

/-- The rows are read, or refused for a bracket in a name of a row that counts. -/
theorem mapM_entry?_cases (h : ∀ row ∈ rows, isTextRow row = true) :
    (rows.mapM entry? = .ok (rows.map said?) ∧
      ∀ row ∈ rows, counts row = true → ∀ n ∈ (entryOf row).names, hasBracket n = false) ∨
    ∃ row ∈ rows, counts row = true ∧ ∃ n ∈ (entryOf row).names, hasBracket n = true ∧
      rows.mapM entry? = .error (.bracketInName n) := by
  induction rows with
  | nil => exact Or.inl ⟨rfl, fun row hrow => absurd hrow List.not_mem_nil⟩
  | cons row rows ih =>
    obtain ⟨hrow, hrows⟩ := List.forall_mem_cons.mp h
    rw [List.mapM_cons]
    rcases entry?_cases hrow with ⟨hnames, hok⟩ | ⟨hcounts, n, hn, hbracket, herror⟩
    · rw [hok]
      rcases ih hrows with ⟨hrest, hrestNames⟩ | ⟨later, hlater, hcounts, n, hn, hbracket, herror⟩
      · rw [hrest]
        exact Or.inl ⟨rfl, List.forall_mem_cons.mpr ⟨hnames, hrestNames⟩⟩
      · rw [herror]
        exact Or.inr ⟨later, List.mem_cons_of_mem _ hlater, hcounts, n, hn, hbracket, rfl⟩
    · rw [herror]
      exact Or.inr ⟨row, List.mem_cons_self, hcounts, n, hn, hbracket, rfl⟩

/-! ### Putting the automaton together -/

theorem mapM_transition (h : ∀ e ∈ entries, ∀ n ∈ e.names, hasBracket n = false) :
    entries.mapM Entry.transition = .ok (entries.map Entry.move) := by
  induction entries with
  | nil => rfl
  | cons e entries ih =>
    obtain ⟨he, hentries⟩ := List.forall_mem_cons.mp h
    obtain ⟨hsource, htargets⟩ := List.forall_mem_cons.mp he
    rw [List.mapM_cons, Entry.transition, ofText_of_hasBracket_eq_false hsource,
      mapM_ofText htargets, ih hentries]
    rfl

/-- The automaton with the given names and entries, every name a simple state. -/
def assembled (initial : String) (finals : List String) (entries : List Entry) : Automaton :=
  .of (.simple initial) (finals.map .simple)
    ((initial :: entries.flatMap Entry.names ++ finals).eraseDups.map .simple)
    (entries.map (·.symbol)) (entries.map Entry.move)

theorem assemble_eq {initial : String} {finals : List String}
    (hnames : ∀ n ∈ initial :: finals, hasBracket n = false)
    (hentries : ∀ e ∈ entries, ∀ n ∈ e.names, hasBracket n = false) :
    assemble initial finals entries = .ok (assembled initial finals entries) := by
  obtain ⟨hinitial, hfinals⟩ := List.forall_mem_cons.mp hnames
  have hall : ∀ n ∈ (initial :: entries.flatMap Entry.names ++ finals).eraseDups,
      hasBracket n = false := by
    intro n hn
    rw [List.mem_eraseDups, List.cons_append, List.mem_cons, List.mem_append,
      List.mem_flatMap] at hn
    rcases hn with rfl | ⟨e, he, hn⟩ | hn
    · exact hinitial
    · exact hentries e he n hn
    · exact hfinals n hn
  rw [assemble, ofText_of_hasBracket_eq_false hinitial, mapM_ofText hfinals, mapM_ofText hall,
    mapM_transition hentries]
  rfl

/-! ### Forms of texts -/

/-- Every field holds a text or nothing. -/
structure Textual (f : Form) : Prop where
  /-- The field of the initial state. -/
  initial : f.initial.isText = true
  /-- The field of the final states. -/
  finals : f.finals.isText = true
  /-- The fields of the rows. -/
  rows : ∀ row ∈ f.rows, isTextRow row = true

/-- What is wrong with a form, and the fault that says so. -/
inductive Defect (f : Form) : Fault → Prop
  /-- The field of the initial state is blank. -/
  | noInitial : f.initial.isBlank = true → Defect f .noInitial
  /-- There is no name in the field of the final states. -/
  | noFinal : f.finals.isBlankList = true → Defect f .noFinal
  /-- The initial state or a final state has a bracket in its name. -/
  | bracketInName {n : String} :
      n ∈ f.initial.name :: f.finals.listed → hasBracket n = true → Defect f (.bracketInName n)
  /-- A name in a row that counts has a bracket in it. -/
  | bracketInRow {row : Cell × Cell × Cell} {n : String} :
      row ∈ f.rows → counts row = true → n ∈ (entryOf row).names → hasBracket n = true →
      Defect f (.bracketInName n)
  /-- No row counts. -/
  | noTransition : (∀ row ∈ f.rows, counts row = false) → Defect f .noTransition

/-- What the rows say that count. -/
def said (f : Form) : List Entry := (f.rows.filter counts).map entryOf

theorem said_eq_nil_iff : f.said = [] ↔ ∀ row ∈ f.rows, counts row = false := by
  rw [said, List.map_eq_nil_iff, List.filter_eq_nil_iff]
  simp only [Bool.not_eq_true]

/-- Names in rows that count are the names in what the rows say. -/
theorem names_said (h : ∀ row ∈ f.rows, counts row = true → ∀ n ∈ (entryOf row).names,
    hasBracket n = false) : ∀ e ∈ f.said, ∀ n ∈ e.names, hasBracket n = false := by
  intro e he
  obtain ⟨row, hrow, rfl⟩ := List.mem_map.mp he
  obtain ⟨hrow, hcounts⟩ := List.mem_filter.mp hrow
  exact h row hrow hcounts

/-- A form that is let through everywhere has no defect. -/
theorem not_defect (hinitial : f.initial.name ≠ "") (hfinals : f.finals.listed ≠ [])
    (hnames : ∀ n ∈ f.initial.name :: f.finals.listed, hasBracket n = false)
    (hrows : ∀ row ∈ f.rows, counts row = true → ∀ n ∈ (entryOf row).names, hasBracket n = false)
    (hsaid : f.said ≠ []) (fault : Fault) : ¬f.Defect fault := by
  intro hdefect
  cases hdefect with
  | noInitial hblank => exact hinitial (Cell.name_eq_empty_iff.mpr hblank)
  | noFinal hblank => exact hfinals (Cell.listed_eq_nil_iff.mpr hblank)
  | bracketInName hn hbracket => simp [hnames _ hn] at hbracket
  | bracketInRow hrow hcounts hn hbracket => simp [hrows _ hrow hcounts _ hn] at hbracket
  | noTransition hnone => exact hsaid (said_eq_nil_iff.mpr hnone)

/-- The order in which a form of texts is looked at. -/
theorem automaton_eq (h : f.Textual) :
    f.automaton =
      if f.initial.name = "" then .error .noInitial
      else if f.finals.listed = [] then .error .noFinal
      else checkNames (f.initial.name :: f.finals.listed) >>= fun _ =>
        f.rows.mapM entry? >>= fun said =>
          if said.reduceOption = [] then .error .noTransition
          else assemble f.initial.name f.finals.listed said.reduceOption := by
  rw [automaton, Cell.trimmed_eq h.initial, Cell.names_eq h.finals]
  simp only [ok_bind, throw_bind]

/-- A form of texts is refused for a defect, or it has none and becomes an automaton. -/
theorem automaton_cases (h : f.Textual) :
    (∃ fault, f.automaton = .error fault ∧ f.Defect fault) ∨
      (f.automaton = .ok (assembled f.initial.name f.finals.listed f.said) ∧
        ∀ fault, ¬f.Defect fault) := by
  rw [automaton_eq h]
  by_cases hinitial : f.initial.name = ""
  · exact Or.inl ⟨_, if_pos hinitial, .noInitial (Cell.name_eq_empty_iff.mp hinitial)⟩
  by_cases hfinals : f.finals.listed = []
  · rw [if_neg hinitial]
    exact Or.inl ⟨_, if_pos hfinals, .noFinal (Cell.listed_eq_nil_iff.mp hfinals)⟩
  rw [if_neg hinitial, if_neg hfinals]
  rcases checkNames_cases (f.initial.name :: f.finals.listed) with
    ⟨hnames, hclean⟩ | ⟨n, hn, hbracket, hnames⟩
  · rcases mapM_entry?_cases h.rows with
      ⟨hrows, hrowsClean⟩ | ⟨row, hrow, hcounts, n, hn, hbracket, hrows⟩
    · rw [hnames, hrows, ok_bind, ok_bind, reduceOption_map_said?]
      show (∃ fault, (if f.said = [] then _ else _) = _ ∧ _) ∨
        (if f.said = [] then _ else _) = _ ∧ _
      by_cases hsaid : f.said = []
      · exact Or.inl ⟨_, if_pos hsaid, .noTransition (said_eq_nil_iff.mp hsaid)⟩
      · rw [if_neg hsaid]
        exact Or.inr ⟨assemble_eq hclean (names_said hrowsClean),
          not_defect hinitial hfinals hclean hrowsClean hsaid⟩
    · rw [hnames, hrows]
      exact Or.inl ⟨_, rfl, .bracketInRow hrow hcounts hn hbracket⟩
  · rw [hnames]
    exact Or.inl ⟨_, rfl, .bracketInName hn hbracket⟩

/-! ### The automaton that is described -/

/-- The automaton says what the form says: states, transitions and symbols are those of the form,
states and symbols once each. -/
structure Describes (f : Form) (a : Automaton) : Prop where
  /-- The initial state is the one that is named. -/
  initial_eq : a.initial = .simple f.initial.name
  /-- The final states are those that are named, once each. -/
  finals_eq : a.finals = (f.finals.listed.map .simple).eraseDups
  /-- There is one transition for each row that counts, in the order of the rows. -/
  transitions_eq : a.transitions = (f.rows.filter counts).map fun row => (entryOf row).move
  /-- Runs meet states that the user named. -/
  simple : a.Simple
  /-- The listed states are states that the user named. -/
  isSimple_of_mem : ∀ s ∈ a.states, s.isSimple = true
  /-- The initial state is listed first. -/
  head?_states : a.states.head? = some a.initial
  /-- No state is listed twice. -/
  nodup_states : a.states.Nodup
  /-- The states are the initial state, the final states and the ends of the transitions. -/
  mem_states : ∀ s, s ∈ a.states ↔
    s = a.initial ∨ s ∈ a.finals ∨ ∃ e ∈ a.transitions, s = e.source ∨ s ∈ e.targets
  /-- No symbol is listed twice. -/
  nodup_alphabet : a.alphabet.Nodup
  /-- The symbols are those of the transitions that read something, in order of first occurrence. -/
  alphabet_eq :
    a.alphabet = ((a.transitions.filter fun e => !e.isEpsilon).map (·.symbol)).eraseDups

variable {initial : String} {finals : List String} {s : State}

/-- The ends of the transition are the names of the entry. -/
theorem Entry.mem_ends_move {e : Entry} :
    s = e.move.source ∨ s ∈ e.move.targets ↔ ∃ n ∈ e.names, s = .simple n := by
  simp only [move, names, List.mem_map, List.mem_cons, exists_eq_or_imp, eq_comm]

theorem mem_states_assembled : s ∈ (assembled initial finals entries).states ↔
    ∃ n, (n = initial ∨ (∃ e ∈ entries, n ∈ e.names) ∨ n ∈ finals) ∧ s = .simple n := by
  have hstates : (assembled initial finals entries).states =
      ((initial :: entries.flatMap Entry.names ++ finals).eraseDups.map State.simple).eraseDups :=
    rfl
  rw [hstates, List.mem_eraseDups, List.mem_map]
  simp only [List.mem_eraseDups, List.cons_append, List.mem_cons, List.mem_append,
    List.mem_flatMap, eq_comm]

theorem mem_finals_assembled :
    s ∈ (assembled initial finals entries).finals ↔ ∃ n ∈ finals, s = .simple n := by
  rw [assembled, Automaton.of, List.mem_eraseDups, List.mem_map]
  simp only [eq_comm]

/-- Every listed state is the initial state, final, or at one end of a transition. -/
theorem mem_states_assembled_iff_ends : s ∈ (assembled initial finals entries).states ↔
    s = .simple initial ∨ s ∈ (assembled initial finals entries).finals ∨
      ∃ e ∈ entries.map Entry.move, s = e.source ∨ s ∈ e.targets := by
  rw [mem_states_assembled, mem_finals_assembled]
  constructor
  · rintro ⟨n, rfl | ⟨e, he, hn⟩ | hn, rfl⟩
    · exact Or.inl rfl
    · exact Or.inr (Or.inr ⟨e.move, List.mem_map_of_mem he, Entry.mem_ends_move.mpr ⟨n, hn, rfl⟩⟩)
    · exact Or.inr (Or.inl ⟨n, hn, rfl⟩)
  · rintro (rfl | ⟨n, hn, rfl⟩ | ⟨e, he, hs⟩)
    · exact ⟨initial, Or.inl rfl, rfl⟩
    · exact ⟨n, Or.inr (Or.inr hn), rfl⟩
    · obtain ⟨entry, hentry, rfl⟩ := List.mem_map.mp he
      obtain ⟨n, hn, rfl⟩ := Entry.mem_ends_move.mp hs
      exact ⟨n, Or.inr (Or.inl ⟨entry, hentry, hn⟩), rfl⟩

theorem isSimple_of_mem_assembled (hs : s ∈ (assembled initial finals entries).states) :
    s.isSimple = true := by
  obtain ⟨n, -, rfl⟩ := mem_states_assembled.mp hs
  rfl

theorem simple_assembled : (assembled initial finals entries).Simple where
  initial := rfl
  finals _ hs :=
    isSimple_of_mem_assembled (mem_states_assembled_iff_ends.mpr (Or.inr (Or.inl hs)))
  sources e he := @isSimple_of_mem_assembled entries initial finals _
    (mem_states_assembled_iff_ends.mpr (Or.inr (Or.inr ⟨e, he, Or.inl rfl⟩)))
  targets e he _ ht := @isSimple_of_mem_assembled entries initial finals _
    (mem_states_assembled_iff_ends.mpr (Or.inr (Or.inr ⟨e, he, Or.inr ht⟩)))

theorem alphabet_assembled : (assembled initial finals entries).alphabet =
    (((entries.map Entry.move).filter fun e => !e.isEpsilon).map (·.symbol)).eraseDups := by
  have hsymbol : ((·.symbol) : Transition → Symbol) ∘ Entry.move = (·.symbol) := rfl
  have hfilter : ((fun x : Symbol => !x.isEpsilon) ∘ fun e : Entry => e.symbol) =
      (fun e : Transition => !e.isEpsilon) ∘ Entry.move := rfl
  rw [assembled, Automaton.of, List.filter_map, List.filter_map, List.map_map, hsymbol, hfilter]

/-- What a form is made into says what the form says. -/
theorem describes_assembled (f : Form) :
    f.Describes (assembled f.initial.name f.finals.listed f.said) where
  initial_eq := rfl
  finals_eq := rfl
  transitions_eq := List.map_map
  simple := simple_assembled
  isSimple_of_mem _ hs := isSimple_of_mem_assembled hs
  head?_states := by
    rw [assembled, Automaton.of, List.cons_append, List.eraseDups_cons, List.map_cons,
      List.eraseDups_cons]
    rfl
  nodup_states := nodup_eraseDups _
  mem_states _ := mem_states_assembled_iff_ends
  nodup_alphabet := nodup_eraseDups _
  alphabet_eq := alphabet_assembled

namespace Describes

theorem wellFormed (h : f.Describes a) : a.WellFormed where
  nodup_states := h.nodup_states
  nodup_finals := by
    rw [h.finals_eq]
    exact nodup_eraseDups _
  nodup_alphabet := h.nodup_alphabet
  not_isEpsilon x hx := by
    rw [h.alphabet_eq, List.mem_eraseDups] at hx
    obtain ⟨e, he, rfl⟩ := List.mem_map.mp hx
    simpa [Transition.isEpsilon] using (List.mem_filter.mp he).2

end Describes

/-! ### Which forms are refused -/

theorem Defect.isIncomplete {fault : Fault} (h : f.Defect fault) : fault.isIncomplete = true := by
  cases h <;> rfl

/-- **A form of texts is refused for what is wrong with it and for nothing else**: exactly if it has
a defect, with a fault that names one. Every other form becomes an automaton of simple states that
says what the form says. -/
theorem refused_iff_defect (h : f.Textual) :
    ((∃ fault, f.automaton = .error fault ∧ fault.isIncomplete = true) ↔ ∃ fault, f.Defect fault) ∧
      (∀ fault, f.automaton = .error fault → fault.isIncomplete = true ∧ f.Defect fault) ∧
      ((¬∃ fault, f.Defect fault) → ∃ a, f.automaton = .ok a ∧ f.Describes a) := by
  rcases automaton_cases h with ⟨fault, herror, hdefect⟩ | ⟨hok, hnone⟩
  · refine ⟨⟨fun _ => ⟨fault, hdefect⟩, fun _ => ⟨fault, herror, hdefect.isIncomplete⟩⟩, ?_, ?_⟩
    · intro other hother
      obtain rfl := Except.error.inj (herror.symm.trans hother)
      exact ⟨hdefect.isIncomplete, hdefect⟩
    · exact fun hnone => absurd ⟨fault, hdefect⟩ hnone
  · have hne : ∀ fault, f.automaton ≠ .error fault := fun fault herror =>
      absurd (hok.symm.trans herror) (by simp)
    refine ⟨⟨?_, ?_⟩, fun fault herror => absurd herror (hne fault), fun _ => ?_⟩
    · rintro ⟨fault, herror, -⟩
      exact absurd herror (hne fault)
    · rintro ⟨fault, hdefect⟩
      exact absurd hdefect (hnone fault)
    · exact ⟨_, hok, describes_assembled f⟩

/-- A form with blanks around its names, a missing symbol, and a row without next states. -/
def blankSymbol : Form where
  initial := .text " A"
  finals := .text "C,,"
  rows := [(.text "A", .text "0 ", .text "A, B"), (.text "B", .blank, .text "C"),
    (.text "\x7bA\x7d", .text "1", .text " , ")]

/-- The last row does not count, so its bracket does no harm. -/
theorem refused_iff_defect_blankSymbol :
    blankSymbol.Textual ∧ (∀ fault, ¬blankSymbol.Defect fault) ∧
      (∃ a, blankSymbol.automaton = .ok a ∧ blankSymbol.Describes a) ∧
      blankSymbol.automaton.toOption.map Automaton.transitions =
        some [⟨.simple "A", [.simple "A", .simple "B"], "0"⟩,
          ⟨.simple "B", [.simple "C"], "λ"⟩] := by
  have htextual : blankSymbol.Textual := ⟨by decide, by decide, by decide⟩
  obtain ⟨hiff, -, hdescribes⟩ := refused_iff_defect htextual
  have hnone : ¬∃ fault, blankSymbol.Defect fault := by
    intro hdefect
    obtain ⟨fault, herror, -⟩ := hiff.mpr hdefect
    have hsome : blankSymbol.automaton.toOption.isSome = true := by decide
    rw [herror] at hsome
    exact absurd hsome (by simp [Except.toOption])
  exact ⟨htextual, fun fault h => hnone ⟨fault, h⟩, hdescribes hnone, by decide⟩

end Form

end Determinize
