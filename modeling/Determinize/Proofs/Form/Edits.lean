import Determinize.Proofs.Form
import Mathlib.Logic.Relation

/-!
# Edits of a form that change nothing

A table that is being filled in is full of blanks: rows not begun, rows half done, commas with
nothing behind them, white space around names. None of it is looked at, and neither is how an
epsilon symbol is written.

Each such edit is small, and each is seen by one part of the reading only: a name is what is left of
a text without the white space at its ends, a list of names forgets the pieces that are blank, and
the rows are read into the entries of those that count. So an edit leaves its part as it was, and a
form is read through its parts. Edits in any number and in both directions are then a matter of
equality.

## Main definitions

* `Text.Padded`, `Cell.Padded` — white space is written around a text
* `Cell.PieceEdit`, `Cell.Respaced` — white space around pieces, and pieces that are blank
* `Form.RowEdit`, `Form.Edit` — one edit of a row, and of a form
* `Form.readRows` — what the rows say, or the first fault in them

## Main results

* `Form.automaton_congr` — a form is read through its parts
* `Form.automaton_eq_of_edits` — what a form becomes does not change with such edits
-/

namespace Determinize

/-! ### White space around a text -/

namespace Text

/-- The characters `k` are the characters `l` with white space before and behind them. -/
def Padded (l k : List Char) : Prop :=
  ∃ before after, k = before ++ l ++ after ∧
    (∀ c ∈ before, isBlank c = true) ∧ ∀ c ∈ after, isBlank c = true

theorem Padded.trimChars_eq {l k : List Char} (h : Padded l k) : trimChars l = trimChars k := by
  obtain ⟨before, after, rfl, hbefore, hafter⟩ := h
  by_cases hl : ∀ c ∈ l, isBlank c = true
  · -- nothing is left of either
    have hall : ∀ c ∈ before ++ l ++ after, isBlank c = true := by
      simp only [List.mem_append]
      rintro c ((hc | hc) | hc)
      · exact hbefore c hc
      · exact hl c hc
      · exact hafter c hc
    rw [(isTrimOf_trimChars _).eq_nil_iff.mpr hl, (isTrimOf_trimChars _).eq_nil_iff.mpr hall]
  · have hne : (l.dropWhile isBlank).isEmpty = false := by
      rw [← Bool.not_eq_true, List.isEmpty_iff, List.dropWhile_eq_nil_iff]
      exact hl
    rw [trimChars, trimChars, List.append_assoc, List.dropWhile_append_of_pos hbefore,
      List.dropWhile_append, hne, if_neg Bool.false_ne_true, List.reverse_append,
      List.dropWhile_append_of_pos fun c hc => hafter c (List.mem_reverse.mp hc)]

end Text

/-! ### Fields -/

namespace Cell

variable {c d : Cell}

/-- White space is written around the text in the field. -/
structure Padded (c d : Cell) : Prop where
  /-- There was a text or nothing in the field. -/
  isText_left : c.isText = true
  /-- There is a text in the field. -/
  isText_right : d.isText = true
  /-- White space was added to it. -/
  written : Text.Padded c.written.toList d.written.toList

theorem Padded.trimmed_eq (h : c.Padded d) : c.trimmed = d.trimmed := by
  rw [Cell.trimmed_eq h.isText_left, Cell.trimmed_eq h.isText_right, name, name, Text.trim,
    Text.trim, h.written.trimChars_eq]

/-- What stands between the commas in the field. -/
def pieces (c : Cell) : List (List Char) := c.written.toList.splitOn State.separator

/-- One edit of what stands between commas. -/
inductive PieceEdit : List (List Char) → List (List Char) → Prop
  /-- White space is written around a piece. -/
  | pad (before after : List (List Char)) {p q : List Char} :
      Text.Padded p q → PieceEdit (before ++ p :: after) (before ++ q :: after)
  /-- An empty or blank piece is added. -/
  | blank (before after : List (List Char)) {p : List Char} :
      (∀ c ∈ p, Text.isBlank c = true) → PieceEdit (before ++ after) (before ++ p :: after)

/-- The names that some pieces stand for. -/
def namesOf (pieces : List (List Char)) : List String :=
  (pieces.map fun p => String.ofList (Text.trimChars p)).filter fun name => name ≠ ""

theorem listed_eq_namesOf : c.listed = namesOf c.pieces := rfl

theorem PieceEdit.namesOf_eq {l k : List (List Char)} (h : PieceEdit l k) :
    namesOf l = namesOf k := by
  cases h with
  | pad before after hpq => simp only [namesOf, List.map_append, List.map_cons, hpq.trimChars_eq]
  | blank before after hp =>
    have hnil : String.ofList (Text.trimChars _) = "" :=
      Text.ofList_eq_empty_iff.mpr ((Text.isTrimOf_trimChars _).eq_nil_iff.mpr hp)
    rw [namesOf, namesOf, List.map_append, List.map_append, List.map_cons, hnil, List.filter_append,
      List.filter_append, List.filter_cons_of_neg (by simp)]

/-- The field lists the same names with other white space and other blank pieces. -/
structure Respaced (c d : Cell) : Prop where
  /-- There was a text or nothing in the field. -/
  isText_left : c.isText = true
  /-- There is a text in the field. -/
  isText_right : d.isText = true
  /-- A piece was edited or added. -/
  pieces : PieceEdit c.pieces d.pieces

theorem Respaced.names_eq (h : c.Respaced d) : c.names = d.names := by
  rw [Cell.names_eq h.isText_left, Cell.names_eq h.isText_right, listed_eq_namesOf,
    listed_eq_namesOf, h.pieces.namesOf_eq]

/-- An epsilon symbol is in the field: nothing, white space, or λ with white space around it. -/
structure IsEpsilon (c : Cell) : Prop where
  /-- There is a text or nothing in the field. -/
  isText : c.isText = true
  /-- It reads nothing. -/
  written : Symbol.isEpsilon c.written = true

end Cell

namespace Form

variable {f g : Form} {r r' row : Cell × Cell × Cell}
  {rows rows' before after : List (Cell × Cell × Cell)} {c d : Cell}

/-! ### Rows -/

theorem symbolIn_congr (h : c.trimmed = d.trimmed) : symbolIn c = symbolIn d := by
  rw [symbolIn, symbolIn, h]

/-- However an epsilon symbol is written, it is read as the one that is shown. -/
theorem symbolIn_of_isEpsilon (h : c.IsEpsilon) : symbolIn c = .ok Symbol.epsilon := by
  have hname : c.name = "" ∨ c.name = Symbol.epsilon := of_decide_eq_true h.written
  rw [symbolIn, Cell.trimmed_eq h.isText]
  show Except.ok (if c.name = "" then Symbol.epsilon else c.name) = _
  rcases hname with hname | hname
  · rw [if_pos hname]
  · rw [hname, ite_self]

/-- One edit of a row. -/
inductive RowEdit : Cell × Cell × Cell → Cell × Cell × Cell → Prop
  /-- White space is written around the source. -/
  | source {c d symbol targets : Cell} :
      c.Padded d → RowEdit (c, symbol, targets) (d, symbol, targets)
  /-- White space is written around the symbol. -/
  | symbol {source c d targets : Cell} :
      c.Padded d → RowEdit (source, c, targets) (source, d, targets)
  /-- An epsilon symbol is written in another way. -/
  | epsilon {source c d targets : Cell} :
      c.IsEpsilon → d.IsEpsilon → RowEdit (source, c, targets) (source, d, targets)
  /-- The next states are spaced in another way. -/
  | targets {source symbol c d : Cell} :
      c.Respaced d → RowEdit (source, symbol, c) (source, symbol, d)

theorem entry?_congr (hsource : r.1.trimmed = r'.1.trimmed)
    (hsymbol : symbolIn r.2.1 = symbolIn r'.2.1) (htargets : r.2.2.names = r'.2.2.names) :
    entry? r = entry? r' := by
  rw [ entry?, entry?, hsource, hsymbol, htargets]

theorem RowEdit.entry?_eq (h : RowEdit r r') : entry? r = entry? r' := by
  cases h with
  | source hpad => exact entry?_congr hpad.trimmed_eq rfl rfl
  | symbol hpad => exact entry?_congr rfl (symbolIn_congr hpad.trimmed_eq) rfl
  | epsilon hc hd =>
    exact entry?_congr rfl ((symbolIn_of_isEpsilon hc).trans (symbolIn_of_isEpsilon hd).symm) rfl
  | targets hspace => exact entry?_congr rfl rfl hspace.names_eq

/-- The symbol of a row that does not count is not looked at, whatever it is. -/
theorem entry?_eq_none (hsource : row.1.isText = true) (htargets : row.2.2.isText = true)
    (hcounts : counts row = false) : entry? row = .ok none := by
  have hmissing : row.1.name = "" ∨ row.2.2.listed = [] := by
    rw [Cell.name_eq_empty_iff, Cell.listed_eq_nil_iff]
    simpa [counts, or_iff_not_imp_left] using hcounts
  rw [ entry?, Cell.trimmed_eq hsource, Cell.names_eq htargets, ok_bind, ok_bind, if_pos hmissing]
  rfl

/-- What the rows say, or the first fault in them. -/
def readRows (rows : List (Cell × Cell × Cell)) : Except Fault (List Entry) :=
  (rows.mapM entry?).map List.reduceOption

theorem readRows_cons :
    readRows (row :: rows) = entry? row >>= fun e => (readRows rows).map (e.toList ++ ·) := by
  rw [readRows, readRows, List.mapM_cons]
  cases entry? row with
  | error fault => rfl
  | ok e =>
    cases rows.mapM entry? with
    | error fault => rfl
    | ok said => cases e <;> rfl

/-- What comes before has no part in what the other rows say. -/
theorem readRows_append_congr (h : readRows rows = readRows rows') :
    readRows (before ++ rows) = readRows (before ++ rows') := by
  induction before with
  | nil => exact h
  | cons row before ih => rw [List.cons_append, List.cons_append, readRows_cons, readRows_cons, ih]

/-! ### Forms -/

/-- One edit of a form. -/
inductive Edit : Form → Form → Prop
  /-- White space is written around the initial state. -/
  | initial {c d finals : Cell} {rows : List (Cell × Cell × Cell)} :
      c.Padded d → Edit ⟨c, finals, rows⟩ ⟨d, finals, rows⟩
  /-- The final states are spaced in another way. -/
  | finals {initial c d : Cell} {rows : List (Cell × Cell × Cell)} :
      c.Respaced d → Edit ⟨initial, c, rows⟩ ⟨initial, d, rows⟩
  /-- A row is edited. -/
  | row {initial finals : Cell} (before after : List (Cell × Cell × Cell))
      {r r' : Cell × Cell × Cell} : RowEdit r r' →
      Edit ⟨initial, finals, before ++ r :: after⟩ ⟨initial, finals, before ++ r' :: after⟩
  /-- A row is added that does not count. -/
  | addRow {initial finals : Cell} (before after : List (Cell × Cell × Cell))
      {row : Cell × Cell × Cell} :
      row.1.isText = true → row.2.2.isText = true → counts row = false →
      Edit ⟨initial, finals, before ++ after⟩ ⟨initial, finals, before ++ row :: after⟩

/-- The parts through which a form is read. -/
theorem automaton_eq_bind (f : Form) :
    f.automaton = f.initial.trimmed >>= fun initial => f.finals.names >>= fun finals =>
      if initial = "" then .error .noInitial
      else if finals = [] then .error .noFinal
      else checkNames (initial :: finals) >>= fun _ => readRows f.rows >>= fun entries =>
        if entries = [] then .error .noTransition else assemble initial finals entries := by
  have hread : ∀ (said : Except Fault (List (Option Entry)))
      (k : List Entry → Except Fault Automaton),
      (said >>= fun l => k l.reduceOption) = said.map List.reduceOption >>= k := by
    intro said k
    cases said <;> rfl
  rw [automaton]
  simp only [throw_bind, readRows, ← hread]

theorem automaton_congr (hinitial : f.initial.trimmed = g.initial.trimmed)
    (hfinals : f.finals.names = g.finals.names) (hrows : readRows f.rows = readRows g.rows) :
    f.automaton = g.automaton := by
  rw [automaton_eq_bind, automaton_eq_bind, hinitial, hfinals, hrows]

/-- One edit changes nothing. -/
theorem Edit.automaton_eq (h : Edit f g) : f.automaton = g.automaton := by
  cases h with
  | initial hpad => exact automaton_congr hpad.trimmed_eq rfl rfl
  | finals hspace => exact automaton_congr rfl hspace.names_eq rfl
  | row before after hrow =>
    refine automaton_congr rfl rfl (readRows_append_congr ?_)
    rw [readRows_cons, readRows_cons, hrow.entry?_eq]
  | addRow before after hsource htargets hcounts =>
    refine automaton_congr rfl rfl (readRows_append_congr ?_)
    rw [readRows_cons, entry?_eq_none hsource htargets hcounts, ok_bind]
    cases readRows _ <;> rfl

/-- **Edits that nobody sees change nothing.** After any number of them, made or taken back, a form
becomes the same automaton, or it is refused with the same fault: white space around the initial
state, a source or a symbol, white space around the names in a list and blank pieces between its
commas, rows without a source or without a next state, whatever else they hold, and the ways to
write an epsilon symbol. -/
theorem automaton_eq_of_edits (h : Relation.EqvGen Edit f g) : f.automaton = g.automaton := by
  induction h with
  | rel f g hedit => exact hedit.automaton_eq
  | refl f => rfl
  | symm f g _ ih => exact ih.symm
  | trans f g e _ _ hfg hge => exact hfg.trans hge

/-- A form with nothing in it that does not count. -/
def tidy : Form where
  initial := .text "A"
  finals := .text "C"
  rows := [(.text "A", .blank, .text "A,B"), (.text "B", .text "1", .text "C")]

/-- The same form as it may come out of a page. -/
def untidy : Form where
  initial := .text "\tA "
  finals := .text "C , "
  rows := [(.blank, .text "1", .text "\x7b"), (.text "A", .text " λ", .text "A, B"),
    (.text "B ", .text "1\u3000", .text "C")]

theorem eqvGen_edit_tidy_untidy : Relation.EqvGen Edit tidy untidy := by
  have hblank : ∀ {l : List Char}, l.all Text.isBlank = true → ∀ c ∈ l, Text.isBlank c = true :=
    List.all_eq_true.mp
  have hinitial : (Cell.text "A").Padded (.text "\tA ") :=
    ⟨rfl, rfl, ['\t'], [' '], rfl, hblank rfl, hblank rfl⟩
  have hfinals : (Cell.text "C").Respaced (.text "C ") :=
    ⟨rfl, rfl, .pad [] [] ⟨[], [' '], rfl, hblank rfl, hblank rfl⟩⟩
  have hfinals' : (Cell.text "C ").Respaced (.text "C , ") :=
    ⟨rfl, rfl, .blank ["C ".toList] [] (hblank rfl)⟩
  have hsource : (Cell.text "B").Padded (.text "B ") :=
    ⟨rfl, rfl, [], [' '], rfl, hblank rfl, hblank rfl⟩
  have hsymbol : (Cell.text "1").Padded (.text "1\u3000") :=
    ⟨rfl, rfl, [], ['\u3000'], rfl, hblank rfl, hblank rfl⟩
  have htargets : (Cell.text "A,B").Respaced (.text "A, B") :=
    ⟨rfl, rfl, .pad ["A".toList] [] ⟨[' '], [], rfl, hblank rfl, hblank rfl⟩⟩
  have hepsilon : Cell.blank.IsEpsilon ∧ (Cell.text " λ").IsEpsilon :=
    ⟨⟨rfl, by decide⟩, ⟨rfl, by decide⟩⟩
  refine .trans _ _ _ (.rel _ _ (.initial hinitial)) ?_
  refine .trans _ _ _ (.rel _ _ (.finals hfinals)) (.trans _ _ _ (.rel _ _ (.finals hfinals')) ?_)
  refine .trans _ _ _ (.rel _ _ (.row [] _ (.epsilon hepsilon.1 hepsilon.2))) ?_
  refine .trans _ _ _ (.rel _ _ (.row [] _ (.targets htargets))) ?_
  refine .trans _ _ _ (.rel _ _ (.row [_] [] (.source hsource))) ?_
  refine .trans _ _ _ (.rel _ _ (.row [_] [] (.symbol hsymbol))) ?_
  exact .rel _ _ (.addRow [] _ rfl rfl (by decide))

/-- The two forms describe one automaton. -/
theorem automaton_eq_of_edits_untidy :
    Relation.EqvGen Edit tidy untidy ∧ tidy.automaton = untidy.automaton ∧
      untidy.automaton.toOption.map Automaton.transitions =
        some [⟨.simple "A", [.simple "A", .simple "B"], "λ"⟩,
          ⟨.simple "B", [.simple "C"], "1"⟩] :=
  ⟨eqvGen_edit_tidy_untidy, automaton_eq_of_edits eqvGen_edit_tidy_untidy, by decide⟩

end Form

end Determinize
