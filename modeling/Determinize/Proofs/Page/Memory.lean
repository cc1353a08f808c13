import Determinize.Page.View
import Mathlib.Data.Nat.Notation

/-!
# What a page remembers of earlier edits

An edited table is kept under the version of the editor it was made with, and only the version that
is current now is ever looked at. Versions are counted up by the two buttons that fill in the form
anew, and by nothing else. So nothing is kept under a version that is still to come: right after one
of these buttons the table is the one the button has put there, whatever was typed or edited before,
even in the same action.

After loading an example the page is therefore the conversion of that example, and after a reset it
waits for an initial state.

## Main definitions

* `Page.Session.after`, `Page.Session.Reachable` — sessions after any number of actions
* `Page.Session.renews`, `Page.Session.renewals` — the actions that begin a new version
* `Page.Session.editorKey`, `Page.Screen.editorKeys` — the key of the table, as kept and as shown
* `Page.Example.form` — an example as a form

## Main results

* `Page.Session.Dated.after` — nothing is kept under a later version
* `Page.Session.version_after` — how versions are counted
* `Page.Session.form_act_load`, `Page.Session.form_act_reset` — the form right after a button
* `Page.Session.run_renewed` — so no earlier edit is seen again
-/

namespace Determinize

namespace Page

/-- The key of the element, if it is a table to be edited. -/
def Element.editorKey? : Element → Option String
  | .editor key _ _ _ => some key
  | _ => none

/-- The keys of the tables to be edited that the page shows. -/
def Screen.editorKeys (s : Screen) : List String := s.elements.filterMap Element.editorKey?

/-- The example as a form. -/
def Example.form (e : Example) : Form where
  initial := .text e.initial
  finals := .text e.finals
  rows := e.rows.map fun r => (.text r.1, .text r.2.1, .text r.2.2)

/-! ### Examples -/

section Examples

variable {e : Example} {i : Int}

theorem mem_examples_of_exampleAt? (h : exampleAt? i = some e) : e ∈ examples := by
  rw [exampleAt?] at h
  split at h
  · exact List.mem_of_getElem? h
  · exact List.mem_reverse.mp (List.mem_of_getElem? h)

/-- In every example both texts are filled in. -/
theorem ofRaw_of_mem_examples (h : e ∈ examples) :
    Cell.ofRaw (.str e.initial) = .text e.initial ∧
      Cell.ofRaw (.str e.finals) = .text e.finals := by
  revert e
  decide

/-- Every example describes an automaton. -/
theorem exists_automaton_of_mem_examples (h : e ∈ examples) : ∃ a, e.form.automaton = .ok a := by
  have hall : ∀ e ∈ examples, e.form.automaton.toOption.isSome = true := by decide
  have hsome := hall e h
  cases hform : e.form.automaton with
  | ok a => exact ⟨a, rfl⟩
  | error fault =>
    rw [hform] at hsome
    exact absurd hsome Bool.false_ne_true

end Examples

/-! ### Keys on the page -/

namespace Screen

variable {s t : Screen}

/-- Nothing is added by a screen without a key. -/
theorem editorKeys_append (h : t.editorKeys = []) : (s ++ t).editorKeys = s.editorKeys := by
  cases hs : s.fault? with
  | some fault => rw [append_of_fault hs]
  | none =>
    rw [editorKeys, elements_append hs, List.filterMap_append]
    exact (congrArg _ h).trans (List.append_nil _)

theorem editorKeys_append_eq_nil (hs : s.editorKeys = []) (ht : t.editorKeys = []) :
    (s ++ t).editorKeys = [] :=
  (editorKeys_append ht).trans hs

theorem editorKeys_ofAutomaton (a : Automaton) (title caption : String) :
    (ofAutomaton a title caption).editorKeys = [] := rfl

end Screen

open Screen

theorem editorKey?_verdictText (word : String) (accepted : Bool) :
    (verdictText word accepted).editorKey? = none := by
  cases accepted <;> rfl

theorem editorKey?_reductionText (before after : ℕ) :
    (reductionText before after).editorKey? = none := by
  rw [reductionText]
  split <;> rfl

theorem editorKeys_verdictPart (a : Automaton) (word : Raw) :
    (verdictPart a word).editorKeys = [] := by
  rw [verdictPart]
  split
  · rfl
  · exact List.filterMap_cons_none (editorKey?_verdictText _ _)

theorem editorKeys_minimizationPart (a : Automaton) (mode : Mode) (word : Raw) :
    (minimizationPart a mode word).editorKeys = [] := by
  refine editorKeys_append_eq_nil (editorKeys_append_eq_nil (editorKeys_append_eq_nil
    (editorKeys_append_eq_nil rfl rfl) (editorKeys_ofAutomaton ..)) ?_)
    (editorKeys_verdictPart ..)
  exact List.filterMap_cons_none (editorKey?_reductionText _ _)

/-- The conversion is only shown, not edited. -/
theorem editorKeys_conversion (a : Automaton) (choices : Choices) :
    (conversion a choices).editorKeys = [] := by
  refine editorKeys_append_eq_nil (editorKeys_append_eq_nil rfl rfl) ?_
  split
  · rfl
  · refine editorKeys_append_eq_nil (editorKeys_append_eq_nil (editorKeys_append_eq_nil rfl ?_)
      (editorKeys_ofAutomaton ..)) ?_
    · split <;> rfl
    · split
      · exact editorKeys_minimizationPart ..
      · rfl

namespace Session

variable {s : Session} {e : Example} {action : Action} {later : List Action}

/-- The key of the table to be edited. -/
def editorKey (s : Session) : String := "rows_editor_" ++ toString s.version

/-- Versions have keys of their own. -/
theorem editorKey_inj {s t : Session} : s.editorKey = t.editorKey ↔ s.version = t.version := by
  rw [editorKey, editorKey, String.append_right_inj]
  refine ⟨fun h => ?_, fun h => h ▸ rfl⟩
  have hdigits := congrArg (fun text => Nat.ofDigitChars 10 text.toList 0) h
  simpa [Nat.toString_eq_ofList_toDigits, Nat.ofDigitChars_ten_toDigits] using hdigits

theorem editorKeys_outcome (s : Session) : s.outcome.editorKeys = [] := by
  rw [outcome]
  split
  · exact editorKeys_conversion ..
  · rfl
  · split <;> rfl

/-- One table can be edited on every page, and it has the current key. -/
theorem editorKeys_screen (s : Session) : s.screen.editorKeys = [s.editorKey] := by
  rw [screen, editorKeys_append (editorKeys_outcome s)]
  rfl

/-! ### Versions -/

/-- The session after some actions, with a run of the page after each of them. -/
def after (s : Session) (actions : List Action) : Session :=
  actions.foldl (fun s action => (s.run action).1) s

/-- The session comes about by some actions on a page that has just been opened. -/
def Reachable (s : Session) : Prop := ∃ actions, s = fresh.after actions

/-- Whether the action fills in the form anew: a reset does, and so does loading an example that is
there. -/
def renews (s : Session) (action : Action) : Bool :=
  match action.click? with
  | none => false
  | some .reset => true
  | some .load => (exampleAt? s.offered).isSome

/-- How often the form is filled in anew. -/
def renewals : Session → List Action → ℕ
  | _, [] => 0
  | s, action :: later => (s.renews action).toNat + (s.run action).1.renewals later

theorem version_act (s : Session) (action : Action) :
    (s.act action).version = s.version + (s.renews action).toNat := by
  rw [act, clicked, renews]
  cases hclick : action.click? with
  | none => rfl
  | some button =>
    cases button with
    | reset => rfl
    | load =>
      dsimp only
      cases h : exampleAt? s.offered with
      | none => simp [typed, chosen, h]
      | some e => simp [typed, chosen, h, load]

/-- A version ends when the form is filled in anew, and at no other time. -/
theorem version_after (s : Session) (later : List Action) :
    (s.after later).version = s.version + s.renewals later := by
  induction later generalizing s with
  | nil => rfl
  | cons action later ih =>
    have hnext : (s.run action).1.version = s.version + (s.renews action).toNat :=
      version_act s action
    rw [renewals, ← Nat.add_assoc, ← hnext]
    exact ih _

/-! ### Edits -/

/-- Tables have been edited in the current version and in earlier ones. -/
def Dated (s : Session) : Prop := ∀ edit ∈ s.edits, edit.1 ≤ s.version

theorem dated_fresh : fresh.Dated := fun _ h => absurd h List.not_mem_nil

/-- What the user edits is kept under the current version. -/
theorem Dated.typed (h : s.Dated) (action : Action) : (s.typed action).Dated := by
  intro edit hedit
  rw [Session.typed] at hedit
  split at hedit
  · rcases List.mem_cons.mp hedit with rfl | hedit
    · exact Nat.le_refl _
    · exact h edit hedit
  · exact h edit hedit

/-- An action ends with the edits that were there when the buttons were looked at. -/
theorem edits_act (s : Session) (action : Action) :
    (s.act action).edits = (s.typed action).edits := by
  rw [act, clicked]
  split
  · rfl
  · rfl
  · split <;> rfl

theorem Dated.act (h : s.Dated) (action : Action) : (s.act action).Dated := by
  intro edit hedit
  rw [edits_act] at hedit
  have hversion : (s.typed action).version ≤ (s.act action).version := by
    rw [version_act]
    exact Nat.le_add_right _ _
  exact Nat.le_trans (h.typed action edit hedit) hversion

theorem Dated.after (h : s.Dated) (later : List Action) : (s.after later).Dated := by
  induction later generalizing s with
  | nil => exact h
  | cons action later ih => exact ih (h.act action)

theorem Reachable.dated (h : s.Reachable) : s.Dated := by
  obtain ⟨actions, rfl⟩ := h
  exact dated_fresh.after actions

/-- In a new version the table is the one that the editor is given. -/
theorem edited_of_renews (h : s.Dated) (hrenews : s.renews action = true) :
    (s.act action).edited =
      (s.act action).rows.map fun r => (some r.1, some r.2.1, some r.2.2) := by
  have hlookup : (s.act action).edits.lookup (s.act action).version = none := by
    rw [List.lookup_eq_none_iff]
    intro edit hedit
    rw [edits_act] at hedit
    have hversion := version_act s action
    have hold : edit.1 ≤ s.version := h.typed action edit hedit
    rw [hrenews, Bool.toNat_true] at hversion
    simpa using (by omega : (s.act action).version ≠ edit.1)
  rw [edited, hlookup]

theorem act_load (hclick : action.click? = some .load) (he : exampleAt? s.offered = some e) :
    s.act action = ((s.typed action).chosen action).load e := by
  rw [act, clicked, hclick]
  have hoffered : exampleAt? ((s.typed action).chosen action).offered = some e := he
  simp only [hoffered]

theorem act_reset (hclick : action.click? = some .reset) :
    s.act action = ((s.typed action).chosen action).reset := by
  rw [act, clicked, hclick]

/-- The form after a click that fills it in anew is made of what was put into it. -/
theorem form_act_of_renews (h : s.Dated) (hrenews : s.renews action = true) :
    (s.act action).form =
      ⟨.ofRaw (s.act action).initial, .ofRaw (s.act action).finals,
        (s.act action).rows.map fun r => (.text r.1, .text r.2.1, .text r.2.2)⟩ := by
  rw [form, edited_of_renews h hrenews, List.map_map]
  rfl

/-- Right after an example was loaded, the form is the example. -/
theorem form_act_load (h : s.Dated) (hclick : action.click? = some .load)
    (he : exampleAt? s.offered = some e) : (s.act action).form = e.form := by
  have hrenews : s.renews action = true := by
    rw [renews, hclick]
    exact Option.isSome_iff_exists.mpr ⟨e, he⟩
  obtain ⟨hinitial, hfinals⟩ := ofRaw_of_mem_examples (mem_examples_of_exampleAt? he)
  rw [form_act_of_renews h hrenews, act_load hclick he]
  simp only [load, hinitial, hfinals, Example.form]

/-- Right after a reset, the form is empty. -/
theorem form_act_reset (h : s.Dated) (hclick : action.click? = some .reset) :
    (s.act action).form = ⟨.blank, .blank, [(.text "", .text "", .text "")]⟩ := by
  have hrenews : s.renews action = true := by
    rw [renews, hclick]
  rw [form_act_of_renews h hrenews, act_reset hclick]
  rfl

/-- **What fills in the form anew discards every earlier edit.** The version of the table goes up by
one at each reset and at each example that is loaded, and at nothing else; it is the version that
the page shows, so the key of a table never comes again once the form was filled in anew. Right
after an example was loaded, the form is the example, and the page is the conversion of the
automaton that it describes; right after a reset, the form is empty, and the page waits for an
initial state. -/
theorem run_renewed (h : s.Reachable) (action : Action) :
    (s.run action).1.version = s.version + (s.renews action).toNat ∧
    (s.run action).2.editorKeys = [(s.run action).1.editorKey] ∧
    (∀ later, ((s.run action).1.after later).editorKey = (s.run action).1.editorKey ↔
      (s.run action).1.renewals later = 0) ∧
    (∀ e, action.click? = some .load → exampleAt? s.offered = some e →
      (s.run action).1.form = e.form ∧
      ∃ a, e.form.automaton = .ok a ∧ (s.run action).2 =
        .ofElements (heading ++ sidebar (s.run action).1.choices.mode ++
          formFields (s.run action).1) ++ conversion a (s.run action).1.choices) ∧
    (action.click? = some .reset →
      (s.run action).1.form = ⟨.blank, .blank, [(.text "", .text "", .text "")]⟩ ∧
      (s.run action).2 =
        .ofElements (heading ++ sidebar (s.run action).1.choices.mode ++
          formFields (s.run action).1) ++
        .ofElements [.text .info
          "Waiting for a complete automaton: An initial state is required"]) := by
  refine ⟨version_act s action, editorKeys_screen _, fun later => ?_, fun e hclick he => ?_,
    fun hclick => ?_⟩
  · rw [editorKey_inj, version_after]
    exact Nat.add_eq_left
  · obtain ⟨a, ha⟩ := exists_automaton_of_mem_examples (mem_examples_of_exampleAt? he)
    refine ⟨form_act_load h.dated hclick he, a, ha, ?_⟩
    show (s.act action).screen = _
    rw [screen, outcome, form_act_load h.dated hclick he, ha]
    rfl
  · refine ⟨form_act_reset h.dated hclick, ?_⟩
    show (s.act action).screen = _
    rw [screen, outcome, form_act_reset h.dated hclick]
    rfl

/-- A table is edited when an example is loaded, and it is edited again in the new version, where
another example is selected. -/
def editing : List Action :=
  [⟨some (.str "X"), some (.str "X"), some [(some "X", some "1", some "X")], none, none, none, none,
      some .load⟩,
    ⟨none, none, some [(some "Y", none, some "Y")], none, none, none, some 1, none⟩]

/-- A last edit, and a button. -/
def editAndPress (button : Button) : Action :=
  ⟨none, none, some [(some "Z", some "0", some "Z")], none, none, none, none, some button⟩

/-- None of the three edits is seen again, whichever button is pressed. -/
theorem run_renewed_editing :
    (fresh.after editing).Reachable ∧ (fresh.after editing).version = 2 ∧
      ((fresh.after editing).run (editAndPress .load)).1.version = 3 ∧
      (∃ e a, exampleAt? (fresh.after editing).offered = some e ∧
        ((fresh.after editing).run (editAndPress .load)).1.form = e.form ∧
        e.form.automaton = .ok a ∧
        ((fresh.after editing).run (editAndPress .load)).2 =
          .ofElements (heading ++ sidebar .single ++
            formFields ((fresh.after editing).run (editAndPress .load)).1) ++
          conversion a ⟨.single, .null, .str "", 1⟩) ∧
      ((fresh.after editing).run (editAndPress .reset)).1.form =
        ⟨.blank, .blank, [(.text "", .text "", .text "")]⟩ ∧
      ((fresh.after editing).run (editAndPress .reset)).2 =
        .ofElements (heading ++ sidebar .single ++
          formFields ((fresh.after editing).run (editAndPress .reset)).1) ++
        .ofElements [.text .info
          "Waiting for a complete automaton: An initial state is required"] := by
  have hreachable : (fresh.after editing).Reachable := ⟨editing, rfl⟩
  obtain ⟨hversion, -, -, hload, -⟩ := run_renewed hreachable (editAndPress .load)
  obtain ⟨-, -, -, -, hreset⟩ := run_renewed hreachable (editAndPress .reset)
  have hoffered : exampleAt? (fresh.after editing).offered = examples[1]? := rfl
  obtain ⟨hform, a, ha, hscreen⟩ := hload _ rfl hoffered
  exact ⟨hreachable, rfl, hversion, ⟨_, a, hoffered, hform, ha, hscreen⟩, hreset rfl⟩

end Session

end Page

end Determinize
