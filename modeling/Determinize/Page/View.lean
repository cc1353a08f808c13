import Determinize.Decimal.Tenths
import Determinize.Page.Element
import Determinize.Page.Session
import Determinize.Run.Word
import Determinize.Subset.Log
import Determinize.Subset.Replay
/-!
# The page

The page takes an automaton as a form and shows its way to a minimal deterministic one: the
automaton as entered with its closures, the subset construction up to a chosen step, and, once the
construction is whole, the minimized automaton and a field to test words with.

## Main definitions

* `Page.Session.screen` — the page for a session
* `Page.Session.run` — an action of the user, and the page after it
-/

namespace Determinize

namespace Page

/-- What a way to minimize does, for the user. -/
def modeHelp : Mode → String
  | .single => "One pass over every pair of states (merges obviously equivalent states)."
  | .converge => "Repeats single passes until no more states merge."
  | .byBlocks => "Partition refinement: produces the minimal DFA."

/-- The text under the title. -/
def introduction : String :=
  "\n    Enter a nondeterministic finite automaton, possibly with lambda transitions, and follow " ++
    "its conversion:\n    NFA-λ → NFA → DFA (subset construction) → Minimized DFA.\n\n    " ++
    "Leave the symbol empty (or type `" ++ Symbol.epsilon ++ "`) for a lambda transition. " ++
    "Separate several next states with commas.\n    "

/-- The head of the page. -/
def heading : List Element :=
  [.window "NFA to DFA Converter" "🧠" "wide", .text .title "NFA to Minimal DFA Converter",
   .text .markdown introduction]

/-- The side of the page: examples and ways to minimize. -/
def sidebar (mode : Mode) : List Element :=
  [.text .header "Examples", .selectbox "Select an example:" (examples.map (·.description)),
   .button "Use Selected Example",
   .radio "Minimization mode:" (Mode.all.map Mode.name) (Mode.all.idxOf .single),
   .text .caption (modeHelp mode)]

/-- The rows of the transition table, as a table. -/
def rowTable (rows : GivenRows) : Table where
  columns := ["State", "Symbol", "Next States"]
  rows := rows.map fun r => [r.1, r.2.1, r.2.2]

/-- The form. -/
def formFields (s : Session) : List Element :=
  [.columns 2,
   .textInput "Initial State:" (some "initial_state") (some "e.g., A") none s.initial,
   .textInput "Final States (comma-separated):" (some "final_states") (some "e.g., C") none s.finals,
   .text .markdown "### Transitions",
   .editor ("rows_editor_" ++ toString s.version) "dynamic" true (rowTable s.rows),
   .button "Reset"]

/-- The closures of the listed states. -/
def closureTable (a : Automaton) : Table where
  columns := ["State", "λ-closure"]
  rows := a.states.map fun s => [s.text, State.listText (closure a.transitions s)]

/-- The automaton as entered. -/
def inputPart (a : Automaton) : Screen :=
  .ofEvents [.entered a] ++ .ofElements [.text .subheader "Step 1: Input NFA"] ++
    .ofAutomaton a "NFA"
      "Double circles are accepting states. Arrows labeled λ are lambda transitions." ++
    .ofElements [.expander "Show λ-closures", .table (closureTable a)]

/-- The whole subset construction, as a slider over its steps. -/
def sliderPart (replay : Replay) : Screen :=
  .ofEvents (replay.automaton.determinizationLog none) ++
    .ofElements
      [.text .subheader "Step 2: Convert NFA to DFA",
       .slider "Construction step:" replay.stepNumbers replay.lastStep]

/-- Where the slider stands: at the step that was chosen, if there is such a step, or else at the
last one. -/
def sliderPlace (replay : Replay) (step : Raw) : Raw :=
  if replay.hasStep step then step else .int replay.lastStep

/-- The subset construction up to the step `k`. -/
def constructionPart (replay : Replay) (k : Nat) (c : Construction) : Screen :=
  .ofEvents (replay.automaton.determinizationLog (some k)) ++
    .ofElements (if c.interrupted then
      [.text .info ("Construction interrupted before processing step " ++ toString k ++ " of " ++
        toString replay.completedSteps ++ ".")] else []) ++
    .ofAutomaton c.automaton "DFA"
      "Composite states are sets of NFA states. TRAP absorbs every missing transition."

/-- How many of `before` states are gone when `after` are left, in percent. -/
def reduction (before after : Nat) : Float :=
  Float.ofNat (before - after) / Float.ofNat before * 100

/-- What minimizing did to the number of states. -/
def reductionText (before after : Nat) : Element :=
  if after < before then
    .text .success ("State reduction: " ++
      (Decimal.Magnitude.ofBits (reduction before after).toBits).tenthsText ++ "% (from " ++
      toString before ++ " to " ++ toString after ++ " states)")
  else .text .info "No equivalent states were found - no state reduction possible."

/-- Whether the word is accepted, for the user. -/
def verdictText (word : String) (accepted : Bool) : Element :=
  if accepted then .text .success ("String '" ++ word ++ "' is ACCEPTED by the DFA.")
  else .text .error ("String '" ++ word ++ "' is REJECTED by the DFA.")

/-- The field to test words with. -/
def wordField (word : Raw) : List Element :=
  [.text .subheader "Test DFA with String",
   .textInput "Enter a string to test:" none none
    (some "Use only symbols from the alphabet. Leave empty to test the empty string.") word]

/-- The run on the word in the field. -/
def verdictPart (a : Automaton) (word : Raw) : Screen :=
  match Word.ofRaw word with
  | .error fault => .ofFault fault
  | .ok w =>
    let run := a.runWord w
    .ofElements
      [verdictText word.text run.accepted, .expander "Show Processing Trace",
       .code ("\n".intercalate run.trace) "text"]

/-- The minimized automaton and the test of words. -/
def minimizationPart (a : Automaton) (mode : Mode) (word : Raw) : Screen :=
  let m := a.copy.minimized mode
  .ofElements [.text .subheader "Step 3: Minimize DFA"] ++
    .ofEvents (a.copy.minimizationLog mode) ++
    .ofAutomaton m "Minimized DFA" "Equivalent states have been merged." ++
    .ofElements (reductionText a.states.length m.states.length :: wordField word) ++
    verdictPart m word

/-- The way of an automaton to a minimal deterministic one, shown at the place of the slider. -/
def conversion (a : Automaton) (choices : Choices) : Screen :=
  let replay := Replay.of a
  inputPart a ++ sliderPart replay ++
    match replay.stepAtRaw (sliderPlace replay choices.step) with
    | .error fault => .ofFault fault
    | .ok (k, c) =>
      constructionPart replay k c ++
        if replay.isFinalStep k then minimizationPart c.automaton choices.mode choices.word
        else .ofElements []

namespace Session

/-- What the page shows below the form: what is missing, or the conversion of the automaton. A
field that holds no text at all ends the page. -/
def outcome (s : Session) : Screen :=
  match s.form.automaton with
  | .ok a => conversion a s.choices
  | .error (.noAttribute kind name) => .ofFault (.noAttribute kind name)
  | .error fault =>
    if fault.isIncomplete then
      .ofElements [.text .info ("Waiting for a complete automaton: " ++ fault.message)]
    else .ofElements [.text .error ("Error: " ++ fault.message)]

/-- The page for a session. -/
def screen (s : Session) : Screen :=
  .ofElements (heading ++ sidebar s.choices.mode ++ formFields s) ++ s.outcome

/-- The session after an action and a run of the page, and the page. -/
def run (s : Session) (action : Action) : Session × Screen :=
  ((s.act action).afterRun, (s.act action).screen)

end Session

end Page

end Determinize
