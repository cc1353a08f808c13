import Determinize.Text.Blank
/-!
# Symbols

A transition is labelled with a text. A text that is blank, or that is the letter λ with white
space around it, reads nothing: it is an epsilon symbol. Every other text is an input symbol, and
input symbols are compared as they are written, white space included.
-/

namespace Determinize

/-- The label of a transition, and a letter of a word. -/
abbrev Symbol := String

namespace Symbol

/-- How an epsilon symbol is shown. -/
def epsilon : Symbol := "λ"

/-- Whether a transition with this label reads nothing. -/
def isEpsilon (a : Symbol) : Bool := Text.trim a = "" ∨ Text.trim a = epsilon

/-- The symbol as it is shown: every epsilon symbol as λ. -/
def shown (a : Symbol) : String := if isEpsilon a then epsilon else a

example : isEpsilon " λ\t" = true ∧ isEpsilon "λλ" = false := by decide

end Symbol

end Determinize
