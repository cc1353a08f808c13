import Determinize.Reading
import Determinize.Run.Deterministic
import Determinize.Run.Nondeterministic
/-!
# Words of any kind

A word may be given as a text, which is read character by character, or as a list. An element of
the list that is no text is in no alphabet, and no transition reads it.

## Main definitions

* `Word` — the symbols up to the first thing that is none, and that thing
* `Word.ofRaw` — the word that a value is
* `Automaton.runWord`, `Automaton.acceptsWord` — runs on such words
-/

namespace Determinize

/-- The symbols of a word up to the first thing in it that is no symbol, and that thing. What
comes after it is never looked at. -/
structure Word where
  /-- The symbols. -/
  symbols : List Symbol
  /-- What comes next, if that is no symbol. -/
  foreign? : Option Raw

namespace Word

/-- The word of the given elements. -/
def ofElements : List Raw → Word
  | [] => ⟨[], none⟩
  | .str s :: rest => ⟨s :: (ofElements rest).symbols, (ofElements rest).foreign?⟩
  | x :: _ => ⟨[], some x⟩

/-- The word that a value is. -/
def ofRaw (x : Raw) : Except Fault Word := x.elements.map ofElements

end Word

namespace Automaton

/-- The run on a word from the initial state. -/
def runWord (a : Automaton) (w : Word) : Run :=
  match w.foreign? with
  | none => a.run w.symbols
  | some x => (a.run w.symbols).meeting x.text

/-- Whether some run on the word ends in a final state. Where some run is left, what is no symbol
is looked up like one, and that is refused for what cannot be a key. -/
def acceptsWord (a : Automaton) (w : Word) : Except Fault Bool :=
  match w.foreign? with
  | none => .ok (a.accepts w.symbols)
  | some x =>
    if (a.reached w.symbols).isEmpty ∨ x.isHashable then .ok false else .error (.unhashable x.kind)

end Automaton

end Determinize
