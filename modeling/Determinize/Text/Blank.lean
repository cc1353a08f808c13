import Determinize.Text.Range
/-!
# White space

Names, symbols and texts typed by a user are read after the white space around them is cut off.
White space here is the Unicode property with the four information separators U+001C to U+001F
added; the zero-width characters U+180E, U+200B and U+FEFF do not belong to it.

## Main definitions

* `Text.isBlank` — the characters that count as white space
* `Text.trim` — a text without the white space at its two ends
-/

namespace Determinize

namespace Text

/-- The code points of white space, Unicode 14. -/
def blankRanges : List CodeRange :=
  [⟨0x09, 0x0D⟩, ⟨0x1C, 0x20⟩, ⟨0x85, 0x85⟩, ⟨0xA0, 0xA0⟩, ⟨0x1680, 0x1680⟩, ⟨0x2000, 0x200A⟩,
   ⟨0x2028, 0x2029⟩, ⟨0x202F, 0x202F⟩, ⟨0x205F, 0x205F⟩, ⟨0x3000, 0x3000⟩]

/-- Whether the character is white space. -/
def isBlank (c : Char) : Bool := inRanges blankRanges c

/-- The characters of `l` without the white space at its two ends. -/
def trimChars (l : List Char) : List Char :=
  ((l.dropWhile isBlank).reverse.dropWhile isBlank).reverse

/-- The text without the white space at its two ends. -/
def trim (s : String) : String := String.ofList (trimChars s.toList)

example : trim " \u00a0q0\t" = "q0" := by decide

example : trim "\u200b" = "\u200b" := by decide

end Text

end Determinize
