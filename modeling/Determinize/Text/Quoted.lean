import Determinize.Text.Printable
/-!
# Quoted text

Messages show a text in quotes, so that its ends and its unprintable characters can be seen. The
quotes are single, and double only for a text that holds a single quote and no double one.

## Main definitions

* `Text.quoted` — the text in quotes, with everything that does not show written as an escape

## Implementation notes

Digits of an escape are hexadecimal in lower case: two up to U+00FF, four up to U+FFFF, eight
beyond. A backslash, the quote in use, tab, line feed and carriage return have short escapes.
-/

namespace Determinize

namespace Text

/-- The last `width` hexadecimal digits of `n`, in lower case. -/
def hexDigits : Nat → Nat → List Char
  | 0, _ => []
  | width + 1, n => hexDigits width (n / 16) ++ [Nat.digitChar (n % 16)]

/-- The quote around a text with the characters `l`. -/
def quoteFor (l : List Char) : Char :=
  if '\'' ∈ l ∧ '"' ∉ l then '"' else '\''

/-- How a character is written between two quotes `quote`. -/
def escaped (quote c : Char) : List Char :=
  if c = quote ∨ c = '\\' then ['\\', c]
  else if c = '\t' then ['\\', 't']
  else if c = '\n' then ['\\', 'n']
  else if c = '\r' then ['\\', 'r']
  else if isPrintable c then [c]
  else if c.toNat < 0x100 then '\\' :: 'x' :: hexDigits 2 c.toNat
  else if c.toNat < 0x10000 then '\\' :: 'u' :: hexDigits 4 c.toNat
  else '\\' :: 'U' :: hexDigits 8 c.toNat

/-- The characters of the quoted form of a text with the characters `l`. -/
def quotedChars (l : List Char) : List Char :=
  quoteFor l :: l.flatMap (escaped (quoteFor l)) ++ [quoteFor l]

/-- The text in quotes. -/
def quoted (s : String) : String := String.ofList (quotedChars s.toList)

example : quoted "it's" = "\"it's\"" := by decide +kernel

example : quoted "a\\\u00ad\n" = "'a\\\\\\xad\\n'" := by decide +kernel

end Text

end Determinize
