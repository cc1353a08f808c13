import Determinize.Text.Unassigned
/-!
# Printable characters

A character is printable when it shows by itself: it is no control, format or private-use
character, no separator other than the ordinary space, and it is assigned.
-/

namespace Determinize

namespace Text

/-- The assigned code points that do not show: controls, format characters, private use, and all
separators but the ordinary space. Unicode 14. -/
def hiddenRanges : List CodeRange :=
  [⟨0x0, 0x1F⟩, ⟨0x7F, 0xA0⟩, ⟨0xAD, 0xAD⟩, ⟨0x600, 0x605⟩, ⟨0x61C, 0x61C⟩, ⟨0x6DD, 0x6DD⟩,
   ⟨0x70F, 0x70F⟩, ⟨0x890, 0x891⟩, ⟨0x8E2, 0x8E2⟩, ⟨0x1680, 0x1680⟩, ⟨0x180E, 0x180E⟩,
   ⟨0x2000, 0x200F⟩, ⟨0x2028, 0x202F⟩, ⟨0x205F, 0x2064⟩, ⟨0x2066, 0x206F⟩, ⟨0x3000, 0x3000⟩,
   ⟨0xE000, 0xF8FF⟩, ⟨0xFEFF, 0xFEFF⟩, ⟨0xFFF9, 0xFFFB⟩, ⟨0x110BD, 0x110BD⟩, ⟨0x110CD, 0x110CD⟩,
   ⟨0x13430, 0x13438⟩, ⟨0x1BCA0, 0x1BCA3⟩, ⟨0x1D173, 0x1D17A⟩, ⟨0xE0001, 0xE0001⟩,
   ⟨0xE0020, 0xE007F⟩, ⟨0xF0000, 0xFFFFD⟩, ⟨0x100000, 0x10FFFD⟩]

/-- Whether the character stands for itself in a quoted text. -/
def isPrintable (c : Char) : Bool := !inRanges hiddenRanges c && !isUnassigned c

example : isPrintable ' ' = true ∧ isPrintable 'λ' = true := by decide

example : isPrintable '\u00ad' = false ∧ isPrintable '\u200b' = false := by decide

end Text

end Determinize
