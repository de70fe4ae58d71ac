import IntScript.Text.CodeRange

/-!
# Blank characters

White space in the sense of Unicode 17.0, and the text with the blanks at its ends cut off.
-/

namespace IntScript.Text

/-- The characters with the property White_Space. -/
def Blank.ranges : List CodeRange := [
  ⟨0x0009, 0x000D⟩, ⟨0x0020, 0x0020⟩, ⟨0x0085, 0x0085⟩, ⟨0x00A0, 0x00A0⟩, ⟨0x1680, 0x1680⟩,
  ⟨0x2000, 0x200A⟩, ⟨0x2028, 0x2029⟩, ⟨0x202F, 0x202F⟩, ⟨0x205F, 0x205F⟩, ⟨0x3000, 0x3000⟩]

/-- A white space character, line ends among them. -/
def isBlank (c : Char) : Bool := CodeRange.covers Blank.ranges c.toNat

/-- The text without the blanks at its two ends. -/
def trim (cs : List Char) : List Char :=
  ((cs.dropWhile isBlank).reverse.dropWhile isBlank).reverse

end IntScript.Text
