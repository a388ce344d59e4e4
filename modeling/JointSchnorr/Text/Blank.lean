import JointSchnorr.Text.Range

/-!
# Blanks

Blanks are the white space of the Unicode standard: 25 characters, the spaces, the line and
paragraph separators and the controls that part words or lines.
-/

namespace JointSchnorr.Text

/-- The characters with the property White_Space, in ascending ranges. -/
def blankRanges : List (Nat × Nat) :=
  [(0x9, 0xD), (0x20, 0x20), (0x85, 0x85), (0xA0, 0xA0), (0x1680, 0x1680), (0x2000, 0x200A),
   (0x2028, 0x2029), (0x202F, 0x202F), (0x205F, 0x205F), (0x3000, 0x3000)]

/-- Whether a character is a blank. -/
def isBlank (c : Char) : Bool := inRanges blankRanges c

/-- A text without the blanks around it. -/
def trim (text : List Char) : List Char :=
  ((text.dropWhile isBlank).reverse.dropWhile isBlank).reverse

end JointSchnorr.Text
