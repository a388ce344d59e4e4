/-!
# Ranges of characters

Properties of characters are tables of ranges of code points.
-/

namespace JointSchnorr.Text

/-- Whether the code point of a character is in one of some ranges, ends included. -/
def inRanges (ranges : List (Nat × Nat)) (c : Char) : Bool :=
  ranges.any fun (first, last) => first ≤ c.toNat && c.toNat ≤ last

end JointSchnorr.Text
