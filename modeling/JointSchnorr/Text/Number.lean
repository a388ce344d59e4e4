/-!
# Numbers in writing

Whole numbers below `2 ^ 64`, with a plus sign and zeros in front if one likes, and floating
numbers, of which it only matters that they are such.
-/

namespace JointSchnorr.Text

/-- Lower case, for the letters without accents. -/
def lower (text : List Char) : List Char := text.map Char.toLower

/-- Whether a text consists of digits, at least one. -/
def isDigits (text : List Char) : Bool := ! text.isEmpty && text.all Char.isDigit

/-- Reads a number below `2 ^ 64`. -/
def number? (text : List Char) : Option Nat :=
  let digits := match text with
    | '+' :: digits => digits
    | _ => text
  if isDigits digits then
    let n := digits.foldl (fun n c => 10 * n + (c.toNat - '0'.toNat)) 0
    if n < 1 <<< 64 then some n else none
  else none

/-- A text without the sign in front of it. -/
def unsigned : List Char → List Char
  | '+' :: text | '-' :: text => text
  | text => text

/-- Whether a text is a floating number: digits around a point, of which either side and the
point may be missing, and an exponent; or infinity, or no number. -/
def isFloat (text : List Char) : Bool :=
  let text := unsigned text
  if ["inf", "infinity", "nan"].any (·.toList == lower text) then true
  else
    let whole := text.takeWhile Char.isDigit
    let rest := text.dropWhile Char.isDigit
    let (part, rest) := match rest with
      | '.' :: rest => (rest.takeWhile Char.isDigit, rest.dropWhile Char.isDigit)
      | _ => ([], rest)
    isDigits (whole ++ part) && match rest with
      | [] => true
      | c :: exponent => c.toLower == 'e' && isDigits (unsigned exponent)

end JointSchnorr.Text
