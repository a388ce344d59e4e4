import JointSchnorr.Text.Blank
import JointSchnorr.Text.Number

/-!
# The signs of patterns

Patterns are regular expressions. A sign of a pattern stands for one character out of some, or
for a place between characters. What signs there may be depends on the modes that hold where
they stand, for patterns are taken without the tables of the Unicode standard: by characters,
the case of letters cannot be ignored, and the classes of the standard and the edges of words
are unknown; by bytes, nothing may match beyond ASCII but a character that is written out.

A pattern stands in braces and holds no closing one, so what takes braces cannot be written.
-/

namespace JointSchnorr.Pattern

/-- The modes that decide how a pattern is read. -/
structure Modes where
  ignoresCase : Bool
  /-- Whether a pattern goes by characters and not by bytes. -/
  isUnicode : Bool
  /-- Whether blanks do not count, and what stands between a number sign and the end of its
  line. -/
  isVerbose : Bool
deriving DecidableEq

namespace Modes

/-- The modes that hold at the start of a pattern. -/
def initial : Modes := ⟨false, true, false⟩

/-- Sets the mode of a letter. Some letters have a mode that makes no difference here. -/
def set? (m : Modes) (letter : Char) (value : Bool) : Option Modes :=
  match letter with
  | 'i' => some { m with ignoresCase := value }
  | 'u' => some { m with isUnicode := value }
  | 'x' => some { m with isVerbose := value }
  | 'm' | 's' | 'U' | 'R' => some m
  | _ => none

/-- Passes over blanks, and over the rest of a comment if one has begun. -/
def skipBlanks : Bool → List Char → List Char
  | _, [] => []
  | true, c :: text => skipBlanks (c ≠ '\n') text
  | false, c :: text =>
    if c = '#' then skipBlanks true text
    else if Text.isBlank c then skipBlanks false text
    else c :: text

/-- Passes over what does not count. -/
def skip (m : Modes) (text : List Char) : List Char :=
  if m.isVerbose then skipBlanks false text else text

end Modes

/-- A sign of a pattern. -/
inductive Sign where
  /-- A character, and whether it is written as a byte, by two hexadecimal digits. -/
  | literal (c : Char) (isByte : Bool)
  /-- Any character but the end of a line. -/
  | any
  /-- The start or the end of a text or a line. -/
  | edge
  /-- The start or the end of a word, or the opposite. -/
  | wordEdge
  /-- The digits, the blanks or the characters of words, or all others. -/
  | shorthand (isNegated : Bool)
deriving DecidableEq

namespace Sign

/-- Whether a sign can stand in a pattern by itself. -/
def isAllowed (m : Modes) : Sign → Bool
  | literal c isByte => if m.isUnicode then ! m.ignoresCase else ! isByte || c.toNat < 128
  | any => m.isUnicode
  | edge => true
  | wordEdge => ! m.isUnicode
  | shorthand isNegated => ! m.isUnicode && ! isNegated

/-- Whether a sign can stand in brackets. -/
def isMember (m : Modes) : Sign → Bool
  | literal c _ => if m.isUnicode then ! m.ignoresCase else c.toNat < 128
  | shorthand isNegated => ! m.isUnicode && ! isNegated
  | any | edge | wordEdge => false

/-- The value of a hexadecimal digit in either case. -/
def hexValue? (c : Char) : Option Nat :=
  if c.isDigit then some (c.toNat - '0'.toNat)
  else if 'a' ≤ c.toLower ∧ c.toLower ≤ 'f' then some (c.toLower.toNat - 'a'.toNat + 10)
  else none

/-- Reads some hexadecimal digits behind those of a number. -/
def hexNumber? (m : Modes) : Nat → Nat → List Char → Option (Nat × List Char)
  | 0, n, text => some (n, text)
  | _, _, [] => none
  | count + 1, n, c :: text =>
    (hexValue? c).bind fun d => hexNumber? m count (16 * n + d) (m.skip text)

/-- Reads a character written as a number of hexadecimal digits. -/
def hexLiteral? (m : Modes) (count : Nat) (text : List Char) : Option (Sign × List Char) :=
  match hexNumber? m count 0 (m.skip text) with
  | some (n, text) =>
    if n < 0xD800 ∨ 0xDFFF < n ∧ n < 0x110000 then
      some (literal (Char.ofNat n) (count == 2), text)
    else none
  | none => none

/-- Reads a sign from behind a backslash. There are no signs for groups that came before, nor
for the properties of the Unicode standard. -/
def escaped? (m : Modes) : List Char → Option (Sign × List Char)
  | [] => none
  | c :: text =>
    match c with
    | 'x' => hexLiteral? m 2 text
    | 'u' => hexLiteral? m 4 text
    | 'U' => hexLiteral? m 8 text
    | 'd' | 's' | 'w' => some (shorthand false, text)
    | 'D' | 'S' | 'W' => some (shorthand true, text)
    | 'a' => some (literal '\x07' false, text)
    | 't' => some (literal '\t' false, text)
    | 'n' => some (literal '\n' false, text)
    | 'v' => some (literal '\x0b' false, text)
    | 'f' => some (literal '\x0c' false, text)
    | 'r' => some (literal '\r' false, text)
    | 'A' | 'z' => some (edge, text)
    | 'b' => if text.head? = some '\x7b' then none else some (wordEdge, text)
    | 'B' | '<' | '>' => some (wordEdge, text)
    | _ => if c.toNat < 128 ∧ ! c.isAlphanum then some (literal c false, text) else none

end Sign

end JointSchnorr.Pattern
