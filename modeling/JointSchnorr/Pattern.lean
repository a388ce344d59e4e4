import JointSchnorr.Pattern.Brackets
import JointSchnorr.Text.Letter

/-!
# Patterns

A pattern is a row of signs, brackets and groups, each of which may be repeated, or several such
rows as alternatives. Groups may have names, each name once, and set modes for what is in them;
modes set without a group hold to the end of the group around. A pattern is at most 250 parts
deep.
-/

namespace JointSchnorr.Pattern

/-- A part of a row. -/
structure Part where
  height : Nat
  /-- Whether the part is more than a setting of modes. -/
  isRepeatable : Bool

/-- What has been read of the pattern or a group. -/
structure Row where
  /-- The height of the highest alternative before the last one, if there are several. -/
  alternatives : Option Nat
  /-- The parts of the last alternative, the last one first. -/
  parts : List Part

/-- The row of which nothing has been read. -/
def Row.empty : Row := ⟨none, []⟩

namespace Row

/-- Adds a part to a row. -/
def add (r : Row) (height : Nat) (isRepeatable : Bool) : Row :=
  { r with parts := ⟨height, isRepeatable⟩ :: r.parts }

/-- The height of the highest alternative. -/
def highest (r : Row) : Nat := Nat.max (r.alternatives.getD 0) (rowHeight (r.parts.map (·.height)))

/-- The height of a row with its alternatives. -/
def height (r : Row) : Nat := if r.alternatives.isSome then 1 + r.highest else r.highest

/-- Begins a new alternative. -/
def alternate (r : Row) : Row := ⟨some r.highest, []⟩

/-- Repeats the last part. -/
def repeat? (r : Row) : Option Row :=
  match r.parts with
  | part :: parts =>
    if part.isRepeatable then some { r with parts := ⟨1 + part.height, true⟩ :: parts } else none
  | [] => none

end Row

/-- What has been read of a pattern. -/
structure Reading where
  modes : Modes
  row : Row
  /-- The rows around the one that is read, with the modes to go back to. -/
  outer : List (Modes × Row)
  /-- The names of the groups. -/
  names : List (List Char)

namespace Reading

/-- Nothing has been read. -/
def start : Reading := ⟨Modes.initial, Row.empty, [], []⟩

/-- Opens a group with modes of its own. -/
def openGroup (r : Reading) (modes : Modes) : Reading :=
  ⟨modes, Row.empty, (r.modes, r.row) :: r.outer, r.names⟩

/-- Closes the innermost group. -/
def closeGroup? (r : Reading) : Option Reading :=
  match r.outer with
  | (modes, row) :: outer => some ⟨modes, row.add (1 + r.row.height) true, outer, r.names⟩
  | [] => none

/-- Adds a part that can be repeated. -/
def add (r : Reading) (height : Nat) : Reading := { r with row := r.row.add height true }

/-- Adds a sign, if it can stand there. -/
def addSign? (r : Reading) (s : Sign) : Option Reading :=
  if s.isAllowed r.modes then some (r.add 0) else none

/-- Whether a text can be the name of a group. -/
def isName : List Char → Bool
  | [] => false
  | c :: text =>
    let isInner (c : Char) := ['_', '.', '[', ']'].contains c || Text.isLetterOrNumeral c
    (c == '_' || Text.isLetter c) && text.all isInner

/-- Reads the name of a group, and opens it. -/
def namedGroup? (r : Reading) (text : List Char) : Option (Reading × List Char) :=
  let name := text.takeWhile (· ≠ '>')
  match text.dropWhile (· ≠ '>') with
  | _ :: rest =>
    if isName name && ! r.names.contains name then
      some ({ r.openGroup r.modes with names := name :: r.names }, rest)
    else none
  | [] => none

/-- Reads the letters of modes, each at most once: those behind a hyphen are unset. A colon opens
a group with the modes, a closing bracket sets them from there on. -/
def modes? (r : Reading) (modes : Modes) (seen : List Char) :
    List Char → Option (Reading × List Char)
  | [] => none
  | c :: text =>
    let isOpen := seen.head? = some '-'
    if c = ':' then if isOpen then none else some (r.openGroup modes, text)
    else if c = ')' then
      if isOpen || seen.isEmpty then none
      else some ({ r with modes := modes, row := r.row.add 0 false }, text)
    else if seen.contains c then none
    else if c = '-' then modes? r modes (c :: seen) text
    else (modes.set? c (! seen.contains '-')).bind fun modes => modes? r modes (c :: seen) text

/-- Reads the opening of a group from behind its bracket. -/
def group? (r : Reading) (text : List Char) : Option (Reading × List Char) :=
  match r.modes.skip text with
  | '?' :: 'P' :: '<' :: text | '?' :: '<' :: text => r.namedGroup? text
  | '?' :: text => r.modes? r.modes [] text
  | text => some (r.openGroup r.modes, text)

/-- Reads on by one part, bracket or operator. -/
def step? (r : Reading) : List Char → Option (Reading × List Char)
  | [] => none
  | '(' :: text => r.group? text
  | ')' :: text => r.closeGroup?.map (·, text)
  | '|' :: text => some ({ r with row := r.row.alternate }, text)
  | '[' :: text =>
    (Brackets.ofChars? r.modes text).map fun (height, text) => (r.add height, text)
  | '\\' :: text =>
    (Sign.escaped? r.modes text).bind fun (s, text) => (r.addSign? s).map (·, text)
  | '.' :: text => (r.addSign? .any).map (·, text)
  | '^' :: text | '$' :: text => (r.addSign? .edge).map (·, text)
  | '\x7b' :: _ => none
  | c :: text =>
    if c = '?' ∨ c = '*' ∨ c = '+' then
      let text := if text.head? = some '?' then text.drop 1 else text
      r.row.repeat?.map fun row => ({ r with row := row }, text)
    else (r.addSign? (.literal c false)).map (·, text)

/-- Reads on to the end. -/
def finish? (r : Reading) (text : List Char) : Option Reading :=
  match r.modes.skip text with
  | [] => some r
  | c :: rest => match r.step? (c :: rest) with
    | some (r, rest) => if rest.length < text.length then finish? r rest else none
    | none => none
termination_by text.length

end Reading

/-- The greatest height of a pattern. -/
def maxHeight : Nat := 250

/-- Whether a text is a pattern. -/
def isPattern (text : List Char) : Bool :=
  match Reading.start.finish? text with
  | some r => r.outer.isEmpty && r.row.height ≤ maxHeight
  | none => false

end JointSchnorr.Pattern
