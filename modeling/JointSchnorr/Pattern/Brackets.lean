import JointSchnorr.Pattern.Sign

/-!
# Brackets in patterns

Brackets hold what one character may be: characters, ranges of them, named classes and further
brackets, joined by intersection, difference and symmetric difference. Of what is read only the
height is kept, by which the depth of a pattern is bounded.
-/

namespace JointSchnorr.Pattern

/-- The height of parts that stand side by side: one part alone is no higher for that. -/
def rowHeight : List Nat → Nat
  | [] => 0
  | [height] => height
  | heights => 1 + heights.foldl Nat.max 0

namespace Brackets

/-- What has been read of brackets that are open. -/
structure Level where
  /-- The height of what stands before the last operator, if there is one. -/
  left : Option Nat
  /-- The heights of the members behind it, the last one first. -/
  members : List Nat

/-- The height of what has been read of brackets. -/
def Level.height (l : Level) : Nat :=
  match l.left with
  | none => rowHeight l.members
  | some height => 1 + Nat.max height (rowHeight l.members)

/-- What has been read of brackets and those around them. -/
structure Reading where
  level : Level
  /-- Whether nothing but hyphens has been read of the innermost brackets. -/
  isStart : Bool
  outer : List Level

/-- Adds a member to the innermost brackets. -/
def Reading.add (r : Reading) (height : Nat) : Reading :=
  ⟨{ r.level with members := height :: r.level.members }, false, r.outer⟩

/-- The names of the classes of ASCII characters. -/
def classNames : List String :=
  ["alnum", "alpha", "ascii", "blank", "cntrl", "digit", "graph", "lower", "print", "punct",
   "space", "upper", "word", "xdigit"]

/-- Reads a class of ASCII characters from behind its bracket: whether it is negated. -/
def namedClass? : List Char → Option (Bool × List Char)
  | ':' :: text =>
    let isNegated := text.head? = some '^'
    let text := if isNegated then text.drop 1 else text
    match text.dropWhile (· ≠ ':') with
    | ':' :: ']' :: rest =>
      if classNames.any (·.toList == text.takeWhile (· ≠ ':')) then some (isNegated, rest)
      else none
    | _ => none
  | _ => none

/-- Whether a class of ASCII characters can stand in brackets. -/
def isNamedAllowed (m : Modes) (isNegated : Bool) : Bool :=
  if m.isUnicode then ! m.ignoresCase else ! isNegated

/-- Reads brackets from behind the opening one up to their members. By bytes they cannot be
negated. -/
def opening? (m : Modes) (text : List Char) : Option (List Char) :=
  match m.skip text with
  | '^' :: text => if m.isUnicode then some text else none
  | text => some text

/-- Reads one sign in brackets. -/
def sign? (m : Modes) : List Char → Option (Sign × List Char)
  | [] => none
  | '\\' :: text => Sign.escaped? m text
  | c :: text => some (.literal c false, text)

/-- The character by which a hyphen is told to make a range: the next one that is no blank. A
number sign is passed over like a blank, once, but not the comment that it begins, so that the
comment itself is looked at. -/
def ahead? (m : Modes) (text : List Char) : Option Char :=
  if m.isVerbose then
    match text.dropWhile Text.isBlank with
    | '#' :: comment => (comment.dropWhile Text.isBlank).head?
    | text => text.head?
  else text.head?

/-- Reads a sign or a range of characters. A hyphen ahead of a closing bracket or another hyphen
makes no range and is left to be read. -/
def member? (m : Modes) (text : List Char) : Option (List Char) := do
  let (first, text) ← sign? m text
  guard (first.isMember m)
  match m.skip text with
  | [] => none
  | '-' :: rest =>
    if ahead? m rest = some ']' ∨ ahead? m rest = some '-' then some ('-' :: rest)
    else do
      let (last, rest) ← sign? m (m.skip rest)
      guard (last.isMember m)
      match first, last with
      | .literal c _, .literal d _ => if c ≤ d then some rest else none
      | _, _ => none
  | text => some text

/-- What a step of the reading comes to. -/
inductive Outcome where
  | closed (height : Nat)
  | going (r : Reading)

/-- Reads on by one member, bracket or operator. -/
def step? (m : Modes) (r : Reading) : List Char → Option (Outcome × List Char)
  | [] => none
  | c :: text =>
    if r.isStart && (c == '-' || c == ']' && r.level.members.isEmpty) then
      if m.isUnicode && m.ignoresCase then none
      else some (.going { r.add 0 with isStart := c == '-' }, text)
    else match c, text with
      | '[', _ => match namedClass? text with
        | some (isNegated, text) =>
          if isNamedAllowed m isNegated then some (.going (r.add 0), text) else none
        | none => (opening? m text).map fun text =>
          (.going ⟨⟨none, []⟩, true, r.level :: r.outer⟩, text)
      | ']', _ =>
        let height := 1 + r.level.height
        match r.outer with
        | [] => some (.closed height, text)
        | level :: outer => some (.going (Reading.add ⟨level, false, outer⟩ height), text)
      | '&', '&' :: text | '-', '-' :: text | '~', '~' :: text =>
        some (.going ⟨⟨some r.level.height, []⟩, false, r.outer⟩, text)
      | _, _ => (member? m (c :: text)).map fun text => (.going (r.add 0), text)

/-- Reads on to the bracket that closes the outermost brackets. -/
def read? (m : Modes) (r : Reading) (text : List Char) : Option (Nat × List Char) :=
  match step? m r (m.skip text) with
  | some (.closed height, rest) => some (height, rest)
  | some (.going r, rest) => if rest.length < text.length then read? m r rest else none
  | none => none
termination_by text.length

/-- Reads brackets from behind the opening one: their height. -/
def ofChars? (m : Modes) (text : List Char) : Option (Nat × List Char) :=
  (opening? m text).bind (read? m ⟨⟨none, []⟩, true, []⟩)

end Brackets

end JointSchnorr.Pattern
