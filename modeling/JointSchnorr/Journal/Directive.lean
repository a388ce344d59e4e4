import JointSchnorr.Journal.Mark
import JointSchnorr.Pattern
import JointSchnorr.Text.Width

/-!
# Directives

A directive sets the least urgent level that passes at the targets that begin with some text.
It may be narrowed to spans with a title, and to what has a field or a value in it. It is
written as `target[title{field=value}]=level`, of which the target, the brackets with what is
in them, and the level can be left out; a level alone is for all targets. Without a level, or
with none behind the equals sign, every level passes.

Levels are written by name, in letters of either case, or by rank; `off`, of rank zero, lets
nothing pass. A value is a number or a pattern.

The parts of a directive are found in its text without the blanks around it, but each is cut
from the text with them, between the same two widths. So blanks behind count only in a part that
goes on to the end, and each blank in front moves every part back by its width.
-/

namespace JointSchnorr.Journal

/-- What a directive asks of a field. -/
inductive FieldTest where
  /-- That the field is there. -/
  | present
  /-- That it holds a number. -/
  | equals (n : Nat)
  /-- That it holds something other than a number, which no field of a span does. -/
  | other
deriving DecidableEq

/-- What a directive is about. -/
structure Scope where
  /-- What a target has to begin with. -/
  opening : List Char
  /-- The title of the span, if one is given. -/
  title : Option (List Char)
  /-- The name of the field, if one is given, and what is asked of it. -/
  field : Option (List Char × FieldTest)
deriving DecidableEq

/-- One directive of a filter. -/
structure Directive where
  scope : Scope
  /-- The rank of the least urgent level that passes, or zero if none does. -/
  depth : Nat
deriving DecidableEq

namespace Directive

/-! ## Levels and fields in writing -/

/-- Reads the rank of a level, or zero for `off`. -/
def depth? (text : List Char) : Option Nat :=
  match Text.number? text with
  | some n => if n ≤ Level.trace.rank then some n else none
  | none =>
    if Text.lower text = "off".toList then some 0
    else (Level.all.find? fun l => l.name.toList == Text.lower text).map Level.rank

/-- Reads what stands behind an equals sign. -/
def depthOrAll? : List Char → Option Nat
  | [] => some Level.trace.rank
  | text => depth? text

/-- Reads a value. A floating number need not be a pattern. -/
def value? (text : List Char) : Option FieldTest :=
  match Text.number? text with
  | some n => some (.equals n)
  | none => if Text.isFloat text || Pattern.isPattern text then some .other else none

/-- Reads the name of a field and the value asked for, which ends before a second equals sign. -/
def fieldTest? (text : List Char) : Option (List Char × FieldTest) :=
  let name := text.takeWhile (· ≠ '=')
  match text.dropWhile (· ≠ '=') with
  | [] => some (name, .present)
  | _ :: value => (value? (value.takeWhile (· ≠ '='))).map (name, ·)

/-! ## Directives in writing -/

/-- A place in the text of a directive. -/
structure Cursor where
  /-- The text with the blanks around it. -/
  whole : List Char
  /-- The width of what has been read of the text without blanks. -/
  read : Nat
  /-- What is to be read of it. -/
  rest : List Char

namespace Cursor

/-- Before the first character that is no blank. -/
def start (text : List Char) : Cursor := ⟨text, 0, Text.trim text⟩

/-- Behind the next character. -/
def next (c : Cursor) : Cursor := ⟨c.whole, c.read + Text.width (c.rest.take 1), c.rest.drop 1⟩

/-- Cuts out the part up to the next of some characters. -/
def part? (c : Cursor) (isStop : Char → Bool) : Option (List Char × Cursor) :=
  let last := c.read + Text.width (c.rest.takeWhile (! isStop ·))
  (Text.slice? c.whole c.read last).map (·, ⟨c.whole, last, c.rest.dropWhile (! isStop ·)⟩)

/-- Cuts out all up to the end, with the blanks there. -/
def remainder? (c : Cursor) : Option (List Char) := Text.dropWidth? c.read c.whole

end Cursor

/-- Reads the level from behind the brackets of a scope. -/
def afterBrackets? (scope : Scope) (c : Cursor) : Option Directive :=
  match c.rest with
  | [] => some ⟨scope, Level.trace.rank⟩
  | '=' :: _ => (c.next.remainder?.bind depthOrAll?).map (⟨scope, ·⟩)
  | _ => none

/-- Reads a directive from behind its opening bracket. Brackets without a field have a title, if
only the empty one, which no span has. -/
def inBrackets? (opening : List Char) (c : Cursor) : Option Directive := do
  let (title, c) ← c.part? fun c => c == ']' || c == '\x7b'
  match c.rest with
  | ']' :: _ => afterBrackets? ⟨opening, some title, none⟩ c.next
  | '\x7b' :: _ => do
    let (field, c) ← c.next.part? (· == '\x7d')
    let test ← fieldTest? field
    match c.rest with
    | '\x7d' :: ']' :: _ =>
      let title := if title = [] then none else some title
      if field = [] then none else afterBrackets? ⟨opening, title, some test⟩ c.next.next
    | _ => none
  | _ => none

/-- Whether a target or a level may begin with a character. -/
def isOpening (c : Char) : Bool := ['-', ':', '_'].contains c || Text.isLetterOrNumeral c

/-- Reads a directive that is a level or a target, with the blanks around it. -/
def ofWord (text : List Char) : Directive :=
  match depth? text with
  | some depth => ⟨⟨[], none, none⟩, depth⟩
  | none => ⟨⟨text, none, none⟩, Level.trace.rank⟩

/-- Reads a directive. -/
def ofChars? (text : List Char) : Option Directive :=
  let c := Cursor.start text
  match c.rest with
  | [] => none
  | '[' :: _ => inBrackets? [] c.next
  | first :: _ =>
    let endsTarget (c : Char) := c == '=' || c == '['
    if ! isOpening first then none
    else if ! c.rest.any endsTarget then some (ofWord text)
    else do
      let (target, c) ← c.part? endsTarget
      if c.rest.head? = some '=' then
        (c.next.remainder?.bind depthOrAll?).map (⟨⟨target, none, none⟩, ·⟩)
      else inBrackets? target c.next

end Directive

end JointSchnorr.Journal
