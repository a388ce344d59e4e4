import JointSchnorr.Journal.Directive

/-!
# Filters

A filter is a list of directives, which let spans and events pass in two ways.

Taken alone, a span or an event is judged by the plain directives, those without a title and
without a value. Of the ones that apply to it the most specific decides: one with a longer
opening, then one with a field, which an event has to carry. Where none applies it does not
pass.

The narrow directives, those with a title or a field, hold for spans. A span that one of them
may hold for passes, and within a span that one of them does hold for everything passes down to
its level.

No span passes that is less urgent than all levels of the filter, unless a directive asks for a
value.
-/

namespace JointSchnorr.Journal

namespace Scope

/-- Whether a scope begins a target. -/
def opens (scope : Scope) (target : String) : Bool := scope.opening.isPrefixOf target.toList

/-- Whether a scope has a title or a field. -/
def isNarrow (scope : Scope) : Bool := scope.title.isSome || scope.field.isSome

/-- Whether a scope asks for a value. -/
def hasValue (scope : Scope) : Bool :=
  match scope.field with
  | none | some (_, .present) => false
  | some (_, _) => true

/-- Whether a scope has neither a title nor a value. -/
def isPlain (scope : Scope) : Bool := scope.title.isNone && ! scope.hasValue

/-- Whether a scope may hold for a span, whatever the values of its fields. -/
def mayHold (scope : Scope) (s : Span) : Bool :=
  scope.opens s.area.target &&
    (scope.title.all (· == s.title.toList)) &&
    (scope.field.all fun (name, _) => s.fields.any (·.1.toList == name))

/-- Whether a scope holds for a span. -/
def holds (scope : Scope) (s : Span) : Bool :=
  scope.mayHold s && match scope.field with
    | some (name, .equals n) => s.fields.any fun (field, m) => field.toList == name && m == n
    | some (_, .other) => false
    | _ => true

/-- The name of the field, empty where there is none. -/
def fieldName (scope : Scope) : List Char :=
  match scope.field with
  | some (name, _) => name
  | none => []

/-- Whether a plain scope is less specific than another one that opens the same target. -/
def isVaguer (scope other : Scope) : Bool :=
  if scope.opening.length ≠ other.opening.length then
    scope.opening.length < other.opening.length
  else if scope.field.isSome ≠ other.field.isSome then other.field.isSome
  else compare (String.ofList scope.fieldName) (String.ofList other.fieldName) == .lt

end Scope

/-- A list of directives; of two with one scope the later holds. -/
abbrev Filter := List Directive

namespace Filter

/-- The parts of a text between commas. -/
def parts : List Char → List (List Char)
  | [] => [[]]
  | c :: cs => match parts cs with
    | [] => [[c]]
    | part :: rest => if c = ',' then [] :: part :: rest else (c :: part) :: rest

/-- Reads a filter; a part that is no directive is left out. -/
def ofString (text : String) : Filter := (parts text.toList).filterMap Directive.ofChars?

/-- Whether a level is as urgent as one of the filter's, or a directive asks for a value. -/
def reaches (f : Filter) (level : Level) : Bool :=
  f.any fun d => d.scope.hasValue || level.rank ≤ d.depth

/-- The most specific plain directive of those that apply, and the last of equals. -/
def deciding? (applies : Scope → Bool) : Filter → Option Directive
  | [] => none
  | d :: f =>
    let isFit := d.scope.isPlain && applies d.scope
    match deciding? applies f with
    | none => if isFit then some d else none
    | some best => if isFit && best.scope.isVaguer d.scope then some d else some best

/-- Whether a level passes where the plain directives of some scopes apply. -/
def passesAlone (f : Filter) (applies : Scope → Bool) (level : Level) : Bool :=
  match f.deciding? applies with
  | some d => level.rank ≤ d.depth
  | none => false

/-- The narrow directives, the last of each scope. -/
def narrow : Filter → List Directive
  | [] => []
  | d :: f =>
    if d.scope.isNarrow && ! f.any (·.scope = d.scope) then d :: narrow f else narrow f

/-- Whether a level passes within some spans. -/
def passesWithin (f : Filter) (spans : List Span) (level : Level) : Bool :=
  spans.any fun s => f.narrow.any fun d => d.scope.holds s && level.rank ≤ d.depth

/-- Whether a span passes within some others. -/
def passesSpan (f : Filter) (spans : List Span) (s : Span) : Bool :=
  (f.reaches .info && f.any fun d => d.scope.isNarrow && d.scope.mayHold s) ||
    f.passesWithin spans .info ||
    f.passesAlone (·.opens s.area.target) .info

/-- Whether an event with fields of some names passes within some spans. -/
def passesEvent (f : Filter) (spans : List Span) (target : String) (names : List String)
    (level : Level) : Bool :=
  let applies (scope : Scope) :=
    scope.opens target && scope.field.all fun (name, _) => names.any (·.toList == name)
  f.passesWithin spans level || f.passesAlone applies level

end Filter

end JointSchnorr.Journal
