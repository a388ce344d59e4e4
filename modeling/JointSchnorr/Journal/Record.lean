import JointSchnorr.Journal.Filter

/-!
# Records

A journal is recorded under the name of a logger and through a filter. A span that passes has a
record at its start and one at its end, an event that passes has one record. An event within
spans that pass is marked with the innermost of them, and records within a span carry its
fields together with those of the spans around it. A span that does not pass is as if it were
not there.
-/

namespace JointSchnorr.Journal

/-- The value of a field. -/
inductive FieldValue where
  | number (n : Nat)
  | text (s : String)
deriving DecidableEq

/-- A record. -/
structure Record where
  logger : String
  level : Level
  target : String
  message : String
  fields : List (String × FieldValue)
deriving DecidableEq

/-- The fields of `inner`, and those of `outer` with other names. -/
def mergeFields (inner outer : List (String × Nat)) : List (String × Nat) :=
  inner ++ outer.filter fun (name, _) => ! inner.any (·.1 == name)

/-- The fields that hold within spans, innermost first. -/
def spanFields (spans : List Span) : List (String × Nat) :=
  spans.foldr (fun s fields => mergeFields s.fields fields) []

/-- Fields of numbers. -/
def numbers (fields : List (String × Nat)) : List (String × FieldValue) :=
  fields.map fun (name, n) => (name, .number n)

/-- The mark of a span on a message. -/
def bracket (s : Span) (what : String) : String :=
  "[" ++ s.title.toUpper ++ " - " ++ what ++ "]"

/-- The record of the start or the end of the first of some spans, which contain one another
from the last to the first. -/
def spanRecord (logger : String) (s : Span) (outer : List Span) (what : String) : Record :=
  ⟨logger, .info, s.area.target, bracket s what, numbers (spanFields (s :: outer))⟩

/-- The record of an event within some spans, innermost first. -/
def eventRecord (logger : String) (spans : List Span) (e : Event) : Record :=
  let message := match spans with
    | [] => e.text
    | s :: _ => bracket s "EVENT" ++ " " ++ e.text
  ⟨logger, e.level, e.area.target, message, numbers (mergeFields e.fields (spanFields spans))⟩

/-- The records of the marks within some spans, innermost first and with `none` for a span that
does not pass. -/
def recordsWithin (logger : String) (f : Filter) : List (Option Span) → List Mark → List Record
  | _, [] => []
  | spans, .enter s :: marks =>
    if f.passesSpan (spans.filterMap id) s then
      spanRecord logger s (spans.filterMap id) "START" ::
        recordsWithin logger f (some s :: spans) marks
    else recordsWithin logger f (none :: spans) marks
  | some s :: spans, .leave :: marks =>
    spanRecord logger s (spans.filterMap id) "END" :: recordsWithin logger f spans marks
  | none :: spans, .leave :: marks => recordsWithin logger f spans marks
  | [], .leave :: marks => recordsWithin logger f [] marks
  | spans, .event e :: marks =>
    if f.passesEvent (spans.filterMap id) e.area.target e.names e.level then
      eventRecord logger (spans.filterMap id) e :: recordsWithin logger f spans marks
    else recordsWithin logger f spans marks

/-- The records of a journal. -/
def records (logger : String) (f : Filter) (marks : List Mark) : List Record :=
  recordsWithin logger f [] marks

end JointSchnorr.Journal
