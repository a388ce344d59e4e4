import JointSchnorr.Error

/-!
# Journals

An operation leaves a journal: a list of marks, in which spans are entered and left and events
happen. Spans are properly nested. A mark belongs to an `Area` of the library, whose target is
the name under which it is recorded.
-/

namespace JointSchnorr

/-- How much a record matters, the most urgent first. -/
inductive Level where
  | error
  | warn
  | info
  | debug
  | trace
deriving DecidableEq

namespace Level

/-- All levels, the most urgent first. -/
def all : List Level := [error, warn, info, debug, trace]

/-- The position of a level from the most urgent one. -/
def rank : Level → Nat
  | error => 1
  | warn => 2
  | info => 3
  | debug => 4
  | trace => 5

/-- The name of a level in a filter. -/
def name : Level → String
  | error => "error"
  | warn => "warn"
  | info => "info"
  | debug => "debug"
  | trace => "trace"

/-- The number of a level in a record. -/
def code : Level → Nat
  | error => 50
  | warn => 40
  | info => 30
  | debug => 20
  | trace => 10

end Level

namespace Journal

/-- The areas of the library that leave marks. -/
inductive Area where
  | keys
  | signing
  | shares
  | signatory
  | aggregator
deriving DecidableEq

/-- The name under which an area is recorded. -/
def Area.target : Area → String
  | keys => "threshold_schnorr::keys_management"
  | signing => "threshold_schnorr::schnorr_single_signature"
  | shares => "threshold_schnorr::schnorr_threshold::threshold_math"
  | signatory => "threshold_schnorr::schnorr_threshold::threshold_protocol::party"
  | aggregator => "threshold_schnorr::schnorr_threshold::threshold_protocol::aggregator"

/-- An operation that takes its time. -/
inductive Span where
  | signFromScalar
  | sign
  | verify
  | partialSign
  | combine (parties : Nat)
  | signatoryShare
  | aggregateKeys (parties : Nat)
  | aggregateNonces (parties : Nat)
  | aggregateShares (parties : Nat)
deriving DecidableEq

namespace Span

/-- The area that a span belongs to. -/
def area : Span → Area
  | signFromScalar | sign | verify => .signing
  | partialSign | combine _ => .shares
  | signatoryShare => .signatory
  | aggregateKeys _ | aggregateNonces _ | aggregateShares _ => .aggregator

/-- What is done in a span. -/
def title : Span → String
  | signFromScalar => "Signing the message with a Schnorr signature"
  | sign => "Signing the message with a fresh nonce"
  | verify => "Verifying the Schnorr signature"
  | partialSign => "Computing a partial Schnorr signature"
  | combine _ => "Combining partial Schnorr signatures"
  | signatoryShare => "Signatory computing its partial signature"
  | aggregateKeys _ => "Aggregating public keys"
  | aggregateNonces _ => "Aggregating public nonces"
  | aggregateShares _ => "Aggregating partial signatures"

/-- The fields of a span. -/
def fields : Span → List (String × Nat)
  | combine n | aggregateKeys n | aggregateNonces n | aggregateShares n => [("parties", n)]
  | _ => []

end Span

/-- Something worth a record. -/
inductive Event where
  /-- An encoded secret reduces to zero. -/
  | zeroSecret (what : Encoded)
  /-- A random block reduces to zero. -/
  | zeroDraw
  /-- The commitment of a signature to verify is no point, or of small order. -/
  | invalidCommitment
  /-- The share at this index has another commitment than the first. -/
  | foreignCommitment (index : Nat)
  /-- The commitment of all shares is no point, or of small order. -/
  | invalidCommonCommitment
  /-- The share at this index does not match its party. -/
  | invalidShare (index : Nat)
deriving DecidableEq

namespace Event

/-- The area that an event belongs to. -/
def area : Event → Area
  | zeroSecret _ | zeroDraw => .keys
  | invalidCommitment => .signing
  | foreignCommitment _ | invalidCommonCommitment => .shares
  | invalidShare _ => .aggregator

/-- The level of an event: what a party is to blame for is a warning. -/
def level : Event → Level
  | zeroSecret _ | zeroDraw | invalidCommitment => .debug
  | foreignCommitment _ | invalidCommonCommitment | invalidShare _ => .warn

/-- The text of an event. -/
def text : Event → String
  | zeroSecret what => "rejecting " ++ what.name ++ " that reduces to zero"
  | zeroDraw => "sampled a zero scalar, drawing again"
  | invalidCommitment => "commitment R is not a valid point"
  | foreignCommitment _ => "partial signature commits to a different R"
  | invalidCommonCommitment => "partial signatures commit to an invalid R"
  | invalidShare _ => "rejecting invalid partial signature"

/-- The fields of an event. -/
def fields : Event → List (String × Nat)
  | foreignCommitment i | invalidShare i => [("index", i)]
  | _ => []

/-- The names under which a filter knows what an event carries: its text and its fields. -/
def names (e : Event) : List String := "message" :: e.fields.map Prod.fst

end Event

/-- An entry of a journal. -/
inductive Mark where
  | enter (s : Span)
  | leave
  | event (e : Event)
deriving DecidableEq

/-- What happens within a span, with the marks of the span around it. -/
def within (s : Span) (marks : List Mark) : List Mark := .enter s :: marks ++ [.leave]

end Journal

end JointSchnorr
