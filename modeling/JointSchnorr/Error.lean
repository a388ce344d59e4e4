/-!
# Causes of failure

An operation of the library fails for one of the causes listed in `Error`; `Error.message` is
its text. What could not be decoded is named by an `Encoded`.
-/

namespace JointSchnorr

/-- The values that an operation decodes from bytes. -/
inductive Encoded where
  | privateKey
  | secretNonce
  | publicKey
  | aggregateKey
  | aggregateNonce
  | commitment
deriving DecidableEq

/-- The name of an encoded value. -/
def Encoded.name : Encoded → String
  | privateKey => "private key"
  | secretNonce => "secret nonce"
  | publicKey => "public key"
  | aggregateKey => "aggregate public key"
  | aggregateNonce => "aggregate public nonce"
  | commitment => "commitment"

/-- Why an operation fails. -/
inductive Error where
  /-- A private key is zero, or a public key is of small order. -/
  | invalidKey
  /-- A secret nonce is zero, or a public nonce is of small order. -/
  | invalidNonce
  /-- Bytes do not encode a value of the kind asked for. -/
  | malformedInput (what : Encoded)
  /-- Bytes do not encode a signature. -/
  | malformedSignature
  /-- A list that must have an element has none. -/
  | emptyInput
  /-- The signature at this index has another commitment than the first one. -/
  | inconsistentCommitment (index : Nat)
  /-- The random source has no further block. -/
  | randomness
  /-- A session without parties was asked for. -/
  | partyCount
  /-- A round was given another number of items than there are parties. -/
  | mismatchedCount (expected got : Nat)
  /-- The share at this index does not match its party's key and nonce. -/
  | invalidPartialSignature (index : Nat)
  /-- The combined signature does not verify. -/
  | invalidSignature
deriving DecidableEq

/-- The text of a failure. -/
def Error.message : Error → String
  | invalidKey => "invalid key: zero scalar or small-order point"
  | invalidNonce => "invalid nonce: zero scalar or small-order point"
  | malformedInput what => "malformed input: cannot decode " ++ what.name
  | malformedSignature => "malformed signature"
  | emptyInput => "empty input: at least one element is required"
  | inconsistentCommitment i =>
    "partial signature " ++ toString i ++ " carries a different commitment R"
  | randomness => "randomness source failed: script exhausted"
  | partyCount => "parties quantity cannot be 0"
  | mismatchedCount expected got =>
    "mismatched quantities: expected " ++ toString expected ++ ", got " ++ toString got
  | invalidPartialSignature i => "partial signature " ++ toString i ++ " is invalid"
  | invalidSignature => "aggregated signature does not verify"

end JointSchnorr
