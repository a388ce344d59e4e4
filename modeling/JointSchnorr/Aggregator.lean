import JointSchnorr.Share

/-!
# The aggregator

The aggregator runs a session for a fixed number of parties. It sums their public keys, then
their public nonces, then checks each share against the key and nonce of the same position and
combines the shares to the joint signature. Each stage is a type of its own; a round checks the
count of its items first. `Aggregator` is an aggregator at any of its stages.
-/

namespace JointSchnorr

namespace Aggregator

/-- No round has run. -/
structure AwaitingKeys where
  parties : Nat
  message : Bytes
deriving DecidableEq

/-- The public keys are summed. -/
structure AwaitingNonces where
  parties : Nat
  message : Bytes
  keys : List PublicKey
  aggregateKey : PublicKey
deriving DecidableEq

/-- The public nonces are summed. -/
structure AwaitingShares where
  parties : Nat
  message : Bytes
  keys : List PublicKey
  aggregateKey : PublicKey
  nonces : List PublicKey
  aggregateNonce : PublicKey
deriving DecidableEq

/-- The shares are combined. -/
structure Finalized where
  parties : Nat
  message : Bytes
  aggregateKey : PublicKey
  signature : Signature
deriving DecidableEq

/-- An aggregator for at least one party. -/
def start (parties : Nat) (message : Bytes) : Except Error AwaitingKeys :=
  if parties = 0 then .error .partyCount else .ok ⟨parties, message⟩

/-- A round takes as many items as there are parties. -/
def expectCount (parties count : Nat) : Except Error Unit :=
  if count = parties then .ok () else .error (.mismatchedCount parties count)

/-- The first round: sums the public keys. -/
def AwaitingKeys.aggregateKeys (a : AwaitingKeys) (keys : List PublicKey) :
    Except Error AwaitingNonces := do
  expectCount a.parties keys.length
  let aggregateKey ← PublicKey.aggregate keys
  return ⟨a.parties, a.message, keys, aggregateKey⟩

/-- The second round: sums the public nonces. -/
def AwaitingNonces.aggregateNonces (a : AwaitingNonces) (nonces : List PublicKey) :
    Except Error AwaitingShares := do
  expectCount a.parties nonces.length
  let aggregateNonce ← PublicKey.aggregateNonces nonces
  return ⟨a.parties, a.message, a.keys, a.aggregateKey, nonces, aggregateNonce⟩

namespace AwaitingShares

/-- The context that the parties sign under. -/
def context (a : AwaitingShares) : Context := ⟨a.aggregateKey, a.aggregateNonce, a.message⟩

/-- How a walk through the shares ends. -/
inductive WalkEnd where
  | passed
  /-- The share at this position is not accepted. -/
  | refused (i : Nat)
  /-- There is no key or no nonce at this position. -/
  | outOfRange (i : Nat)
deriving DecidableEq

/-- Walks through the shares from a position on and looks up the key and the nonce of each. -/
def walk (a : AwaitingShares) (i : Nat) : List Signature → WalkEnd
  | [] => .passed
  | σ :: σs => match a.keys[i]?, a.nonces[i]? with
    | some X, some R => if a.context.accepts X R σ then a.walk (i + 1) σs else .refused i
    | _, _ => .outOfRange i

/-- The third round: checks the shares in order and combines them. The rounds before have kept a key
and a nonce for each party, so there is one to be looked up for each share; a share without them
would count as invalid. -/
def aggregateSignatures (a : AwaitingShares) (shares : List Signature) :
    Except Error Finalized := do
  expectCount a.parties shares.length
  match a.walk 0 shares with
  | .passed =>
    let signature ← Signature.combine shares
    return ⟨a.parties, a.message, a.aggregateKey, signature⟩
  | .refused i | .outOfRange i => .error (.invalidPartialSignature i)

end AwaitingShares

/-- Whether the joint signature verifies under the aggregate key. -/
def Finalized.verify (a : Finalized) : Bool := a.aggregateKey.verify a.message a.signature

end Aggregator

/-- An aggregator at one of its stages. -/
inductive Aggregator where
  | awaitingKeys (a : Aggregator.AwaitingKeys)
  | awaitingNonces (a : Aggregator.AwaitingNonces)
  | awaitingShares (a : Aggregator.AwaitingShares)
  | finalized (a : Aggregator.Finalized)
deriving DecidableEq

namespace Aggregator

/-- The number of parties. -/
def parties : Aggregator → Nat
  | awaitingKeys a => a.parties
  | awaitingNonces a => a.parties
  | awaitingShares a => a.parties
  | finalized a => a.parties

/-- The message to sign. -/
def message : Aggregator → Bytes
  | awaitingKeys a => a.message
  | awaitingNonces a => a.message
  | awaitingShares a => a.message
  | finalized a => a.message

/-- The name of the stage. -/
def stage : Aggregator → String
  | awaitingKeys _ => "AwaitingPublicKeys"
  | awaitingNonces _ => "AwaitingPublicNonces"
  | awaitingShares _ => "AwaitingPartialSignatures"
  | finalized _ => "AggregationFinalized"

end Aggregator

end JointSchnorr
