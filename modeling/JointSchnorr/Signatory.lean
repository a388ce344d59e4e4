import JointSchnorr.Share

/-!
# Signatories

A signatory is one party of a session. It publishes its public key, then a fresh public nonce
under the aggregate key, then its share under the aggregate nonce, and last accepts the joint
signature. Each stage is a type of its own, and each step leads from one stage to the next, so
that a nonce serves one share. `Signatory` is a signatory at any of its stages.
-/

namespace JointSchnorr

namespace Signatory

/-- The public key is published. -/
structure AwaitingKey where
  key : PrivateKey
  message : Bytes
deriving DecidableEq

/-- The public nonce is published. -/
structure AwaitingNonce where
  key : PrivateKey
  message : Bytes
  aggregateKey : PublicKey
  nonce : Nonce
deriving DecidableEq

/-- The share is published, and the nonce is gone. -/
structure AwaitingSignature where
  key : PrivateKey
  message : Bytes
  aggregateKey : PublicKey
  aggregateNonce : PublicKey
deriving DecidableEq

/-- The joint signature is accepted. -/
structure Finalized where
  key : PrivateKey
  message : Bytes
  aggregateKey : PublicKey
  signature : Signature
deriving DecidableEq

/-- A signatory with a private key drawn from the script, with the rest of the script. -/
def generate (message script : Bytes) : Except Error (AwaitingKey × Bytes) :=
  (PrivateKey.generate script).map fun (key, rest) => (⟨key, message⟩, rest)

/-- Draws the nonce, with the rest of the script. -/
def AwaitingKey.generateNonce (p : AwaitingKey) (aggregateKey : PublicKey) (script : Bytes) :
    Except Error (AwaitingNonce × Bytes) :=
  (Nonce.generate script).map fun (nonce, rest) =>
    (⟨p.key, p.message, aggregateKey, nonce⟩, rest)

/-- The context that a signatory signs under. -/
def AwaitingNonce.context (p : AwaitingNonce) (aggregateNonce : PublicKey) : Context :=
  ⟨p.aggregateKey, aggregateNonce, p.message⟩

/-- Computes the share. -/
def AwaitingNonce.partialSign (p : AwaitingNonce) (aggregateNonce : PublicKey) :
    AwaitingSignature × Signature :=
  (⟨p.key, p.message, p.aggregateKey, aggregateNonce⟩,
    (p.context aggregateNonce).share p.key p.nonce)

/-- Accepts a signature that carries the aggregate nonce and verifies under the aggregate
key. -/
def AwaitingSignature.accept (p : AwaitingSignature) (σ : Signature) : Except Error Finalized :=
  if σ.r = p.aggregateNonce.encode ∧ p.aggregateKey.verify p.message σ then
    .ok ⟨p.key, p.message, p.aggregateKey, σ⟩
  else .error .invalidSignature

end Signatory

/-- A signatory at one of its stages. -/
inductive Signatory where
  | awaitingKey (p : Signatory.AwaitingKey)
  | awaitingNonce (p : Signatory.AwaitingNonce)
  | awaitingSignature (p : Signatory.AwaitingSignature)
  | finalized (p : Signatory.Finalized)
deriving DecidableEq

namespace Signatory

/-- The private key, fixed at creation. -/
def key : Signatory → PrivateKey
  | awaitingKey p => p.key
  | awaitingNonce p => p.key
  | awaitingSignature p => p.key
  | finalized p => p.key

/-- The message, fixed at creation. -/
def message : Signatory → Bytes
  | awaitingKey p => p.message
  | awaitingNonce p => p.message
  | awaitingSignature p => p.message
  | finalized p => p.message

/-- The name of the stage. -/
def stage : Signatory → String
  | awaitingKey _ => "AwaitingAggregatedPublicKey"
  | awaitingNonce _ => "AwaitingAggregatedNonce"
  | awaitingSignature _ => "AwaitingAggregatedSignature"
  | finalized _ => "SignatoryFinalized"

end Signatory

end JointSchnorr
