import JointSchnorr.Signing

/-!
# Shares of a joint signature

The parties of a session share a `Context`: the sums of their public keys and of their public
nonces, and the message. A party's share is a signature whose commitment is the aggregate nonce
and whose response uses the context's challenge with the party's own key and nonce. A share is
checked against the party's public values alone, and shares with one commitment combine to a
signature by adding up their responses.
-/

namespace JointSchnorr

/-- What all parties of a session sign under. -/
structure Context where
  key : PublicKey
  nonce : PublicKey
  message : Bytes
deriving DecidableEq

namespace Context

/-- The challenge of the session. -/
def challenge (c : Context) : Scalar :=
  JointSchnorr.challenge c.nonce.encode c.key.encode c.message

/-- The share of the party with key `x` and nonce `k`. -/
def share (c : Context) (x : PrivateKey) (k : Nonce) : Signature :=
  ⟨c.nonce.encode, k.scalar + c.challenge * x.scalar⟩

/-- Whether a share matches its party's public key and public nonce. -/
def accepts (c : Context) (X R : PublicKey) (σ : Signature) : Bool :=
  σ.r = c.nonce.encode ∧ σ.s • Point.base = R.point + c.challenge • X.point

end Context

/-- Reads an aggregate; every fault is laid to the aggregate itself. -/
def decodeAggregate (what : Encoded) (bs : Bytes) : Except Error PublicKey :=
  (PublicKey.decode bs).mapError fun _ => .malformedInput what

/-- The share for encoded secrets and aggregates, which are read in the order given. -/
def partialSign (m privateKey aggregateKey nonce aggregateNonce : Bytes) :
    Except Error Signature := do
  let x ← PrivateKey.decode privateKey
  let X ← decodeAggregate .aggregateKey aggregateKey
  let k ← Nonce.decode nonce
  let R ← decodeAggregate .aggregateNonce aggregateNonce
  return Context.share ⟨X, R, m⟩ x k

namespace Signature

/-- Combines shares. They must agree on the commitment, and it must be a point that is not of
small order. -/
def combine : List Signature → Except Error Signature
  | [] => .error .emptyInput
  | σ :: σs =>
    match (σ :: σs).findIdx? (fun τ => τ.r ≠ σ.r) with
    | some i => .error (.inconsistentCommitment i)
    | none =>
      if (Point.decodeLarge? σ.r).isSome then
        .ok ⟨σ.r, Scalar.sum ((σ :: σs).map (·.s))⟩
      else .error (.malformedInput .commitment)

end Signature

end JointSchnorr
