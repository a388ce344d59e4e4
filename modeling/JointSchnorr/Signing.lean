import JointSchnorr.Secret
import JointSchnorr.Sha512
import JointSchnorr.Signature

/-!
# Signing and verifying

A signature on a message `m` under the key `x` with the nonce `k` is `(R, k + e x)`, where `R`
encodes `k B` and the challenge `e` is the hash of `R`, of the encoded public key and of `m`,
modulo `N`. It verifies when its commitment is a point `R` that is not of small order and the
encodings of `s B` and of `R + e X` are the same. The commitment is hashed as the bytes it came in.
-/

namespace JointSchnorr

/-- The byte string that the challenge hashes. -/
def challengeInput (r x : Octets 32) (m : Bytes) : Bytes := r.toList ++ x.toList ++ m

/-- The challenge for a commitment, an encoded public key and a message. -/
def challenge (r x : Octets 32) (m : Bytes) : Scalar :=
  Scalar.ofBytes (Sha512.hash (challengeInput r x m)).toList

namespace PrivateKey

/-- Signs with a given nonce. -/
def signWith (x : PrivateKey) (k : Nonce) (m : Bytes) : Signature :=
  let r := k.publicNonce.encode
  ⟨r, k.scalar + challenge r x.publicKey.encode m * x.scalar⟩

/-- Signs with the nonce that 32 bytes encode. -/
def signFromScalar (x : PrivateKey) (nonce m : Bytes) : Except Error Signature :=
  (Nonce.decode nonce).map fun k => x.signWith k m

/-- Signs with a nonce drawn from the script, with the rest of the script. -/
def sign (x : PrivateKey) (m script : Bytes) : Except Error (Signature × Bytes) :=
  (Nonce.generate script).map fun (k, rest) => (x.signWith k m, rest)

end PrivateKey

namespace PublicKey

/-- Whether a signature on a message is valid under a public key. -/
def verify (X : PublicKey) (m : Bytes) (σ : Signature) : Bool :=
  match Point.decodeLarge? σ.r with
  | none => false
  | some R =>
    (σ.s • Point.base).encode = (R + challenge σ.r X.encode m • X.point).encode

/-- `verify` on encodings; what cannot be decoded is no valid signature. -/
def verifyBytes (key m signature : Bytes) : Bool :=
  match decode key, Signature.decode signature with
  | .ok X, .ok σ => X.verify m σ
  | _, _ => false

end PublicKey

end JointSchnorr
