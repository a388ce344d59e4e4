import JointSchnorr.PublicKey

/-!
# Secret scalars

Private keys and nonces are scalars other than zero, each with its public part, the multiple of
the base point. The public part follows from the scalar: it is computed where it is asked for and
not kept beside the scalar, so secrets with one scalar are one secret, and so is a copy of it. They
are read from 32 bytes by reduction, or drawn from a script of random bytes, 64 at a time: a block
that reduces to zero is passed over, and a script with fewer than 64 bytes left fails.
-/

namespace JointSchnorr

/-- A scalar other than zero. -/
structure Secret where
  scalar : Scalar
  scalar_ne_zero : scalar ≠ 0
deriving DecidableEq

namespace Secret

/-- The multiple of the base point that a secret stands for. -/
def publicPart (k : Secret) : PublicKey := ⟨k.scalar • Point.base⟩

/-- Reads 32 bytes modulo `N`. Another length fails for the value named `what`, and zero fails
with `zero`. -/
def decode (what : Encoded) (zero : Error) (bs : Bytes) : Except Error Secret :=
  if bs.length = 32 then
    let k := Scalar.ofBytes bs
    if h : k = 0 then .error zero else .ok ⟨k, h⟩
  else .error (.malformedInput what)

theorem decode_eq_ok_iff {what : Encoded} {zero : Error} {bs : Bytes} {k : Secret} :
    decode what zero bs = .ok k ↔ bs.length = 32 ∧ Scalar.ofBytes bs = k.scalar := by
  obtain ⟨k, hk⟩ := k
  unfold decode
  split
  · next hl =>
    by_cases h : Scalar.ofBytes bs = 0
    · simp only [h, dif_pos, reduceCtorEq, false_iff, not_and]
      exact fun _ h' => hk h'.symm
    · simp [h, hl]
  · next hl => simp [hl]

/-- Draws a secret from a script of random bytes, with the rest of the script. -/
def draw (script : Bytes) : Except Error (Secret × Bytes) :=
  if 64 ≤ script.length then
    let k := Scalar.ofBytes (script.take 64)
    if h : k = 0 then draw (script.drop 64) else .ok (⟨k, h⟩, script.drop 64)
  else .error .randomness
termination_by script.length
decreasing_by simp; omega

end Secret

/-- A party's signing key. -/
structure PrivateKey where
  secret : Secret
deriving DecidableEq

namespace PrivateKey

/-- The scalar of the key. -/
def scalar (x : PrivateKey) : Scalar := x.secret.scalar

/-- The public key. -/
def publicKey (x : PrivateKey) : PublicKey := x.secret.publicPart

/-- The scalar as 32 bytes. -/
def encode (x : PrivateKey) : Octets 32 := x.scalar.encode

/-- Reads a private key. -/
def decode (bs : Bytes) : Except Error PrivateKey :=
  (Secret.decode .privateKey .invalidKey bs).map PrivateKey.mk

/-- Draws a private key, with the rest of the script. -/
def generate (script : Bytes) : Except Error (PrivateKey × Bytes) :=
  (Secret.draw script).map fun (k, rest) => (⟨k⟩, rest)

end PrivateKey

/-- A secret for one signature. Its public part is the commitment. -/
structure Nonce where
  secret : Secret
deriving DecidableEq

namespace Nonce

/-- The scalar of the nonce. -/
def scalar (k : Nonce) : Scalar := k.secret.scalar

/-- The public nonce. -/
def publicNonce (k : Nonce) : PublicKey := k.secret.publicPart

/-- The scalar as 32 bytes. -/
def encode (k : Nonce) : Octets 32 := k.scalar.encode

/-- Reads a nonce. -/
def decode (bs : Bytes) : Except Error Nonce :=
  (Secret.decode .secretNonce .invalidNonce bs).map Nonce.mk

/-- Draws a nonce, with the rest of the script. -/
def generate (script : Bytes) : Except Error (Nonce × Bytes) :=
  (Secret.draw script).map fun (k, rest) => (⟨k⟩, rest)

end Nonce

end JointSchnorr
