import JointSchnorr.Error
import JointSchnorr.Point.Encoding

/-!
# Public keys and public nonces

A public key is a point, and so is a public nonce, the commitment to a nonce. The functions
that build one refuse points of small order. Aggregation adds up a list and judges the total
only, whatever the partial sums are.
-/

namespace JointSchnorr

/-- A point used as a public key or as a public nonce. -/
structure PublicKey where
  point : Point
deriving DecidableEq

namespace PublicKey

/-- A point that is not of small order as a public key. -/
def ofPoint (P : Point) : Except Error PublicKey :=
  if P.IsSmallOrder then .error .invalidKey else .ok ⟨P⟩

theorem ofPoint_eq_ok_iff {P : Point} {X : PublicKey} :
    ofPoint P = .ok X ↔ X.point = P ∧ ¬ P.IsSmallOrder := by
  cases X
  unfold ofPoint
  split <;> simp_all [eq_comm]

theorem ofPoint_eq_error_iff {P : Point} {e : Error} :
    ofPoint P = .error e ↔ e = .invalidKey ∧ P.IsSmallOrder := by
  unfold ofPoint
  split <;> simp_all [eq_comm]

/-- Reads the encoding of a point that is not of small order. -/
def decode (bs : Bytes) : Except Error PublicKey :=
  match (Octets.ofList? 32 bs).bind Point.decode? with
  | none => .error (.malformedInput .publicKey)
  | some P => ofPoint P

/-- The canonical encoding. -/
def encode (X : PublicKey) : Octets 32 := X.point.encode

/-- The sum of two public keys. -/
def add (X Y : PublicKey) : Except Error PublicKey := ofPoint (X.point + Y.point)

/-- The sum of a list of public keys. -/
def aggregate : List PublicKey → Except Error PublicKey
  | [] => .error .emptyInput
  | X :: Xs => ofPoint ((X :: Xs).map point).sum

/-- The sum of a list of public nonces. -/
def aggregateNonces (Rs : List PublicKey) : Except Error PublicKey :=
  match aggregate Rs with
  | .error .invalidKey => .error .invalidNonce
  | result => result

end PublicKey

end JointSchnorr
