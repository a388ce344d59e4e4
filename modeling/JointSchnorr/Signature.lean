import JointSchnorr.Error
import JointSchnorr.Point.Encoding

/-!
# Signatures

A signature is a commitment, kept as the 32 bytes it came in, and a response scalar. It is
written as these 32 bytes followed by the scalar. Reading takes exactly 64 bytes whose first
half encodes a point, of small order or not, and whose second half is a number below `N`.
-/

namespace JointSchnorr

/-- A signature, or one party's share of it. -/
structure Signature where
  /-- The bytes of the commitment. -/
  r : Octets 32
  /-- The response. -/
  s : Scalar
deriving DecidableEq

namespace Signature

/-- The 64-byte form. -/
def encode (σ : Signature) : Octets 64 :=
  ⟨σ.r.toList ++ σ.s.encode.toList, by simp [σ.r.length_toList, σ.s.encode.length_toList]⟩

/-- Reads the 64-byte form. -/
def decode (bs : Bytes) : Except Error Signature :=
  match Octets.ofList? 32 (bs.take 32), Octets.ofList? 32 (bs.drop 32) with
  | some r, some s =>
    if (Point.decode? r).isSome ∧ Scalar.isCanonical s then .ok ⟨r, Scalar.ofBytes s.toList⟩
    else .error .malformedSignature
  | _, _ => .error .malformedSignature

/-- The text of a signature: its bytes in hexadecimal. -/
def text (σ : Signature) : String := σ.encode.toList.hex

/-- The signature with `t` added to its response. -/
def shift (σ : Signature) (t : Scalar) : Signature := ⟨σ.r, σ.s + t⟩

end Signature

end JointSchnorr
