import JointSchnorr.Bytes

/-!
# Scalars

Scalars are integers modulo the order `N` of the base point. They are written as 32 bytes,
little-endian, and read from byte strings of any length by reduction. `isCanonical` is the
test that a 32-byte string writes a number below `N`; it compares with the order's own bytes
from the most significant one.
-/

namespace JointSchnorr

/-- The order of the base point. -/
def N : Nat := (1 <<< 252) + 27742317777372353535851937790883648493

theorem N_pos : 0 < N := by decide

instance : @NeZero Nat (@Zero.ofOfNat0 Nat (instOfNatNat 0)) N := ⟨Nat.ne_of_gt N_pos⟩

/-- An integer modulo `N`. -/
abbrev Scalar := Fin N

namespace Scalar

/-- The number that a byte string writes, modulo `N`. -/
def ofBytes (bs : Bytes) : Scalar := Fin.ofNat N bs.value

/-- The 32-byte form. -/
def encode (k : Scalar) : Octets 32 := Octets.ofNat 32 k.val

/-- The sum of a list of scalars. -/
def sum (ks : List Scalar) : Scalar := ks.foldr (· + ·) 0

/-- The order as 32 bytes. -/
def orderOctets : Octets 32 := Octets.ofNat 32 N

/-- Whether the first of two byte strings of one length comes before the second, most
significant byte first. -/
def comesBefore : Bytes → Bytes → Bool
  | a :: as, b :: bs => if a = b then comesBefore as bs else a < b
  | _, _ => false

/-- Whether 32 bytes write a number below `N`. -/
def isCanonical (o : Octets 32) : Bool :=
  comesBefore o.toList.reverse orderOctets.toList.reverse

end Scalar

end JointSchnorr
