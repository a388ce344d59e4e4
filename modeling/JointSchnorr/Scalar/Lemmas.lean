import Mathlib
import JointSchnorr.Bytes.Lemmas
import JointSchnorr.Scalar

/-!
# Encodings of scalars

A scalar is read back from its 32 bytes (`ofBytes_encode`).
-/

namespace JointSchnorr

theorem N_eq : N = 2 ^ 252 + 27742317777372353535851937790883648493 := by decide

namespace Scalar

theorem ofBytes_encode (k : Scalar) : ofBytes k.encode.toList = k := by
  apply Fin.ext
  have hk : k.val < 256 ^ 32 := Nat.lt_trans k.isLt (by decide)
  show (Octets.ofNat 32 k.val).value % N = k.val
  rw [Octets.value_ofNat hk, Nat.mod_eq_of_lt k.isLt]

end Scalar

end JointSchnorr
