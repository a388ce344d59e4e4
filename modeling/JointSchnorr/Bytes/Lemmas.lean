import Mathlib
import JointSchnorr.Bytes

/-!
# Values of byte strings

The value of `n` bytes is below `256 ^ n`, and writing a number with `n` bytes keeps it modulo
that power (`value_digits`).
-/

namespace JointSchnorr

namespace Bytes

theorem value_lt (bs : Bytes) : value bs < 256 ^ bs.length := by
  induction bs with
  | nil => simp [value]
  | cons b bs ih =>
    have := b.toNat_lt
    simp only [value, List.length_cons, Nat.pow_succ]
    omega

theorem value_digits (n v : Nat) : value (digits n v) = v % 256 ^ n := by
  induction n generalizing v with
  | zero => simp [digits, value, Nat.mod_one]
  | succ n ih =>
    rw [digits, value, ih, Nat.pow_succ, Nat.mul_comm (256 ^ n), Nat.mod_mul]
    simp

theorem value_digits_of_lt {n v : Nat} (h : v < 256 ^ n) : value (digits n v) = v := by
  rw [value_digits, Nat.mod_eq_of_lt h]

end Bytes

namespace Octets

variable {n : Nat}

theorem value_lt (o : Octets n) : o.value < 256 ^ n := by
  have := Bytes.value_lt o.toList
  rwa [o.length_toList] at this

theorem value_ofNat {v : Nat} (h : v < 256 ^ n) : (ofNat n v).value = v :=
  Bytes.value_digits_of_lt h

end Octets

end JointSchnorr
