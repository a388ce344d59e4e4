import Mathlib
import JointSchnorr.Proofs.Curve.Group

/-!
# Multiples of the base point

On a point of which `N` copies cancel out, scalars act as integers modulo `N`: sums, differences and
products of scalars become sums, differences and multiples of points (`add_smul`, `sub_smul`,
`mul_smul`). The base point has the prime order `N` (`addOrderOf_base`), so that this holds of it
(`add_smul_base`, `mul_smul_base`) and different scalars give different points (`smul_base_inj`). As
eight is prime to `N`, no multiple but zero is of small order (`isSmallOrder_smul_base_iff`). On any
point a scalar acts as an integer, whatever the order of the point (`smul_add`, `smul_sum`).
-/

namespace JointSchnorr.Point

theorem N_nsmul_base : N • base = 0 := by decide +kernel

theorem addOrderOf_base : addOrderOf base = N :=
  addOrderOf_eq_prime N_nsmul_base (by decide +kernel)

theorem nsmul_base_inj {a b : Nat} : a • base = b • base ↔ a % N = b % N := by
  rw [nsmul_eq_nsmul_iff_modEq, addOrderOf_base]
  rfl

section Killed

variable {P : Point} (h : N • P = 0) (a b : Scalar)

include h

theorem mod_nsmul (n : Nat) : (n % N) • P = n • P := by
  rw [nsmul_eq_nsmul_iff_modEq]
  exact (Nat.mod_modEq n N).of_dvd (addOrderOf_dvd_of_nsmul_eq_zero h)

theorem add_smul : (a + b) • P = a • P + b • P := by
  rw [scalar_smul, scalar_smul, scalar_smul, ← add_nsmul, Fin.val_add, mod_nsmul h]

theorem mul_smul : (a * b) • P = a • b • P := by
  rw [scalar_smul, scalar_smul, scalar_smul, ← mul_nsmul', Fin.val_mul, mod_nsmul h]

theorem sub_smul : (a - b) • P = a • P - b • P := by
  rw [eq_sub_iff_add_eq, ← add_smul h, sub_add_cancel]

end Killed

section Scalars

variable (a b : Scalar) (P Q : Point)

theorem ofNat_smul_base (n : Nat) : Fin.ofNat N n • base = n • base :=
  nsmul_base_inj.2 (Nat.mod_mod n N)

theorem add_smul_base : (a + b) • base = a • base + b • base := add_smul N_nsmul_base a b

theorem mul_smul_base : (a * b) • base = a • b • base := mul_smul N_nsmul_base a b

theorem zero_smul : (0 : Scalar) • P = 0 := zero_nsmul P

theorem one_smul : (1 : Scalar) • P = P := one_nsmul P

theorem smul_zero : a • (0 : Point) = 0 := by
  rw [scalar_smul]
  exact nsmul_zero a.val

theorem N_nsmul_smul_base : N • a • base = 0 := by
  rw [scalar_smul, nsmul_left_comm, N_nsmul_base, nsmul_zero]

theorem smul_add : a • (P + Q) = a • P + a • Q := nsmul_add P Q a.val

theorem smul_sub : a • (P - Q) = a • P - a • Q := nsmul_sub P Q a.val

theorem sum_smul_base (ks : List Scalar) : Scalar.sum ks • base = (ks.map (· • base)).sum := by
  induction ks with
  | nil => exact zero_smul base
  | cons k ks ih =>
    rw [List.map_cons, List.sum_cons, ← ih, ← add_smul_base]
    rfl

variable {a b P}

theorem smul_base_inj : a • base = b • base ↔ a = b := by
  rw [scalar_smul, scalar_smul, nsmul_base_inj, Nat.mod_eq_of_lt a.isLt, Nat.mod_eq_of_lt b.isLt,
    Fin.ext_iff]

theorem isSmallOrder_smul_base_iff : (a • base).IsSmallOrder ↔ a = 0 := by
  constructor
  · intro h
    have hdvd := addOrderOf_dvd_of_nsmul_eq_zero ((mul_nsmul base a.val 8).trans h)
    rw [addOrderOf_base] at hdvd
    have hN := Nat.Coprime.dvd_of_dvd_mul_right (by decide) hdvd
    exact Fin.ext (Nat.eq_zero_of_dvd_of_lt hN a.isLt)
  · rintro rfl
    show 8 • ((0 : Scalar) • base) = 0
    rw [zero_smul, nsmul_zero]

end Scalars

end JointSchnorr.Point
