import Mathlib
import JointSchnorr.Proofs.Curve.Law
import JointSchnorr.Proofs.Curve.Prime

/-!
# Coordinates as a field

The ring of coordinates is a field whose inverse is `Fe.inv` (`inv_eq`), because `p` is prime and
`Fe.pow` is the power. The coefficient `d` and the field meet what the addition law needs
(`complete_d`). Square roots are found where there are any: `evenRoot?` of the square of `x` is the
even one of `x` and `-x` (`evenRoot?_mul_self`).
-/

namespace JointSchnorr.Fe

open Fin.CommRing in
theorem pow_eq (a : Fe) (n : Nat) : pow a n = a ^ n := ladder_eq_pow a n

theorem mul_inv {a : Fe} (h : a ≠ 0) : a * inv a = 1 := mul_ladder_eq_one h

theorem inv_of_zero : inv 0 = 0 := by decide +kernel

open Fin.CommRing in
theorem isField : IsField Fe where
  exists_pair_ne := ⟨0, 1, by decide⟩
  mul_comm := mul_comm
  mul_inv_cancel h := ⟨inv _, mul_inv h⟩

noncomputable instance : Field Fe := @IsField.toField Fe (Fin.instCommRing p).toRing isField

theorem inv_eq (a : Fe) : inv a = a⁻¹ := by
  by_cases h : a = 0
  · rw [h, inv_of_zero, inv_zero]
  · exact eq_inv_of_mul_eq_one_right (mul_inv h)

/-! ## Squares -/

theorem pow_half_mul_self {a : Fe} (h : a ≠ 0) : a ^ ((p - 1) / 2) * a ^ ((p - 1) / 2) = 1 := by
  rw [← pow_add, show (p - 1) / 2 + (p - 1) / 2 = p - 1 by decide]
  exact fin_pow_card_sub_one h

theorem not_isSquare_d : ¬ IsSquare d := by
  rintro ⟨r, hr⟩
  have hpow : d ^ ((p - 1) / 2) = -1 := by
    have h : pow d ((p - 1) / 2) = -1 := by decide +kernel
    exact (pow_eq _ _).symm.trans h
  have hr₀ : r ≠ 0 := by
    rintro rfl
    exact absurd hr (by decide)
  rw [hr, mul_pow, pow_half_mul_self hr₀] at hpow
  exact absurd hpow (by decide)

theorem complete_d : AdditionLaw.Complete d where
  two_ne_zero := by decide
  isSquare_neg_one := ⟨rootOfMinusOne, rootOfMinusOne_mul_self.symm⟩
  not_isSquare := not_isSquare_d

/-- The candidate root of a square `x * x` is a root of it or of its negative, as half of the
exponent `(p - 1) / 2` of `x` gives one or minus one. -/
theorem root?_mul_self (x : Fe) : ∃ r, root? (x * x) = some r := by
  by_cases hx : x = 0
  · subst hx
    exact ⟨0, by decide +kernel⟩
  have hsq : pow (x * x) ((p + 3) / 8) * pow (x * x) ((p + 3) / 8) =
      x * x * x ^ ((p - 1) / 2) := by
    have h := pow_eq (x * x) ((p + 3) / 8)
    rw [h, ← pow_two x, ← pow_mul, ← pow_add, ← pow_add]
    congr 1
  unfold root?
  rcases mul_self_eq_one_iff.1 (pow_half_mul_self hx) with h | h
  · rw [h, mul_one] at hsq
    exact ⟨_, if_pos hsq⟩
  · rw [h] at hsq
    by_cases h' : pow (x * x) ((p + 3) / 8) * pow (x * x) ((p + 3) / 8) = x * x
    · exact ⟨_, if_pos h'⟩
    · refine ⟨_, (if_neg h').trans (if_pos ?_)⟩
      rw [mul_mul_mul_comm, hsq, rootOfMinusOne_mul_self]
      ring

theorem isOdd_neg {x : Fe} (h : x ≠ 0) : isOdd (-x) = !isOdd x := by
  have hx : 0 < x.val := Nat.pos_of_ne_zero fun e => h (Fin.ext e)
  have hlt := x.isLt
  have hval : (-x).val = p - x.val := Nat.mod_eq_of_lt (show p - x.val < p by omega)
  have hp : p % 2 = 1 := by decide
  unfold isOdd
  rw [hval]
  rcases Nat.mod_two_eq_zero_or_one x.val with h' | h'
  · rw [h', show (p - x.val) % 2 = 1 by omega]
    rfl
  · rw [h', show (p - x.val) % 2 = 0 by omega]
    rfl

theorem evenRoot?_mul_self (x : Fe) :
    evenRoot? (x * x) = some (if x.isOdd then -x else x) := by
  obtain ⟨r, hr⟩ := root?_mul_self x
  have hrx := mul_self_of_root? hr
  rw [evenRoot?, hr, Option.map_some]
  refine congrArg some ?_
  rcases mul_self_eq_mul_self_iff.1 hrx with rfl | rfl
  · rfl
  · by_cases hx : x = 0
    · subst hx
      rfl
    · rw [isOdd_neg hx]
      cases x.isOdd <;> simp

end JointSchnorr.Fe
