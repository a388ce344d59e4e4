import Mathlib
import JointSchnorr.Proofs.Curve.BasePoint
import JointSchnorr.Proofs.Curve.Encoding

/-!
# The order of the group

The curve has exactly `8 N` points (`card_eq`). At most two of them share a `y`, so there are fewer
than `16 N`, and their number is a multiple of `8 N`, since there is a point of order eight and the
base point has the order `N`. Hence `8 N` copies of any point cancel out (`eight_mul_N_nsmul`), and
the order of a point that is not of small order is a multiple of `N`, so that different scalars give
different multiples of it (`smul_inj_of_not_isSmallOrder`).
-/

namespace JointSchnorr.Point

/-! ## Counting the points -/

/-- A point is fixed by its `y` and the parity of its `x`, which is all that its encoding holds. -/
theorem y_isOdd_injective : Function.Injective fun P : Point => (P.y, P.x.isOdd) := by
  intro P Q h
  obtain ⟨hy, hx⟩ := Prod.mk.inj h
  rw [← encodedSign_encode, ← encodedSign_encode] at hx
  rw [← encodedY_encode, ← encodedY_encode] at hy
  have hdecode : decode? P.encode = decode? Q.encode := by
    simp only [decode?, hx, hy]
  rw [decode?_encode, decode?_encode] at hdecode
  exact Option.some.inj hdecode

instance : Finite Point := Finite.of_injective _ y_isOdd_injective

theorem card_le : Nat.card Point ≤ 2 * p := by
  calc Nat.card Point ≤ Nat.card (Fe × Bool) := Nat.card_le_card_of_injective _ y_isOdd_injective
    _ = 2 * p := by
      rw [Nat.card_prod, Nat.card_eq_fintype_card, Nat.card_eq_fintype_card, Fintype.card_fin,
        Fintype.card_bool, mul_comm]

/-- A point of order eight. -/
def eighthTurn : Point :=
  ⟨14399317868200118260347934320527232580618823971194345261214217575416788799818,
   2707385501144840649318225287225658788936804267575313519463743609750303402022,
   by decide +kernel⟩

theorem addOrderOf_eighthTurn : addOrderOf eighthTurn = 8 := by
  refine addOrderOf_eq_prime_pow (p := 2) (n := 2) ?_ ?_
  · decide +kernel
  · decide +kernel

theorem isSmallOrder_eighthTurn : eighthTurn.IsSmallOrder := by decide +kernel

theorem smul_eighthTurn {a : Scalar} (h : a.val % 8 = 0) : a • eighthTurn = 0 := by
  rw [scalar_smul, ← addOrderOf_dvd_iff_nsmul_eq_zero, addOrderOf_eighthTurn]
  exact Nat.dvd_of_mod_eq_zero h

theorem card_eq : Nat.card Point = 8 * N := by
  have h₈ : 8 ∣ Nat.card Point := addOrderOf_eighthTurn ▸ addOrderOf_dvd_natCard eighthTurn
  have hN : N ∣ Nat.card Point := addOrderOf_base ▸ addOrderOf_dvd_natCard base
  obtain ⟨k, hk⟩ := Nat.Coprime.mul_dvd_of_dvd_of_dvd (by decide) h₈ hN
  have hpos : 0 < Nat.card Point := Nat.card_pos
  have hle := card_le
  have hlt : 2 * p < 8 * N * 2 := by decide
  -- a positive multiple of `8 N` below `16 N`
  have hk₁ : k = 1 := by
    have hk₂ : k < 2 := Nat.lt_of_mul_lt_mul_left (hk ▸ hle.trans_lt hlt)
    have hk₀ : k ≠ 0 := by
      rintro rfl
      omega
    omega
  rw [hk, hk₁, mul_one]

/-! ## Orders of points -/

theorem eight_mul_N_nsmul (P : Point) : (8 * N) • P = 0 := by
  rw [← card_eq, card_nsmul_eq_zero']

theorem N_nsmul_eight_nsmul (P : Point) : N • 8 • P = 0 := by
  rw [← mul_nsmul]
  exact eight_mul_N_nsmul P

theorem eight_nsmul_smul (a : Scalar) (P : Point) : 8 • a • P = a • 8 • P :=
  nsmul_left_comm P a.val 8

section LargeOrder

variable {P : Point} (h : ¬ P.IsSmallOrder)

include h

theorem N_dvd_addOrderOf : N ∣ addOrderOf P := by
  by_contra hN
  -- an order that divides `8 N` and is prime to `N` divides eight
  have hcoprime : (addOrderOf P).Coprime N := (N_prime.coprime_iff_not_dvd.2 hN).symm
  have hdvd := hcoprime.dvd_of_dvd_mul_right (addOrderOf_dvd_of_nsmul_eq_zero (eight_mul_N_nsmul P))
  rw [addOrderOf_dvd_iff_nsmul_eq_zero] at hdvd
  exact h hdvd

theorem smul_inj_of_not_isSmallOrder {a b : Scalar} : a • P = b • P ↔ a = b := by
  constructor
  · intro hab
    rw [scalar_smul, scalar_smul, nsmul_eq_nsmul_iff_modEq] at hab
    have hmod : a.val % N = b.val % N := hab.of_dvd (N_dvd_addOrderOf h)
    rw [Nat.mod_eq_of_lt a.isLt, Nat.mod_eq_of_lt b.isLt] at hmod
    exact Fin.ext hmod
  · rintro rfl
    rfl

end LargeOrder

end JointSchnorr.Point
