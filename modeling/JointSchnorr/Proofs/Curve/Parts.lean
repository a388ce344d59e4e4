import Mathlib
import JointSchnorr.Proofs.Curve.Cofactor

/-!
# The two parts of a point

The multiples of the base point meet the points of small order in zero alone, so an equation between
points of the form `x B + T`, with `T` of small order, is two equations, one for each part
(`smul_base_eq_add_iff`). Every point is of this form in exactly one way (`existsUnique_parts`): the
multiples of the base point are one of eight points, so eight copies of any point are such a
multiple, and eight can be divided out modulo `N`. The points without a part of small order are
those that `N` takes to zero (`N_nsmul_eq_zero_iff`).
-/

namespace JointSchnorr.Point

variable {P Q T : Point} {a b : Scalar}

theorem IsSmallOrder.add (hP : P.IsSmallOrder) (hQ : Q.IsSmallOrder) : (P + Q).IsSmallOrder := by
  unfold IsSmallOrder at *
  rw [nsmul_add, hP, hQ, add_zero]

theorem IsSmallOrder.smul (a : Scalar) (hP : P.IsSmallOrder) : (a • P).IsSmallOrder := by
  unfold IsSmallOrder at *
  rw [eight_nsmul_smul, hP, smul_zero]

theorem IsSmallOrder.sub (hP : P.IsSmallOrder) (hQ : Q.IsSmallOrder) : (P - Q).IsSmallOrder := by
  unfold IsSmallOrder at *
  rw [nsmul_sub, hP, hQ, sub_zero]

/-- An equation between multiples of the base point bears no part of small order. -/
theorem smul_base_eq_add_iff (hT : T.IsSmallOrder) :
    a • base = b • base + T ↔ T = 0 ∧ a = b := by
  constructor
  · intro h
    have hdiff : (a - b) • base = T := by
      rw [sub_smul N_nsmul_base, h, add_sub_cancel_left]
    have hab : a - b = 0 := isSmallOrder_smul_base_iff.1 (hdiff ▸ hT)
    rw [hab, zero_smul] at hdiff
    exact ⟨hdiff.symm, sub_eq_zero.1 hab⟩
  · rintro ⟨rfl, rfl⟩
    rw [add_zero]

open AddSubgroup in
/-- The multiples of the base point have eight cosets. -/
theorem card_quotient_zmultiples_base : Nat.card (Point ⧸ zmultiples base) = 8 := by
  have hcard := card_eq_card_quotient_mul_card_addSubgroup (zmultiples base)
  rw [Nat.card_zmultiples, addOrderOf_base, card_eq] at hcard
  exact (Nat.eq_of_mul_eq_mul_right N_pos hcard).symm

open AddSubgroup in
theorem exists_eight_nsmul_eq (P : Point) : ∃ a : Scalar, 8 • P = a • base := by
  have hmem : 8 • P ∈ zmultiples base := by
    rw [← QuotientAddGroup.eq_zero_iff, QuotientAddGroup.mk_nsmul, ← card_quotient_zmultiples_base,
      card_nsmul_eq_zero']
  obtain ⟨n, hn⟩ := mem_multiples_iff_mem_zmultiples.2 hmem
  exact ⟨Fin.ofNat N n, hn.symm.trans (ofNat_smul_base n).symm⟩

/-- Every point is a multiple of the base point and a point of small order in one way. -/
theorem existsUnique_parts (P : Point) :
    ∃! q : Scalar × Point, q.2.IsSmallOrder ∧ P = q.1 • base + q.2 := by
  obtain ⟨a, ha⟩ := exists_eight_nsmul_eq P
  obtain ⟨i, hi⟩ : ∃ i : Scalar, 8 * i = 1 := ⟨Fin.ofNat N ((3 * N + 1) / 8), by decide⟩
  have hval : (8 : Scalar).val = 8 := by decide
  have hx : 8 • (i * a) • base = 8 • P := by
    rw [← hval, ← scalar_smul, ← mul_smul_base, ← Fin.mul_assoc, hi, Fin.one_mul, hval, ha]
  have hT : (P - (i * a) • base).IsSmallOrder := by
    unfold IsSmallOrder
    rw [nsmul_sub, hx, sub_self]
  refine ⟨(i * a, P - (i * a) • base), ⟨hT, (add_sub_cancel _ _).symm⟩, ?_⟩
  rintro ⟨x, U⟩ ⟨hU, hP⟩
  have hparts : x • base = (i * a) • base + (P - (i * a) • base - U) := by
    rw [← add_sub_assoc, add_sub_cancel, hP, add_sub_cancel_right]
  obtain ⟨hzero, rfl⟩ := (smul_base_eq_add_iff (hT.sub hU)).1 hparts
  exact Prod.ext rfl (sub_eq_zero.1 hzero).symm

theorem IsSmallOrder.eq_zero (hT : T.IsSmallOrder) (hN : N • T = 0) : T = 0 := by
  have hdvd : addOrderOf T ∣ Nat.gcd 8 N :=
    Nat.dvd_gcd (addOrderOf_dvd_of_nsmul_eq_zero hT) (addOrderOf_dvd_of_nsmul_eq_zero hN)
  have hcoprime : Nat.gcd 8 N = 1 := by decide
  rwa [hcoprime, Nat.dvd_one, AddMonoid.addOrderOf_eq_one_iff] at hdvd

theorem N_nsmul_eq_zero_iff : N • P = 0 ↔ ∃ a : Scalar, P = a • base := by
  constructor
  · intro hN
    obtain ⟨⟨a, T⟩, ⟨hT, hP⟩, -⟩ := existsUnique_parts P
    rw [hP, nsmul_add, N_nsmul_smul_base, zero_add] at hN
    exact ⟨a, by rw [hP, hT.eq_zero hN, add_zero]⟩
  · rintro ⟨a, hP⟩
    rw [hP]
    exact N_nsmul_smul_base a

end JointSchnorr.Point
