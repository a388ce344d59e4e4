import Mathlib
import JointSchnorr.Point.Basic
import JointSchnorr.Proofs.Curve.Coordinates

/-!
# The group of points

The points form a commutative group under `Point.add`, in which `multiple n P` is the sum of `n`
copies of `P`. Sums are those of `AdditionLaw`, so the group laws are its identities. The multiple
is computed in projective coordinates by a ladder; `Stands` relates a projective point to the point
it stands for and is what every rung of the ladder keeps.
-/

namespace JointSchnorr.Point

open AdditionLaw

theorem holds (P : Point) : Holds d P.x P.y := P.onCurve

theorem ofCoordinates_eq {x y : Fe} (h : Holds d x y) : ofCoordinates x y = ⟨x, y, h⟩ :=
  dif_pos h

theorem add_eq_ofCoordinates (P Q : Point) :
    P + Q = ofCoordinates (sumX d P.x P.y Q.x Q.y) (sumY d P.x P.y Q.x Q.y) := by
  show add P Q = _
  simp only [add, Fe.inv_eq]
  rfl

theorem add_eq (P Q : Point) :
    P + Q = ⟨sumX d P.x P.y Q.x Q.y, sumY d P.x P.y Q.x Q.y,
      holds_add Fe.complete_d P.holds Q.holds⟩ := by
  rw [add_eq_ofCoordinates, ofCoordinates_eq]

theorem x_add (P Q : Point) : (P + Q).x = sumX d P.x P.y Q.x Q.y := by rw [add_eq]

theorem y_add (P Q : Point) : (P + Q).y = sumY d P.x P.y Q.x Q.y := by rw [add_eq]

theorem neg_eq (P : Point) :
    -P = ⟨-P.x, P.y, by have h := P.holds; unfold Holds at h; unfold OnCurve; rwa [neg_mul_neg]⟩ :=
  dif_pos _

theorem x_neg (P : Point) : (-P).x = -P.x := by rw [neg_eq]

theorem y_neg (P : Point) : (-P).y = P.y := by rw [neg_eq]

protected theorem add_assoc (P Q R : Point) : P + Q + R = P + (Q + R) := by
  ext1
  · rw [x_add, x_add, x_add, y_add, x_add, y_add]
    exact sumX_assoc P.holds Q.holds R.holds Fe.complete_d
  · rw [y_add, x_add, y_add, y_add, x_add, y_add]
    exact sumY_assoc P.holds Q.holds R.holds Fe.complete_d

protected theorem add_comm (P Q : Point) : P + Q = Q + P := by
  ext1
  · rw [x_add, x_add, sumX, sumX, cross, cross]
    ring
  · rw [y_add, y_add, sumY, sumY, cross, cross]
    ring

protected theorem zero_add (P : Point) : 0 + P = P := by
  ext1
  · rw [x_add, sumX, cross, zero_x, zero_y]
    simp
  · rw [y_add, sumY, cross, zero_x, zero_y]
    simp

protected theorem neg_add_cancel (P : Point) : -P + P = 0 := by
  ext1
  · rw [x_add, x_neg, y_neg, sumX, zero_x]
    ring
  · have hden := one_sub_ne_zero Fe.complete_d (-P).holds P.holds
    rw [x_neg, y_neg] at hden
    rw [y_add, x_neg, y_neg, sumY, zero_y, mul_inv_eq_one₀ hden, cross]
    have h := P.holds
    unfold Holds at h
    linear_combination h

instance : AddCommSemigroup Point where
  add_assoc := Point.add_assoc
  add_comm := Point.add_comm

/-! ## Multiples -/

namespace Projective

/-- A projective point stands for a point. -/
structure Stands (Q : Projective) (S : Point) : Prop where
  z_ne_zero : Q.Z ≠ 0
  x_eq : Q.X = S.x * Q.Z
  y_eq : Q.Y = S.y * Q.Z

theorem Stands.toPoint_eq {Q : Projective} {S : Point} (h : Q.Stands S) : Q.toPoint = S := by
  have hx : Q.X * Fe.inv Q.Z = S.x := by
    rw [Fe.inv_eq, h.x_eq, mul_inv_cancel_right₀ h.z_ne_zero]
  have hy : Q.Y * Fe.inv Q.Z = S.y := by
    rw [Fe.inv_eq, h.y_eq, mul_inv_cancel_right₀ h.z_ne_zero]
  show ofCoordinates (Q.X * Fe.inv Q.Z) (Q.Y * Fe.inv Q.Z) = S
  rw [hx, hy, ofCoordinates_eq S.holds]

theorem stands_zero : zero.Stands 0 := ⟨by decide, by decide, by decide⟩

theorem stands_toProjective (P : Point) : P.toProjective.Stands P :=
  ⟨by show (1 : Fe) ≠ 0; decide, (mul_one _).symm, (mul_one _).symm⟩

theorem Stands.add {Q Q' : Projective} {S S' : Point} (h : Q.Stands S) (h' : Q'.Stands S') :
    (Q.add Q').Stands (S + S') := by
  have hf := one_add_ne_zero Fe.complete_d S.holds S'.holds
  have hg := one_sub_ne_zero Fe.complete_d S.holds S'.holds
  have hz := h.z_ne_zero
  have hz' := h'.z_ne_zero
  have hZ : (Q.add Q').Z = (Q.Z * Q'.Z) ^ 4 * (1 - cross d S.x S.y S'.x S'.y) *
      (1 + cross d S.x S.y S'.x S'.y) := by
    simp only [Projective.add, h.x_eq, h.y_eq, h'.x_eq, h'.y_eq, cross]
    ring
  refine ⟨?_, ?_, ?_⟩
  · rw [hZ]
    exact mul_ne_zero (mul_ne_zero (pow_ne_zero 4 (mul_ne_zero hz hz')) hg) hf
  · rw [hZ, x_add, sumX]
    field_simp
    simp only [Projective.add, h.x_eq, h.y_eq, h'.x_eq, h'.y_eq, cross]
    ring
  · rw [hZ, y_add, sumY]
    field_simp
    simp only [Projective.add, h.x_eq, h.y_eq, h'.x_eq, h'.y_eq, cross]
    ring

end Projective

theorem nsmulRec_two_mul (k : Nat) (P : Point) :
    nsmulRec (2 * k) P = nsmulRec k P + nsmulRec k P := by
  induction k with
  | zero => exact (Point.zero_add 0).symm
  | succ k ih =>
    show nsmulRec (2 * k) P + P + P = nsmulRec k P + P + (nsmulRec k P + P)
    rw [ih, add_assoc, add_add_add_comm]

theorem multiple_eq (n : Nat) (P : Point) : multiple n P = nsmulRec n P := by
  refine Projective.Stands.toPoint_eq
    (ladder_induction (R := fun k (Q : Projective) => Q.Stands (nsmulRec k P)) ?_ ?_ ?_ n)
  · exact Projective.stands_zero
  · intro k Q h
    rw [nsmulRec_two_mul]
    exact h.add h
  · intro k Q h
    exact h.add (Projective.stands_toProjective P)

theorem multiple_zero (P : Point) : multiple 0 P = 0 := multiple_eq 0 P

theorem multiple_succ (n : Nat) (P : Point) : multiple (n + 1) P = multiple n P + P := by
  rw [multiple_eq, multiple_eq]
  rfl

instance : AddCommGroup Point :=
  { AddGroup.ofLeftAxioms Point.add_assoc Point.zero_add Point.neg_add_cancel with
    sub := fun P Q => P - Q
    sub_eq_add_neg := fun _ _ => rfl
    nsmul := multiple
    nsmul_zero := multiple_zero
    nsmul_succ := multiple_succ
    add_comm := Point.add_comm }

end JointSchnorr.Point
