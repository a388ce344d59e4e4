import Mathlib
import JointSchnorr.Bytes.Lemmas
import JointSchnorr.Point.Encoding
import JointSchnorr.Proofs.Curve.Group

/-!
# Points from their encodings

A point is read back from its canonical encoding (`decode?_encode`), so different points have
different encodings (`encode_injective`). The low 255 bits give `y`, the equation of the curve gives
the square of `x`, and of its two roots the top bit picks `x`. `WrittenAs` is the same relation
between points and byte strings of any length.
-/

namespace JointSchnorr.Point

open AdditionLaw

theorem p_lt_signBit : p < signBit := by decide

theorem value_encode (P : Point) : P.encode.value = P.y.val + signBit * (P.x.val % 2) := by
  apply Octets.value_ofNat
  have hy := Nat.lt_trans P.y.isLt p_lt_signBit
  have hx := Nat.mod_lt P.x.val (by decide : 0 < 2)
  have hmax : 2 * signBit = 256 ^ 32 := by decide
  nlinarith

theorem encodedY_encode (P : Point) : encodedY P.encode = P.y := by
  apply Fin.ext
  show P.encode.value % signBit % p = P.y.val
  rw [value_encode, Nat.add_mul_mod_self_left,
    Nat.mod_eq_of_lt (Nat.lt_trans P.y.isLt p_lt_signBit), Nat.mod_eq_of_lt P.y.isLt]

theorem encodedSign_encode (P : Point) : encodedSign P.encode = P.x.isOdd := by
  have hy := Nat.lt_trans P.y.isLt p_lt_signBit
  rw [encodedSign, value_encode, Fe.isOdd, Bool.eq_iff_iff, decide_eq_true_iff, beq_iff_eq]
  rcases Nat.mod_two_eq_zero_or_one P.x.val with h | h
  · rw [h]
    omega
  · rw [h]
    omega

theorem d_mul_sq_add_one_ne_zero (y : Fe) : d * (y * y) + 1 ≠ 0 := by
  intro h
  obtain ⟨i, hi⟩ := Fe.complete_d.isSquare_neg_one
  have hy : y ≠ 0 := by
    rintro rfl
    simp at h
  refine Fe.not_isSquare_d (isSquare_of_sq_eq_mul_sq (a := i) hy ?_)
  linear_combination -h - hi

theorem xSquared_y (P : Point) : xSquared P.y = P.x * P.x := by
  have h := P.holds
  unfold Holds at h
  rw [xSquared, Fe.inv_eq, mul_inv_eq_iff_eq_mul₀ (d_mul_sq_add_one_ne_zero P.y)]
  linear_combination h

/-- Of the two roots, the sign of an encoding picks the point's own first coordinate. -/
theorem sign_picks_x (x : Fe) :
    (if x.isOdd then -(if x.isOdd then -x else x) else if x.isOdd then -x else x) = x := by
  split
  · exact neg_neg x
  · rfl

theorem decode?_encode (P : Point) : decode? P.encode = some P := by
  simp only [decode?, encodedY_encode, encodedSign_encode, xSquared_y, Fe.evenRoot?_mul_self,
    Option.bind_some, sign_picks_x]
  exact dif_pos P.onCurve

theorem encode_injective {P Q : Point} (h : P.encode = Q.encode) : P = Q := by
  have hP := decode?_encode P
  rw [h, decode?_encode] at hP
  exact (Option.some.inj hP).symm

theorem encode_inj {P Q : Point} : P.encode = Q.encode ↔ P = Q :=
  ⟨encode_injective, congrArg encode⟩

/-- The bytes are 32, and the point is read from them. -/
def WrittenAs (P : Point) (b : Bytes) : Prop := ∃ o : Octets 32, b = o.toList ∧ decode? o = some P

theorem writtenAs_iff {P : Point} {b : Bytes} :
    P.WrittenAs b ↔ (Octets.ofList? 32 b).bind decode? = some P := by
  rw [Option.bind_eq_some_iff]
  constructor
  · rintro ⟨o, rfl, h⟩
    exact ⟨o, Octets.ofList?_toList o, h⟩
  · rintro ⟨o, ho, h⟩
    exact ⟨o, Octets.ofList?_eq_some_iff.1 ho, h⟩

theorem WrittenAs.unique {P Q : Point} {b : Bytes} (hP : P.WrittenAs b) (hQ : Q.WrittenAs b) :
    P = Q :=
  Option.some.inj ((writtenAs_iff.1 hP).symm.trans (writtenAs_iff.1 hQ))

theorem decodeLarge?_encode {P : Point} (h : ¬ P.IsSmallOrder) :
    decodeLarge? P.encode = some P :=
  decodeLarge?_eq_some_iff.2 ⟨decode?_encode P, h⟩

end JointSchnorr.Point
