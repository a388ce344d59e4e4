import Mathlib
import JointSchnorr.Secret
import JointSchnorr.Proofs.Curve.BasePoint
import JointSchnorr.Proofs.Encoding.Key

/-!
# Aggregates of keys and nonces

The aggregate of a list is the sum of its points, and fails only where that sum is of small order.
For public parts of secrets the sum is the multiple of the base point by the sum of the scalars, so
the only failure is a sum of zero (`aggregate_multiples`, `aggregateNonces_multiples`). Both are
stated for lists of any values with a public part and a scalar: keys, nonces, parties.
-/

namespace JointSchnorr

theorem Secret.not_isSmallOrder (k : Secret) : ¬ k.publicPart.point.IsSmallOrder :=
  Point.isSmallOrder_smul_base_iff.not.2 k.scalar_ne_zero

namespace PrivateKey

theorem scalar_ne_zero (x : PrivateKey) : x.scalar ≠ 0 := x.secret.scalar_ne_zero

theorem publicKey_point (x : PrivateKey) : x.publicKey.point = x.scalar • Point.base := rfl

theorem not_isSmallOrder (x : PrivateKey) : ¬ x.publicKey.point.IsSmallOrder :=
  x.secret.not_isSmallOrder

end PrivateKey

namespace Nonce

theorem scalar_ne_zero (k : Nonce) : k.scalar ≠ 0 := k.secret.scalar_ne_zero

theorem publicNonce_point (k : Nonce) : k.publicNonce.point = k.scalar • Point.base := rfl

theorem not_isSmallOrder (k : Nonce) : ¬ k.publicNonce.point.IsSmallOrder :=
  k.secret.not_isSmallOrder

end Nonce

namespace PublicKey

theorem aggregate_eq {Xs : List PublicKey} (h : Xs ≠ []) :
    aggregate Xs = ofPoint (Xs.map point).sum := by
  cases Xs with
  | nil => exact absurd rfl h
  | cons X Xs => rfl

theorem aggregate_eq_ok_iff {Xs : List PublicKey} {X : PublicKey} :
    aggregate Xs = .ok X ↔
      Xs ≠ [] ∧ X.point = (Xs.map point).sum ∧ ¬ X.point.IsSmallOrder := by
  by_cases h : Xs = []
  · subst h
    simp [aggregate]
  · rw [aggregate_eq h, ofPoint_eq_ok_iff]
    constructor
    · rintro ⟨hX, hsmall⟩
      exact ⟨h, hX, hX ▸ hsmall⟩
    · rintro ⟨-, hX, hsmall⟩
      exact ⟨hX, hX ▸ hsmall⟩

theorem aggregateNonces_eq_ok_iff {Rs : List PublicKey} {R : PublicKey} :
    aggregateNonces Rs = .ok R ↔ aggregate Rs = .ok R := by
  unfold aggregateNonces
  split
  · next h => simp [h]
  · rfl

theorem aggregate_perm {Xs Ys : List PublicKey} (h : Xs.Perm Ys) : aggregate Xs = aggregate Ys := by
  by_cases hXs : Xs = []
  · subst hXs
    rw [h.nil_eq]
  · have hYs : Ys ≠ [] := by
      rintro rfl
      exact hXs h.eq_nil
    rw [aggregate_eq hXs, aggregate_eq hYs, (h.map point).sum_eq]

theorem aggregateNonces_perm {Xs Ys : List PublicKey} (h : Xs.Perm Ys) :
    aggregateNonces Xs = aggregateNonces Ys := by
  rw [aggregateNonces, aggregateNonces, aggregate_perm h]

section Multiples

variable {α : Type} (part : α → PublicKey) (scalar : α → Scalar)
  (h : ∀ a, (part a).point = scalar a • Point.base)

include h

theorem sum_multiples (as : List α) :
    ((as.map part).map point).sum = Scalar.sum (as.map scalar) • Point.base := by
  rw [Point.sum_smul_base, List.map_map, List.map_map]
  exact congrArg List.sum (List.map_congr_left fun a _ => h a)

theorem aggregate_multiples {as : List α} (hne : as ≠ []) :
    aggregate (as.map part) =
      if Scalar.sum (as.map scalar) = 0 then .error .invalidKey
      else .ok ⟨Scalar.sum (as.map scalar) • Point.base⟩ := by
  rw [aggregate_eq (by simpa using hne), sum_multiples part scalar h, ofPoint]
  simp only [Point.isSmallOrder_smul_base_iff]

theorem aggregateNonces_multiples {as : List α} (hne : as ≠ []) :
    aggregateNonces (as.map part) =
      if Scalar.sum (as.map scalar) = 0 then .error .invalidNonce
      else .ok ⟨Scalar.sum (as.map scalar) • Point.base⟩ := by
  rw [aggregateNonces, aggregate_multiples part scalar h hne]
  by_cases h₀ : Scalar.sum (as.map scalar) = 0
  · rw [if_pos h₀, if_pos h₀]
  · rw [if_neg h₀, if_neg h₀]

end Multiples

end PublicKey

end JointSchnorr
