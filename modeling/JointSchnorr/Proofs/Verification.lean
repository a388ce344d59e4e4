import Mathlib
import JointSchnorr.Signing
import JointSchnorr.Proofs.Curve.BasePoint
import JointSchnorr.Proofs.Curve.Encoding

/-!
# The equation of a valid signature

A signature is valid when its commitment encodes a point that is not of small order and the
response satisfies `s B = R + e X`: the two sides are compared as encodings, which no two points
share (`verify_eq_true_iff`). For a commitment in canonical form the equation alone is left
(`verify_iff_of_commitment`). Valid signatures with one commitment, for whatever messages, satisfy
equations in one point (`exists_common_commitment`), so for one message the commitment fixes the
response (`response_unique`).
-/

namespace JointSchnorr.PublicKey

variable {X : PublicKey} {m : Bytes}

theorem verify_eq_true_iff {σ : Signature} :
    X.verify m σ = true ↔ ∃ R, Point.decode? σ.r = some R ∧ ¬ R.IsSmallOrder ∧
      σ.s • Point.base = R + challenge σ.r X.encode m • X.point := by
  unfold verify
  cases hR : Point.decodeLarge? σ.r with
  | none =>
    constructor
    · intro h
      exact absurd h Bool.false_ne_true
    · rintro ⟨R, hd, hs, -⟩
      rw [Point.decodeLarge?_eq_some_iff.2 ⟨hd, hs⟩] at hR
      exact absurd hR (by simp)
  | some R =>
    obtain ⟨hd, hs⟩ := Point.decodeLarge?_eq_some_iff.1 hR
    rw [decide_eq_true_iff, Point.encode_inj]
    constructor
    · intro h
      exact ⟨R, hd, hs, h⟩
    · rintro ⟨R', hd', -, h⟩
      rw [hd] at hd'
      rwa [Option.some.inj hd']

theorem verify_iff_of_commitment {σ : Signature} {R : Point} (hr : σ.r = R.encode)
    (hR : ¬ R.IsSmallOrder) :
    X.verify m σ = true ↔ σ.s • Point.base = R + challenge σ.r X.encode m • X.point := by
  have hd : Point.decode? σ.r = some R := by rw [hr, Point.decode?_encode]
  rw [verify_eq_true_iff]
  constructor
  · rintro ⟨R', hd', -, h⟩
    rw [hd] at hd'
    rwa [Option.some.inj hd']
  · intro h
    exact ⟨R, hd, hR, h⟩

theorem exists_common_commitment {m₁ m₂ : Bytes} {r : Octets 32} {s₁ s₂ : Scalar}
    (h₁ : X.verify m₁ ⟨r, s₁⟩ = true) (h₂ : X.verify m₂ ⟨r, s₂⟩ = true) :
    ∃ R, s₁ • Point.base = R + challenge r X.encode m₁ • X.point ∧
      s₂ • Point.base = R + challenge r X.encode m₂ • X.point := by
  obtain ⟨R, hd, -, h⟩ := verify_eq_true_iff.1 h₁
  obtain ⟨R', hd', -, h'⟩ := verify_eq_true_iff.1 h₂
  have hR : R = R' := Option.some.inj (hd.symm.trans hd')
  exact ⟨R, h, hR ▸ h'⟩

/-- For one key, message and commitment there is at most one valid response. -/
theorem response_unique {σ τ : Signature} (hr : σ.r = τ.r) (hσ : X.verify m σ = true)
    (hτ : X.verify m τ = true) : σ = τ := by
  obtain ⟨r, s⟩ := σ
  obtain ⟨r', s'⟩ := τ
  cases hr
  obtain ⟨R, h, h'⟩ := exists_common_commitment hσ hτ
  cases Point.smul_base_inj.1 (h.trans h'.symm)
  rfl

end JointSchnorr.PublicKey
