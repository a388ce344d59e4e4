import Mathlib
import JointSchnorr.Share
import JointSchnorr.Proofs.Aggregates
import JointSchnorr.Proofs.Combination
import JointSchnorr.Proofs.Verification

/-!
# Sums of shares

The equation of a share is linear in the party's public values, so accepted shares add up: their
sum satisfies the equation of the summed keys and nonces (`sum_accepted`), and a context whose
aggregates are these sums turns that into a valid signature. Honest shares are accepted
(`accepts_share`), nothing else is for the public values of a key and a nonce
(`accepts_iff_eq_share`), and they add up to the share of the summed secrets (`sum_share`). Shares
with one commitment combine by adding their responses (`combine_of_commitment`).
-/

namespace JointSchnorr

namespace Context

variable (c : Context)

theorem accepts_eq_true_iff {X R : PublicKey} {σ : Signature} :
    c.accepts X R σ = true ↔ σ.r = c.nonce.encode ∧
      σ.s • Point.base = R.point + c.challenge • X.point := by
  simp [accepts]

theorem accepts_share (x : PrivateKey) (k : Nonce) :
    c.accepts x.publicKey k.publicNonce (c.share x k) = true := by
  refine c.accepts_eq_true_iff.2 ⟨rfl, ?_⟩
  rw [x.publicKey_point, k.publicNonce_point, share, Point.add_smul_base, Point.mul_smul_base]

/-- Public values alone single out the share that only the holder of the secrets can compute. -/
theorem accepts_iff_eq_share {x : PrivateKey} {k : Nonce} {σ : Signature} :
    c.accepts x.publicKey k.publicNonce σ = true ↔ σ = c.share x k := by
  constructor
  · intro h
    obtain ⟨hr, hs⟩ := c.accepts_eq_true_iff.1 h
    have hs' := (c.accepts_eq_true_iff.1 (c.accepts_share x k)).2
    obtain ⟨r, s⟩ := σ
    rw [share, Signature.mk.injEq]
    exact ⟨hr, Point.smul_base_inj.1 (hs.trans hs'.symm)⟩
  · rintro rfl
    exact c.accepts_share x k

/-- Shares that are accepted for their parties' values satisfy the equation of the sums. -/
theorem sum_accepted {entries : List ((PublicKey × PublicKey) × Signature)}
    (h : ∀ e ∈ entries, c.accepts e.1.1 e.1.2 e.2 = true) :
    Scalar.sum (entries.map fun e => e.2.s) • Point.base =
      (entries.map fun e => e.1.2.point).sum +
        c.challenge • (entries.map fun e => e.1.1.point).sum := by
  induction entries with
  | nil =>
    rw [List.map_nil, List.map_nil, List.map_nil, List.sum_nil, Point.smul_zero, add_zero]
    exact Point.zero_smul Point.base
  | cons e entries ih =>
    obtain ⟨he, hrest⟩ := List.forall_mem_cons.1 h
    have hs := (c.accepts_eq_true_iff.1 he).2
    have hsum : Scalar.sum ((e :: entries).map fun e => e.2.s) =
        e.2.s + Scalar.sum (entries.map fun e => e.2.s) := rfl
    rw [hsum, Point.add_smul_base, hs, ih hrest, List.map_cons, List.map_cons, List.sum_cons,
      List.sum_cons, Point.smul_add, add_add_add_comm]

section Honest

variable {α : Type} (x : α → PrivateKey) (k : α → Nonce)

open Fin.CommRing in
theorem sum_share (as : List α) :
    Scalar.sum (as.map fun a => (c.share (x a) (k a)).s) =
      Scalar.sum (as.map fun a => (k a).scalar) +
        c.challenge * Scalar.sum (as.map fun a => (x a).scalar) := by
  induction as with
  | nil => exact (mul_zero c.challenge).symm.trans (zero_add _).symm
  | cons a as ih =>
    show (k a).scalar + c.challenge * (x a).scalar +
        Scalar.sum (as.map fun a => (c.share (x a) (k a)).s) =
      (k a).scalar + Scalar.sum (as.map fun a => (k a).scalar) +
        c.challenge * ((x a).scalar + Scalar.sum (as.map fun a => (x a).scalar))
    rw [ih]
    ring

end Honest

end Context

namespace PrivateKey

/-- Signing alone is signing in the context of one's own key and nonce. -/
theorem signWith_eq_share (x : PrivateKey) (k : Nonce) (m : Bytes) :
    x.signWith k m = Context.share ⟨x.publicKey, k.publicNonce, m⟩ x k := rfl

theorem verify_signWith (x : PrivateKey) (k : Nonce) (m : Bytes) :
    x.publicKey.verify m (x.signWith k m) = true := by
  have hs := (Context.accepts_eq_true_iff ⟨x.publicKey, k.publicNonce, m⟩).1
    (Context.accepts_share _ x k)
  rw [signWith_eq_share, PublicKey.verify_iff_of_commitment hs.1 k.not_isSmallOrder]
  exact hs.2

end PrivateKey

namespace Signature

theorem combine_of_commitment {R : Point} {shares : List Signature} (hne : shares ≠ [])
    (hr : ∀ σ ∈ shares, σ.r = R.encode) (hR : ¬ R.IsSmallOrder) :
    combine shares = .ok ⟨R.encode, Scalar.sum (shares.map (·.s))⟩ := by
  refine combine_eq_ok_iff.2 ⟨hne, hr, ?_, rfl⟩
  rw [Point.decodeLarge?_encode hR]
  rfl

end Signature

end JointSchnorr
