import Mathlib
import JointSchnorr.Signatory
import JointSchnorr.Proofs.Encoding.Key
import JointSchnorr.Proofs.Verification

/-!
# The steps of a signatory

A signatory that draws a nonce keeps its key and its message and stores the aggregate key that it
was given (`draws_iff`). It accepts exactly the signatures that are valid in its context
(`accept_eq_ok_iff`), and any two signatories with one context accept the same signature
(`accept_unique`).
-/

namespace JointSchnorr.Signatory

/-- The stage `q` comes from `p` by drawing a nonce under the aggregate key `X`. -/
def AwaitingKey.Draws (p : AwaitingKey) (X : PublicKey) (q : AwaitingNonce) : Prop :=
  ∃ script rest, p.generateNonce X script = .ok (q, rest)

/-- The context that the accepted signature has to fit. -/
def AwaitingSignature.context (p : AwaitingSignature) : Context :=
  ⟨p.aggregateKey, p.aggregateNonce, p.message⟩

theorem AwaitingKey.generateNonce_eq_ok_iff {p : AwaitingKey} {X : PublicKey} {q : AwaitingNonce}
    {script rest : Bytes} :
    p.generateNonce X script = .ok (q, rest) ↔
      ∃ k, Nonce.generate script = .ok (k, rest) ∧ q = ⟨p.key, p.message, X, k⟩ := by
  unfold generateNonce
  cases Nonce.generate script with
  | error e => simp [Except.map]
  | ok drawn =>
    obtain ⟨k, rest'⟩ := drawn
    simp only [Except.map, Except.ok.injEq, Prod.mk.injEq]
    constructor
    · rintro ⟨rfl, rfl⟩
      exact ⟨k, ⟨rfl, rfl⟩, rfl⟩
    · rintro ⟨k', ⟨rfl, rfl⟩, rfl⟩
      exact ⟨rfl, rfl⟩

theorem AwaitingKey.draws_iff {p : AwaitingKey} {X : PublicKey} {q : AwaitingNonce} :
    p.Draws X q ↔ q.key = p.key ∧ q.message = p.message ∧ q.aggregateKey = X := by
  constructor
  · rintro ⟨script, rest, h⟩
    obtain ⟨k, -, rfl⟩ := generateNonce_eq_ok_iff.1 h
    exact ⟨rfl, rfl, rfl⟩
  · obtain ⟨x, m, Y, k⟩ := q
    rintro ⟨rfl, rfl, rfl⟩
    obtain ⟨script, rest, h⟩ := k.exists_generate
    exact ⟨script, rest, generateNonce_eq_ok_iff.2 ⟨k, h, rfl⟩⟩

namespace AwaitingSignature

variable {p q : AwaitingSignature} {σ τ : Signature}

theorem accept_eq_ok_iff {f : Finalized} :
    p.accept σ = .ok f ↔ σ.r = p.aggregateNonce.encode ∧
      p.aggregateKey.verify p.message σ = true ∧
      f = ⟨p.key, p.message, p.aggregateKey, σ⟩ := by
  unfold accept
  split
  · next h => simp [h, eq_comm]
  · next h =>
    constructor
    · intro h'
      exact absurd h' (by simp)
    · rintro ⟨hr, hv, -⟩
      exact absurd ⟨hr, hv⟩ h

theorem exists_accept_iff :
    (∃ f, p.accept σ = .ok f) ↔
      σ.r = p.context.nonce.encode ∧ p.context.key.verify p.context.message σ = true := by
  constructor
  · rintro ⟨f, h⟩
    obtain ⟨hr, hv, -⟩ := accept_eq_ok_iff.1 h
    exact ⟨hr, hv⟩
  · rintro ⟨hr, hv⟩
    exact ⟨_, accept_eq_ok_iff.2 ⟨hr, hv, rfl⟩⟩

theorem accept_unique {f g : Finalized} (hctx : p.context = q.context) (hf : p.accept σ = .ok f)
    (hg : q.accept τ = .ok g) : σ = τ := by
  obtain ⟨hr, hv⟩ := exists_accept_iff.1 ⟨f, hf⟩
  obtain ⟨hr', hv'⟩ := exists_accept_iff.1 ⟨g, hg⟩
  rw [← hctx] at hr' hv'
  exact PublicKey.response_unique (hr.trans hr'.symm) hv hv'

end AwaitingSignature

end JointSchnorr.Signatory
