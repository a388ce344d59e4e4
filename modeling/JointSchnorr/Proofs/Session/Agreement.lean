import Mathlib
import JointSchnorr.Proofs.Session.Signatories
import JointSchnorr.Proofs.Session.Soundness

/-!
# Agreement

A context leaves room for one joint signature. Signatories that wait in one context can only
accept the same signature, and if an aggregator finishes in that context, they accept its signature
and no other (`accepted_signatures_agree`). Nothing is asked of the keys, the aggregates or the
shares.
-/

namespace JointSchnorr

namespace Aggregator.AwaitingShares

variable {n : Nat} {m : Bytes} {a : AwaitingShares} {f : Finalized} {shares : List Signature}

/-- A finished aggregator's signature carries the context's nonce and is valid in the context. -/
theorem fits_of_aggregateSignatures (inv : a.Invariant n m)
    (h : a.aggregateSignatures shares = .ok f) :
    f.signature.r = a.context.nonce.encode ∧
      a.context.key.verify a.context.message f.signature = true := by
  have hverify := (invariant_aggregateSignatures inv h).verify_eq
  obtain ⟨-, -, rfl⟩ := (aggregateSignatures_eq_ok_iff inv).1 h
  exact ⟨rfl, hverify⟩

/-- A signatory in the context of a finished aggregator accepts the aggregator's signature only. -/
theorem exists_accept_iff {p : Signatory.AwaitingSignature} (inv : a.Invariant n m)
    (h : a.aggregateSignatures shares = .ok f) (hctx : p.context = a.context) (σ : Signature) :
    (∃ g, p.accept σ = .ok g) ↔ σ = f.signature := by
  obtain ⟨hr, hverify⟩ := fits_of_aggregateSignatures inv h
  rw [Signatory.AwaitingSignature.exists_accept_iff, hctx]
  constructor
  · rintro ⟨hr', hverify'⟩
    exact PublicKey.response_unique (hr'.trans hr.symm) hverify' hverify
  · rintro rfl
    exact ⟨hr, hverify⟩

/-- Aggregators that finish in one context finish with the same signature. -/
theorem signature_unique {n' : Nat} {m' : Bytes} {a' : AwaitingShares} {f' : Finalized}
    {shares' : List Signature} (inv : a.Invariant n m) (inv' : a'.Invariant n' m')
    (hctx : a'.context = a.context) (h : a.aggregateSignatures shares = .ok f)
    (h' : a'.aggregateSignatures shares' = .ok f') : f'.signature = f.signature := by
  obtain ⟨hr, hverify⟩ := fits_of_aggregateSignatures inv h
  obtain ⟨hr', hverify'⟩ := fits_of_aggregateSignatures inv' h'
  rw [hctx] at hr' hverify'
  exact PublicKey.response_unique (hr'.trans hr.symm) hverify' hverify

end Aggregator.AwaitingShares

open Aggregator in
/-- **Agreement.** Signatories that wait in one context accept one signature, which is the one of
every aggregator that finishes in that context. -/
theorem accepted_signatures_agree (c : Context) :
    (∀ p q : Signatory.AwaitingSignature, p.context = c → q.context = c →
      ∀ σ τ f g, p.accept σ = .ok f → q.accept τ = .ok g →
        σ.encode = τ.encode ∧ f.signature = g.signature) ∧
    ∀ n m a, Reached n m (.awaitingShares a) → a.context = c →
      ∀ shares f, a.aggregateSignatures shares = .ok f →
        (∀ p : Signatory.AwaitingSignature, p.context = c →
          ∀ σ, (∃ g, p.accept σ = .ok g) ↔ σ = f.signature) ∧
        ∀ n' m' a', Reached n' m' (.awaitingShares a') → a'.context = c →
          ∀ shares' f', a'.aggregateSignatures shares' = .ok f' → f'.signature = f.signature := by
  refine ⟨?_, ?_⟩
  · intro p q hp hq σ τ f g hf hg
    have hστ := Signatory.AwaitingSignature.accept_unique (hp.trans hq.symm) hf hg
    obtain ⟨-, -, rfl⟩ := Signatory.AwaitingSignature.accept_eq_ok_iff.1 hf
    obtain ⟨-, -, rfl⟩ := Signatory.AwaitingSignature.accept_eq_ok_iff.1 hg
    exact ⟨congrArg Signature.encode hστ, hστ⟩
  · rintro n m a ha rfl shares f hf
    refine ⟨fun p hp σ => AwaitingShares.exists_accept_iff ha.invariant hf hp σ, ?_⟩
    intro n' m' a' ha' hctx shares' f' hf'
    exact AwaitingShares.signature_unique ha.invariant ha'.invariant hctx hf hf'

/-! Two signatories, one of them no party, that wait for the signature of the mixed session. -/

namespace Aggregator

def mixedSignatory (x : Secret) : Signatory.AwaitingSignature :=
  ⟨⟨x⟩, [104, 105], mixedContext.key, mixedContext.nonce⟩

def mixedSignature : Signature := mixedSession.combined mixedShares

theorem context_mixedSignatory (x : Secret) : (mixedSignatory x).context = mixedContext := rfl

theorem accept_mixedSignature (x : Secret) :
    (mixedSignatory x).accept mixedSignature =
      .ok ⟨⟨x⟩, [104, 105], mixedContext.key, mixedSignature⟩ := by
  obtain ⟨hr, hverify⟩ := AwaitingShares.fits_of_aggregateSignatures
    reached_mixedSession.invariant aggregateSignatures_mixed
  exact Signatory.AwaitingSignature.accept_eq_ok_iff.2 ⟨hr, hverify, rfl⟩

theorem accepted_signatures_agree_mixed :
    (∃ f g, (mixedSignatory ⟨5, by decide⟩).accept mixedSignature = .ok f ∧
      (mixedSignatory ⟨9, by decide⟩).accept mixedSignature = .ok g ∧
      f.signature = g.signature) ∧
    ∃ f, mixedSession.aggregateSignatures mixedShares = .ok f ∧
      (∀ σ, (∃ g, (mixedSignatory ⟨9, by decide⟩).accept σ = .ok g) ↔ σ = f.signature) ∧
      ∀ shares f', mixedSession.aggregateSignatures shares = .ok f' →
        f'.signature = f.signature := by
  obtain ⟨haccepted, hfinished⟩ := accepted_signatures_agree mixedContext
  obtain ⟨honly, hrounds⟩ := hfinished 2 [104, 105] mixedSession reached_mixedSession rfl
    mixedShares _ aggregateSignatures_mixed
  refine ⟨⟨_, _, accept_mixedSignature _, accept_mixedSignature _, ?_⟩,
    _, aggregateSignatures_mixed, honly _ (context_mixedSignatory _),
    hrounds 2 [104, 105] _ reached_mixedSession rfl⟩
  have h := haccepted _ _ (context_mixedSignatory ⟨5, by decide⟩)
    (context_mixedSignatory ⟨9, by decide⟩) _ _ _ _ (accept_mixedSignature _)
    (accept_mixedSignature _)
  exact h.2

end Aggregator

end JointSchnorr
