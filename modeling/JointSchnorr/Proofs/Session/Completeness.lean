import Mathlib
import JointSchnorr.Proofs.Session.Rounds
import JointSchnorr.Proofs.Session.Signatories

/-!
# Honest sessions

A session in which all parties follow the rounds can fail in two places: in the first round when
their private keys sum up to zero, and in the second when their nonces do. Otherwise the third
round succeeds, its signature is valid, and every party accepts it (`honest_session`).
-/

namespace JointSchnorr

variable {n : Nat} {m : Bytes}

namespace Aggregator

/-- Keys, nonces and shares that come from one list have their entries from it too. -/
theorem AwaitingShares.entries_map {α : Type} {a : AwaitingShares} {as : List α}
    {key nonce : α → PublicKey} {share : α → Signature} (hkeys : a.keys = as.map key)
    (hnonces : a.nonces = as.map nonce) :
    a.entries (as.map share) = as.map fun p => ((key p, nonce p), share p) := by
  rw [entries, hkeys, hnonces, List.zip_map', List.zip_map']

theorem aggregateKeys_honest {ps : List Signatory.AwaitingKey} (hps : ps ≠ [])
    (hlen : ps.length = n) :
    AwaitingKeys.aggregateKeys ⟨n, m⟩ (ps.map (·.key.publicKey)) =
      if Scalar.sum (ps.map (·.key.scalar)) = 0 then .error .invalidKey
      else .ok ⟨n, m, ps.map (·.key.publicKey),
        ⟨Scalar.sum (ps.map (·.key.scalar)) • Point.base⟩⟩ := by
  have hcount : (ps.map (·.key.publicKey)).length = n := by rw [List.length_map, hlen]
  rw [AwaitingKeys.aggregateKeys_eq hcount, PublicKey.aggregate_multiples
    (fun p : Signatory.AwaitingKey => p.key.publicKey) (·.key.scalar)
    (fun p => p.key.publicKey_point) hps]
  split <;> rfl

theorem aggregateNonces_honest {b : AwaitingNonces} {qs : List Signatory.AwaitingNonce}
    (hqs : qs ≠ []) (hlen : qs.length = b.parties) :
    b.aggregateNonces (qs.map (·.nonce.publicNonce)) =
      if Scalar.sum (qs.map (·.nonce.scalar)) = 0 then .error .invalidNonce
      else .ok ⟨b.parties, b.message, b.keys, b.aggregateKey, qs.map (·.nonce.publicNonce),
        ⟨Scalar.sum (qs.map (·.nonce.scalar)) • Point.base⟩⟩ := by
  have hcount : (qs.map (·.nonce.publicNonce)).length = b.parties := by
    rw [List.length_map, hlen]
  rw [AwaitingNonces.aggregateNonces_eq hcount, PublicKey.aggregateNonces_multiples
    (fun q : Signatory.AwaitingNonce => q.nonce.publicNonce) (·.nonce.scalar)
    (fun q => q.nonce.publicNonce_point) hqs]
  split <;> rfl

/-- Shares that the parties sign in the aggregator's own context are accepted. -/
theorem aggregateSignatures_honest {c : AwaitingShares} {qs : List Signatory.AwaitingNonce}
    (inv : c.Invariant n m) (hkeys : c.keys = qs.map (·.key.publicKey))
    (hnonces : c.nonces = qs.map (·.nonce.publicNonce))
    (hctx : ∀ q ∈ qs, q.context c.aggregateNonce = c.context) :
    ∃ f, c.aggregateSignatures (qs.map fun q => (q.partialSign c.aggregateNonce).2) = .ok f ∧
      f.aggregateKey = c.aggregateKey ∧ f.signature.r = c.aggregateNonce.encode := by
  have hlen : (qs.map fun q => (q.partialSign c.aggregateNonce).2).length = c.parties := by
    rw [List.length_map, inv.parties_eq, ← inv.keys.length_eq, hkeys, List.length_map]
  refine ⟨_, AwaitingShares.aggregateSignatures_eq inv hlen ?_, rfl, rfl⟩
  rw [AwaitingShares.entries_map hkeys hnonces]
  intro e he
  obtain ⟨q, hq, rfl⟩ := List.mem_map.1 he
  show c.context.accepts q.key.publicKey q.nonce.publicNonce
    ((q.context c.aggregateNonce).share q.key q.nonce) = true
  rw [hctx q hq]
  exact c.context.accepts_share q.key q.nonce

end Aggregator

section Draws

variable {X : PublicKey} {ps : List Signatory.AwaitingKey} {qs : List Signatory.AwaitingNonce}

/-- Parties that drew their nonces still publish the same keys. -/
theorem map_publicKey_of_draws (h : List.Forall₂ (·.Draws X) ps qs) :
    qs.map (·.key.publicKey) = ps.map (·.key.publicKey) := by
  induction h with
  | nil => rfl
  | cons hpq _ ih =>
    rw [List.map_cons, List.map_cons, ih, (Signatory.AwaitingKey.draws_iff.1 hpq).1]

theorem forall_mem_of_draws (h : List.Forall₂ (·.Draws X) ps qs) (hm : ∀ p ∈ ps, p.message = m) :
    ∀ q ∈ qs, q.message = m ∧ q.aggregateKey = X := by
  induction h with
  | nil => simp
  | cons hpq _ ih =>
    obtain ⟨hp, hps⟩ := List.forall_mem_cons.1 hm
    obtain ⟨-, hmessage, hX⟩ := Signatory.AwaitingKey.draws_iff.1 hpq
    exact List.forall_mem_cons.2 ⟨⟨hmessage.trans hp, hX⟩, ih hps⟩

/-- A signature that is valid in the session's context is accepted by each party. -/
theorem accept_of_draws {R : PublicKey} {σ : Signature} (h : List.Forall₂ (·.Draws X) ps qs)
    (hm : ∀ p ∈ ps, p.message = m) (hr : σ.r = R.encode) (hverify : X.verify m σ = true) :
    List.Forall₂ (fun p q => (q.partialSign R).1.accept σ = .ok ⟨p.key, m, X, σ⟩) ps qs := by
  have hboth := (List.forall₂_and_left ps qs).2 ⟨hm, h⟩
  refine hboth.imp ?_
  rintro p ⟨x, m', X', k⟩ ⟨rfl, hdraws⟩
  obtain ⟨rfl, rfl, rfl⟩ := Signatory.AwaitingKey.draws_iff.1 hdraws
  exact Signatory.AwaitingSignature.accept_eq_ok_iff.2 ⟨hr, hverify, rfl⟩

end Draws

open Aggregator in
/-- **Completeness of a session.** The sum of the keys decides the first round and the sum of the
nonces the second; past these the session succeeds for the aggregator and for every party. -/
theorem honest_session {ps : List Signatory.AwaitingKey} (hn : 1 ≤ n) (hlen : ps.length = n)
    (hm : ∀ p ∈ ps, p.message = m) :
    ∃ a, start n m = .ok a ∧
      (Scalar.sum (ps.map (·.key.scalar)) = 0 →
        a.aggregateKeys (ps.map (·.key.publicKey)) = .error .invalidKey) ∧
      (Scalar.sum (ps.map (·.key.scalar)) ≠ 0 →
        ∃ b, a.aggregateKeys (ps.map (·.key.publicKey)) = .ok b ∧
        ∀ qs, List.Forall₂ (·.Draws b.aggregateKey) ps qs →
          (Scalar.sum (qs.map (·.nonce.scalar)) = 0 →
            b.aggregateNonces (qs.map (·.nonce.publicNonce)) = .error .invalidNonce) ∧
          (Scalar.sum (qs.map (·.nonce.scalar)) ≠ 0 →
            ∃ c, b.aggregateNonces (qs.map (·.nonce.publicNonce)) = .ok c ∧
            ∃ f, c.aggregateSignatures (qs.map fun q => (q.partialSign c.aggregateNonce).2) =
                .ok f ∧
              f.verify = true ∧
              List.Forall₂ (fun p q => (q.partialSign c.aggregateNonce).1.accept f.signature =
                .ok ⟨p.key, m, b.aggregateKey, f.signature⟩) ps qs)) := by
  have hps : ps ≠ [] := List.ne_nil_of_length_pos (hlen ▸ hn)
  have hstart : start n m = .ok ⟨n, m⟩ := start_eq_ok_iff.2 ⟨hn, rfl⟩
  have hround₁ := aggregateKeys_honest (m := m) hps hlen
  refine ⟨⟨n, m⟩, hstart, fun hsum => by rw [hround₁, if_pos hsum], fun hsum => ?_⟩
  rw [if_neg hsum] at hround₁
  refine ⟨_, hround₁, fun qs hqs => ?_⟩
  have hqlen : qs.length = n := hqs.length_eq.symm.trans hlen
  have hround₂ := aggregateNonces_honest (b := ⟨n, m, ps.map (·.key.publicKey),
    ⟨Scalar.sum (ps.map (·.key.scalar)) • Point.base⟩⟩)
    (List.ne_nil_of_length_pos (hqlen ▸ hn)) hqlen
  refine ⟨fun hsum => by rw [hround₂, if_pos hsum], fun hsum => ?_⟩
  rw [if_neg hsum] at hround₂
  refine ⟨_, hround₂, ?_⟩
  -- the third round, from the invariant of the state that the first two lead to
  have inv := (((Reached.start hstart).keys hround₁).nonces hround₂).invariant
  obtain ⟨f, hf, hkey, hr⟩ := aggregateSignatures_honest inv (map_publicKey_of_draws hqs).symm rfl
    (by
      intro q hq
      obtain ⟨hmessage, hX⟩ := forall_mem_of_draws hqs hm q hq
      exact congrArg₂ (fun X m => Context.mk X _ m) hX hmessage)
  have hfinal := AwaitingShares.invariant_aggregateSignatures inv hf
  have hverify := hfinal.verify_eq
  rw [Finalized.verify, hkey, hfinal.message_eq] at hverify
  exact ⟨f, hf, hfinal.verify_eq, accept_of_draws hqs hm hr hverify⟩

/-! Two parties: one session that succeeds, one with keys that cancel, and one with nonces that
cancel. -/

def pairKeys (x y : Secret) : List Signatory.AwaitingKey :=
  [⟨⟨x⟩, [104, 105]⟩, ⟨⟨y⟩, [104, 105]⟩]

def pairNonces (x y : Secret) (X : PublicKey) (k l : Secret) : List Signatory.AwaitingNonce :=
  [⟨⟨x⟩, [104, 105], X, ⟨k⟩⟩, ⟨⟨y⟩, [104, 105], X, ⟨l⟩⟩]

theorem message_pairKeys (x y : Secret) : ∀ p ∈ pairKeys x y, p.message = [104, 105] := by
  simp [pairKeys]

theorem draws_pairNonces (x y : Secret) (X : PublicKey) (k l : Secret) :
    List.Forall₂ (·.Draws X) (pairKeys x y) (pairNonces x y X k l) :=
  .cons (Signatory.AwaitingKey.draws_iff.2 ⟨rfl, rfl, rfl⟩)
    (.cons (Signatory.AwaitingKey.draws_iff.2 ⟨rfl, rfl, rfl⟩) .nil)

theorem sum_pairNonces (x y : Secret) (X : PublicKey) (k l : Secret) :
    Scalar.sum ((pairNonces x y X k l).map (·.nonce.scalar)) = k.scalar + (l.scalar + 0) := rfl

open Aggregator in
theorem honest_session_pair :
    (∃ a b c f, start 2 [104, 105] = .ok a ∧
      a.aggregateKeys ((pairKeys ⟨5, by decide⟩ ⟨7, by decide⟩).map (·.key.publicKey)) = .ok b ∧
      b.aggregateNonces ((pairNonces ⟨5, by decide⟩ ⟨7, by decide⟩ b.aggregateKey ⟨3, by decide⟩
        ⟨4, by decide⟩).map (·.nonce.publicNonce)) = .ok c ∧
      c.aggregateSignatures ((pairNonces ⟨5, by decide⟩ ⟨7, by decide⟩ b.aggregateKey
        ⟨3, by decide⟩ ⟨4, by decide⟩).map fun q => (q.partialSign c.aggregateNonce).2) = .ok f ∧
      f.verify = true) ∧
    (∃ a, start 2 [104, 105] = .ok a ∧
      a.aggregateKeys ((pairKeys ⟨5, by decide⟩ ⟨-5, by decide⟩).map (·.key.publicKey)) =
        .error .invalidKey) ∧
    (∃ a b, start 2 [104, 105] = .ok a ∧
      a.aggregateKeys ((pairKeys ⟨5, by decide⟩ ⟨7, by decide⟩).map (·.key.publicKey)) = .ok b ∧
      b.aggregateNonces ((pairNonces ⟨5, by decide⟩ ⟨7, by decide⟩ b.aggregateKey ⟨3, by decide⟩
        ⟨-3, by decide⟩).map (·.nonce.publicNonce)) = .error .invalidNonce) := by
  obtain ⟨a, ha, -, hkeys⟩ := honest_session (n := 2) (by decide) rfl
    (message_pairKeys ⟨5, by decide⟩ ⟨7, by decide⟩)
  obtain ⟨b, hb, hnonces⟩ := hkeys (by decide)
  refine ⟨?_, ?_, ?_⟩
  · have hdraws := draws_pairNonces ⟨5, by decide⟩ ⟨7, by decide⟩ b.aggregateKey ⟨3, by decide⟩
      ⟨4, by decide⟩
    obtain ⟨c, hc, f, hf, hverify, -⟩ := (hnonces _ hdraws).2 (by rw [sum_pairNonces]; decide)
    exact ⟨a, b, c, f, ha, hb, hc, hf, hverify⟩
  · obtain ⟨a', ha', hkeys', -⟩ := honest_session (n := 2) (by decide) rfl
      (message_pairKeys ⟨5, by decide⟩ ⟨-5, by decide⟩)
    exact ⟨a', ha', hkeys' (by decide)⟩
  · have hdraws := draws_pairNonces ⟨5, by decide⟩ ⟨7, by decide⟩ b.aggregateKey ⟨3, by decide⟩
      ⟨-3, by decide⟩
    exact ⟨a, b, ha, hb, (hnonces _ hdraws).1 (by rw [sum_pairNonces]; decide)⟩

end JointSchnorr
