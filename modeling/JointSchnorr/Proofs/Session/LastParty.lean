import Mathlib
import JointSchnorr.Proofs.Session.Completeness
import JointSchnorr.Proofs.SigningAlone

/-!
# What the last party controls

Whoever publishes last decides what the aggregates are: one point completes the other keys to a
given sum, and it can be published unless it is of small order (`exists_completing_iff`). The same
party can complete the shares to a given signature, for what is missing from accepted shares is
accepted for what is missing from their keys and nonces (`accepts_missing`). So it makes a session
of honest parties end with the signature that it signs alone, whatever their secrets are
(`last_party_controls_session`).
-/

namespace JointSchnorr

/-! ## What completes a sum -/

namespace PublicKey

variable {Xs : List PublicKey} {Y Z : PublicKey}

/-- What is missing from a list of keys to the sum `Y`. -/
def missing (Y : PublicKey) (Xs : List PublicKey) : PublicKey := ⟨Y.point - (Xs.map point).sum⟩

theorem aggregate_append_eq_ok_iff (hY : ¬ Y.point.IsSmallOrder) :
    aggregate (Xs ++ [Z]) = .ok Y ↔ Z = Y.missing Xs := by
  have hsum : ((Xs ++ [Z]).map point).sum = (Xs.map point).sum + Z.point := by
    rw [List.map_append, List.sum_append, List.map_singleton, List.sum_singleton]
  rw [aggregate_eq_ok_iff, hsum]
  constructor
  · rintro ⟨-, hpoint, -⟩
    rw [missing, hpoint, add_sub_cancel_left]
  · rintro rfl
    exact ⟨List.append_ne_nil_of_right_ne_nil _ (List.cons_ne_nil _ _),
      (add_sub_cancel _ _).symm, hY⟩

theorem exists_completing_iff (hY : ¬ Y.point.IsSmallOrder) :
    (∃ Z, ¬ Z.point.IsSmallOrder ∧ aggregate (Xs ++ [Z]) = .ok Y) ↔
      ¬ (Y.point - (Xs.map point).sum).IsSmallOrder := by
  constructor
  · rintro ⟨Z, hZ, hsum⟩
    rw [aggregate_append_eq_ok_iff hY] at hsum
    rw [hsum] at hZ
    exact hZ
  · intro h
    exact ⟨Y.missing Xs, h, (aggregate_append_eq_ok_iff hY).2 rfl⟩

theorem eq_missing_of_ofPoint (h : ofPoint (Y.point - (Xs.map point).sum) = .ok Z) :
    Z = Y.missing Xs := by
  cases Z
  exact congrArg PublicKey.mk (ofPoint_eq_ok_iff.1 h).1

/-- Honest multiples of the base point are completed unless the target is their sum. -/
theorem ofPoint_completing {α : Type} (X : α → PublicKey) (x : α → Scalar)
    (hX : ∀ p, (X p).point = x p • Point.base) {as : List α} {t : Scalar}
    (ht : t ≠ Scalar.sum (as.map x)) :
    ofPoint (t • Point.base - ((as.map X).map point).sum) =
      .ok ⟨(t - Scalar.sum (as.map x)) • Point.base⟩ := by
  rw [sum_multiples X x hX as, ← Point.sub_smul Point.N_nsmul_base]
  exact ofPoint_of_not_isSmallOrder
    (Point.isSmallOrder_smul_base_iff.not.2 (sub_ne_zero.2 ht))

end PublicKey

/-- What is missing from a list of shares to the signature `σ`. -/
def Signature.missing (σ : Signature) (shares : List Signature) : Signature :=
  ⟨σ.r, σ.s - Scalar.sum (shares.map (·.s))⟩

theorem Signature.sum_append_missing (σ : Signature) (shares : List Signature) :
    Scalar.sum ((shares ++ [σ.missing shares]).map (·.s)) = σ.s := by
  rw [List.map_append, Scalar.sum_append]
  show Scalar.sum (shares.map (·.s)) + (σ.s - Scalar.sum (shares.map (·.s)) + 0) = σ.s
  rw [add_zero, add_sub_cancel]

/-- What is missing from accepted shares is accepted for what is missing from their parties' keys
and nonces. -/
theorem Context.accepts_missing (c : Context) {entries : List ((PublicKey × PublicKey) × Signature)}
    {X R : PublicKey} {σ : Signature} (hσ : c.accepts X R σ = true)
    (h : ∀ e ∈ entries, c.accepts e.1.1 e.1.2 e.2 = true) :
    c.accepts (X.missing (entries.map (·.1.1))) (R.missing (entries.map (·.1.2)))
      (σ.missing (entries.map (·.2))) = true := by
  obtain ⟨hr, hs⟩ := c.accepts_eq_true_iff.1 hσ
  refine c.accepts_eq_true_iff.2 ⟨hr, ?_⟩
  simp only [PublicKey.missing, Signature.missing, List.map_map]
  rw [Point.sub_smul Point.N_nsmul_base, hs, Point.smul_sub, sub_add_sub_comm]
  exact congrArg _ (c.sum_accepted h)

/-! ## The rounds -/

namespace Aggregator

theorem AwaitingKeys.aggregateKeys_missing {a : AwaitingKeys} {X : PublicKey}
    (hX : ¬ X.point.IsSmallOrder) (Xs : List PublicKey) (hlen : Xs.length + 1 = a.parties) :
    a.aggregateKeys (Xs ++ [X.missing Xs]) =
      .ok ⟨a.parties, a.message, Xs ++ [X.missing Xs], X⟩ :=
  aggregateKeys_eq_ok_iff.2 ⟨List.length_append.trans hlen, X,
    (PublicKey.aggregate_append_eq_ok_iff hX).2 rfl, rfl⟩

theorem AwaitingNonces.aggregateNonces_missing {a : AwaitingNonces} {R : PublicKey}
    (hR : ¬ R.point.IsSmallOrder) (Rs : List PublicKey) (hlen : Rs.length + 1 = a.parties) :
    a.aggregateNonces (Rs ++ [R.missing Rs]) =
      .ok ⟨a.parties, a.message, a.keys, a.aggregateKey, Rs ++ [R.missing Rs], R⟩ :=
  aggregateNonces_eq_ok_iff.2 ⟨List.length_append.trans hlen, R,
    PublicKey.aggregateNonces_eq_ok_iff.2 ((PublicKey.aggregate_append_eq_ok_iff hR).2 rfl), rfl⟩

end Aggregator

namespace Aggregator.AwaitingShares

variable {n : Nat} {m : Bytes} {a : AwaitingShares}
  {es : List ((PublicKey × PublicKey) × Signature)} {X R : PublicKey} {σ τ : Signature}

theorem entries_append (hkeys : a.keys = es.map (·.1.1) ++ [X])
    (hnonces : a.nonces = es.map (·.1.2) ++ [R]) :
    a.entries (es.map (·.2) ++ [τ]) = es ++ [((X, R), τ)] := by
  rw [entries, hkeys, hnonces, List.zip_append (by rw [List.length_map, List.length_map]),
    List.zip_map', List.zip_append (by rw [List.length_map, List.length_map]), List.zip_map']
  simp

/-- Where the last party completes keys, nonces and shares, the third round ends with the signature
that it completes the shares to. -/
theorem aggregateSignatures_missing (inv : a.Invariant n m)
    (hkeys : a.keys = es.map (·.1.1) ++ [a.aggregateKey.missing (es.map (·.1.1))])
    (hnonces : a.nonces = es.map (·.1.2) ++ [a.aggregateNonce.missing (es.map (·.1.2))])
    (hall : ∀ e ∈ es, a.context.accepts e.1.1 e.1.2 e.2 = true)
    (hσ : a.context.accepts a.aggregateKey a.aggregateNonce σ = true) :
    a.aggregateSignatures (es.map (·.2) ++ [σ.missing (es.map (·.2))]) =
      .ok ⟨a.parties, a.message, a.aggregateKey, σ⟩ := by
  have hlen : (es.map (·.2) ++ [σ.missing (es.map (·.2))]).length = a.parties := by
    rw [inv.parties_eq, ← inv.keys.length_eq, hkeys]
    simp
  have hcombined : a.combined (es.map (·.2) ++ [σ.missing (es.map (·.2))]) = σ := by
    rw [combined, Signature.sum_append_missing]
    cases σ
    cases (a.context.accepts_eq_true_iff.1 hσ).1
    rfl
  rw [aggregateSignatures_eq inv hlen ?_, hcombined]
  rw [entries_append hkeys hnonces]
  intro e he
  rcases List.mem_append.1 he with he | he
  · exact hall e he
  · rw [List.mem_singleton.1 he]
    exact a.context.accepts_missing hσ hall

end Aggregator.AwaitingShares

/-! ## Sessions -/

/-- The share that completes the others to the signature that `y` makes alone with the nonce `k`. -/
def lastShare (y : PrivateKey) (k : Nonce) (m : Bytes) (shares : List Signature) : Signature :=
  ⟨k.publicNonce.encode, k.scalar +
    challenge k.publicNonce.encode y.publicKey.encode m * y.scalar -
      Scalar.sum (shares.map (·.s))⟩

theorem lastShare_eq_missing (y : PrivateKey) (k : Nonce) (m : Bytes) (shares : List Signature) :
    lastShare y k m shares = (y.signWith k m).missing shares := rfl

section Session

variable {n : Nat} {m : Bytes} {ps : List Signatory.AwaitingKey} {qs : List Signatory.AwaitingNonce}
  {X R : PublicKey} {y : PrivateKey} {k : Nonce}

/-- The keys, nonces and shares of honest parties under the aggregate nonce `R`. -/
def honestEntries (R : PublicKey) (qs : List Signatory.AwaitingNonce) :
    List ((PublicKey × PublicKey) × Signature) :=
  qs.map fun q => ((q.key.publicKey, q.nonce.publicNonce), (q.partialSign R).2)

theorem map_honestEntries_key (h : List.Forall₂ (·.Draws X) ps qs) :
    (honestEntries R qs).map (·.1.1) = ps.map (·.key.publicKey) := by
  rw [honestEntries, List.map_map]
  exact map_publicKey_of_draws h

theorem map_honestEntries_nonce :
    (honestEntries R qs).map (·.1.2) = qs.map (·.nonce.publicNonce) := by
  rw [honestEntries, List.map_map]
  rfl

theorem map_honestEntries_share :
    (honestEntries R qs).map (·.2) = qs.map fun q => (q.partialSign R).2 := by
  rw [honestEntries, List.map_map]
  rfl

theorem accepts_honestEntries (h : List.Forall₂ (·.Draws X) ps qs) (hm : ∀ p ∈ ps, p.message = m) :
    ∀ e ∈ honestEntries R qs, Context.accepts ⟨X, R, m⟩ e.1.1 e.1.2 e.2 = true := by
  intro e he
  obtain ⟨q, hq, rfl⟩ := List.mem_map.1 he
  obtain ⟨hmessage, hX⟩ := forall_mem_of_draws h hm q hq
  rw [← hmessage, ← hX]
  exact Context.accepts_share _ q.key q.nonce

open Aggregator in
/-- If the last party completes keys and nonces to the public parts of `y` and `k`, its share
completes the session to the signature that `y` makes with `k`. -/
theorem aggregateSignatures_lastShare {c : AwaitingShares} (inv : c.Invariant n m)
    (hqs : List.Forall₂ (·.Draws y.publicKey) ps qs)
    (hm : ∀ p ∈ ps, p.message = m) (hctx : c.context = ⟨y.publicKey, k.publicNonce, m⟩)
    (hkeys : c.keys = ps.map (·.key.publicKey) ++ [y.publicKey.missing (ps.map (·.key.publicKey))])
    (hnonces : c.nonces = qs.map (·.nonce.publicNonce) ++
      [k.publicNonce.missing (qs.map (·.nonce.publicNonce))]) :
    c.aggregateSignatures (qs.map (fun q => (q.partialSign k.publicNonce).2) ++
        [lastShare y k m (qs.map fun q => (q.partialSign k.publicNonce).2)]) =
      .ok ⟨c.parties, c.message, y.publicKey, y.signWith k m⟩ := by
  have hX : c.aggregateKey = y.publicKey := congrArg Context.key hctx
  have hR : c.aggregateNonce = k.publicNonce := congrArg Context.nonce hctx
  have hσ : c.context.accepts c.aggregateKey c.aggregateNonce (y.signWith k m) = true := by
    rw [hX, hR, hctx]
    exact Context.accepts_share _ y k
  have hall : ∀ e ∈ honestEntries k.publicNonce qs, c.context.accepts e.1.1 e.1.2 e.2 = true := by
    rw [hctx]
    exact accepts_honestEntries hqs hm
  have hround := AwaitingShares.aggregateSignatures_missing inv
    (by rw [map_honestEntries_key hqs, hX, hkeys]) (by rw [map_honestEntries_nonce, hR, hnonces])
    hall hσ
  rw [map_honestEntries_share, hX, ← lastShare_eq_missing] at hround
  exact hround

end Session

open Aggregator in
/-- **Control by the last party.** Whatever the other keys or nonces are, a point completes them to a
target unless what is missing is of small order. If the last of the parties publishes the points
that complete the aggregates to the public parts of `y` and `k`, and then the share that completes
the honest ones, all rounds succeed, the session ends with the signature that `y` makes with `k`,
and every honest party accepts it. -/
theorem last_party_controls_session :
    (∀ (Xs : List PublicKey) (Y : PublicKey), ¬ Y.point.IsSmallOrder →
      ((∃ Z, ¬ Z.point.IsSmallOrder ∧ PublicKey.aggregate (Xs ++ [Z]) = .ok Y) ↔
        ¬ (Y.point - (Xs.map PublicKey.point).sum).IsSmallOrder) ∧
      ((∃ Z, ¬ Z.point.IsSmallOrder ∧ PublicKey.aggregateNonces (Xs ++ [Z]) = .ok Y) ↔
        ¬ (Y.point - (Xs.map PublicKey.point).sum).IsSmallOrder)) ∧
    ∀ (m : Bytes) (ps : List Signatory.AwaitingKey), (∀ p ∈ ps, p.message = m) →
      ∀ (y : PrivateKey) (Z : PublicKey), PublicKey.ofPoint (y.publicKey.point -
        ((ps.map (·.key.publicKey)).map PublicKey.point).sum) = .ok Z →
      ∃ a b, start (ps.length + 1) m = .ok a ∧
        a.aggregateKeys (ps.map (·.key.publicKey) ++ [Z]) = .ok b ∧
        b.aggregateKey = y.publicKey ∧
        ∀ qs, List.Forall₂ (·.Draws b.aggregateKey) ps qs →
          ∀ (k : Nonce) (W : PublicKey), PublicKey.ofPoint (k.publicNonce.point -
            ((qs.map (·.nonce.publicNonce)).map PublicKey.point).sum) = .ok W →
          ∃ c, b.aggregateNonces (qs.map (·.nonce.publicNonce) ++ [W]) = .ok c ∧
            c.aggregateNonce = k.publicNonce ∧
            ∀ shares, shares = qs.map (fun q => (q.partialSign c.aggregateNonce).2) →
            ∃ f, c.aggregateSignatures (shares ++ [lastShare y k m shares]) = .ok f ∧
              y.signFromScalar k.encode.toList m = .ok f.signature ∧
              List.Forall₂ (fun p q => (q.partialSign c.aggregateNonce).1.accept f.signature =
                .ok ⟨p.key, m, y.publicKey, f.signature⟩) ps qs := by
  refine ⟨fun Xs Y hY => ⟨PublicKey.exists_completing_iff hY, ?_⟩, ?_⟩
  · simp only [PublicKey.aggregateNonces_eq_ok_iff]
    exact PublicKey.exists_completing_iff hY
  intro m ps hm y Z hZ
  obtain rfl := PublicKey.eq_missing_of_ofPoint hZ
  have hstart : start (ps.length + 1) m = .ok ⟨ps.length + 1, m⟩ :=
    start_eq_ok_iff.2 ⟨Nat.succ_pos _, rfl⟩
  have hround₁ := AwaitingKeys.aggregateKeys_missing (a := ⟨ps.length + 1, m⟩) y.not_isSmallOrder
    (ps.map (·.key.publicKey)) (by rw [List.length_map])
  refine ⟨_, _, hstart, hround₁, rfl, ?_⟩
  intro qs hqs k W hW
  obtain rfl := PublicKey.eq_missing_of_ofPoint hW
  have hround₂ := AwaitingNonces.aggregateNonces_missing (a := ⟨ps.length + 1, m,
      ps.map (·.key.publicKey) ++ [y.publicKey.missing (ps.map (·.key.publicKey))], y.publicKey⟩)
    k.not_isSmallOrder (qs.map (·.nonce.publicNonce)) (by rw [List.length_map, hqs.length_eq])
  refine ⟨_, hround₂, rfl, ?_⟩
  rintro _ rfl
  -- the third round, from the invariant of the state that the first two lead to
  have inv := (((Reached.start hstart).keys hround₁).nonces hround₂).invariant
  have hround₃ := aggregateSignatures_lastShare inv hqs hm rfl rfl rfl
  have hr : (y.signWith k m).r = k.publicNonce.encode := rfl
  exact ⟨_, hround₃, PrivateKey.signFromScalar_of_decode k.decode_encode,
    accept_of_draws hqs hm hr (y.verify_signWith k m)⟩

/-! Two honest parties, and a third that completes their session to its own signature. -/

def firstKeys : List Signatory.AwaitingKey := pairKeys ⟨25, by decide⟩ ⟨27, by decide⟩

def firstNonces (X : PublicKey) : List Signatory.AwaitingNonce :=
  pairNonces ⟨25, by decide⟩ ⟨27, by decide⟩ X ⟨29, by decide⟩ ⟨31, by decide⟩

def lastKey : PrivateKey := ⟨⟨33, by decide⟩⟩

def lastNonce : Nonce := ⟨⟨35, by decide⟩⟩

theorem ofPoint_firstKeys : ∃ Z, PublicKey.ofPoint (lastKey.publicKey.point -
    ((firstKeys.map (·.key.publicKey)).map PublicKey.point).sum) = .ok Z :=
  ⟨_, PublicKey.ofPoint_completing (fun p : Signatory.AwaitingKey => p.key.publicKey)
    (·.key.scalar) (fun p => p.key.publicKey_point) (by decide)⟩

theorem ofPoint_firstNonces (X : PublicKey) : ∃ W, PublicKey.ofPoint (lastNonce.publicNonce.point -
    (((firstNonces X).map (·.nonce.publicNonce)).map PublicKey.point).sum) = .ok W :=
  ⟨_, PublicKey.ofPoint_completing (fun q : Signatory.AwaitingNonce => q.nonce.publicNonce)
    (·.nonce.scalar) (fun q => q.nonce.publicNonce_point)
    (by rw [firstNonces, sum_pairNonces]; decide)⟩

open Aggregator in
theorem last_party_controls_session_pair :
    (∃ Z, ¬ Z.point.IsSmallOrder ∧
      PublicKey.aggregate (firstKeys.map (·.key.publicKey) ++ [Z]) = .ok lastKey.publicKey) ∧
    ∃ Z W a b c f, start 3 [104, 105] = .ok a ∧
      a.aggregateKeys (firstKeys.map (·.key.publicKey) ++ [Z]) = .ok b ∧
      b.aggregateNonces ((firstNonces b.aggregateKey).map (·.nonce.publicNonce) ++ [W]) = .ok c ∧
      (∃ shares, shares = (firstNonces b.aggregateKey).map
          (fun q => (q.partialSign c.aggregateNonce).2) ∧
        c.aggregateSignatures (shares ++ [lastShare lastKey lastNonce [104, 105] shares]) = .ok f) ∧
      lastKey.signFromScalar lastNonce.encode.toList [104, 105] = .ok f.signature := by
  obtain ⟨Z, hZ⟩ := ofPoint_firstKeys
  obtain ⟨htarget, hsession⟩ := last_party_controls_session
  refine ⟨(htarget _ _ lastKey.not_isSmallOrder).1.2 (PublicKey.ofPoint_eq_ok_iff.1 hZ).2, ?_⟩
  obtain ⟨a, b, ha, hb, -, hnonces⟩ :=
    hsession _ _ (message_pairKeys ⟨25, by decide⟩ ⟨27, by decide⟩) lastKey Z hZ
  obtain ⟨W, hW⟩ := ofPoint_firstNonces b.aggregateKey
  obtain ⟨c, hc, -, hshares⟩ := hnonces _ (draws_pairNonces ⟨25, by decide⟩ ⟨27, by decide⟩ _
    ⟨29, by decide⟩ ⟨31, by decide⟩) lastNonce W hW
  obtain ⟨f, hf, hsign, -⟩ := hshares _ rfl
  exact ⟨Z, W, a, b, c, f, ha, hb, hc, ⟨_, rfl, hf⟩, hsign⟩

end JointSchnorr
