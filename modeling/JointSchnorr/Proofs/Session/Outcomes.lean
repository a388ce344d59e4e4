import Mathlib
import JointSchnorr.Proofs.Outcome
import JointSchnorr.Proofs.Session.Blame
import JointSchnorr.Proofs.Session.Soundness

/-!
# What an aggregator keeps, and how its rounds can end

An aggregator keeps what it was opened with and the lists of its rounds as they came, each beside
its exact sum (`After.kept`). Of this follows how the rounds can end (`kept_state_outcomes`). The
count of a round is judged first and there is at least one party, so no round finds its list empty.
The shares are walked through by position (`walk`), and the key and the nonce of each position are
there to be looked up. And once the walk has passed all shares, they cannot fail to combine.
-/

namespace JointSchnorr.Aggregator

variable {n : Nat} {m : Bytes}

/-! ## States and the rounds behind them -/

/-- What a round is given. -/
inductive Round where
  | keys (Xs : List PublicKey)
  | nonces (Rs : List PublicKey)
  | shares (σs : List Signature)

/-- The states that successful rounds lead to, with the rounds. -/
inductive After (n : Nat) (m : Bytes) : List Round → Aggregator → Prop where
  | start {a : AwaitingKeys} (h : start n m = .ok a) : After n m [] (.awaitingKeys a)
  | keys {rounds : List Round} {a : AwaitingKeys} {b : AwaitingNonces} {Xs : List PublicKey}
      (ha : After n m rounds (.awaitingKeys a)) (h : a.aggregateKeys Xs = .ok b) :
      After n m (rounds ++ [.keys Xs]) (.awaitingNonces b)
  | nonces {rounds : List Round} {a : AwaitingNonces} {b : AwaitingShares} {Rs : List PublicKey}
      (ha : After n m rounds (.awaitingNonces a)) (h : a.aggregateNonces Rs = .ok b) :
      After n m (rounds ++ [.nonces Rs]) (.awaitingShares b)
  | shares {rounds : List Round} {a : AwaitingShares} {b : Finalized} {σs : List Signature}
      (ha : After n m rounds (.awaitingShares a)) (h : a.aggregateSignatures σs = .ok b) :
      After n m (rounds ++ [.shares σs]) (.finalized b)

/-- What an aggregator keeps of its rounds. -/
inductive Kept (n : Nat) (m : Bytes) : List Round → Aggregator → Prop where
  | start : Kept n m [] (.awaitingKeys ⟨n, m⟩)
  | keys {Xs : List PublicKey} {X : PublicKey} (hX : SumsUp n Xs X) :
      Kept n m [.keys Xs] (.awaitingNonces ⟨n, m, Xs, X⟩)
  | nonces {Xs Rs : List PublicKey} {X R : PublicKey} (hX : SumsUp n Xs X) (hR : SumsUp n Rs R) :
      Kept n m [.keys Xs, .nonces Rs] (.awaitingShares ⟨n, m, Xs, X, Rs, R⟩)
  | shares {Xs Rs : List PublicKey} {X : PublicKey} {σs : List Signature} {σ : Signature}
      (hX : SumsUp n Xs X) :
      Kept n m [.keys Xs, .nonces Rs, .shares σs] (.finalized ⟨n, m, X, σ⟩)

theorem After.kept {rounds : List Round} {a : Aggregator} (h : After n m rounds a) :
    0 < n ∧ Kept n m rounds a := by
  induction h with
  | start h =>
    obtain ⟨hpos, rfl⟩ := start_eq_ok_iff.1 h
    exact ⟨hpos, .start⟩
  | keys _ h ih =>
    obtain ⟨hpos, hkept⟩ := ih
    cases hkept with
    | start =>
      obtain ⟨hl, X, hX, rfl⟩ := AwaitingKeys.aggregateKeys_eq_ok_iff.1 h
      exact ⟨hpos, .keys (.of_aggregate hl hX)⟩
  | nonces _ h ih =>
    obtain ⟨hpos, hkept⟩ := ih
    cases hkept with
    | keys hX =>
      obtain ⟨hl, R, hR, rfl⟩ := AwaitingNonces.aggregateNonces_eq_ok_iff.1 h
      exact ⟨hpos, .nonces hX (.of_aggregate hl (PublicKey.aggregateNonces_eq_ok_iff.1 hR))⟩
  | shares _ h ih =>
    obtain ⟨hpos, hkept⟩ := ih
    cases hkept with
    | nonces hX hR =>
      obtain ⟨-, -, rfl⟩ := (AwaitingShares.aggregateSignatures_eq_ok_iff
        ⟨hpos, rfl, rfl, hX, hR⟩).1 h
      exact ⟨hpos, .shares hX⟩

end JointSchnorr.Aggregator

/-! ## The first two rounds -/

namespace JointSchnorr.PublicKey

theorem eq_invalidKey_of_aggregate {Xs : List PublicKey} {e : Error} (hne : Xs ≠ [])
    (h : aggregate Xs = .error e) : e = .invalidKey := by
  rw [aggregate_eq hne] at h
  exact (ofPoint_eq_error_iff.1 h).1

theorem eq_invalidNonce_of_aggregateNonces {Rs : List PublicKey} {e : Error} (hne : Rs ≠ [])
    (h : aggregateNonces Rs = .error e) : e = .invalidNonce := by
  unfold aggregateNonces at h
  split at h
  · exact (Except.error.inj h).symm
  · next hother =>
    obtain rfl := eq_invalidKey_of_aggregate hne h
    exact absurd h hother

end JointSchnorr.PublicKey

namespace JointSchnorr.Aggregator

variable {n : Nat} {m : Bytes} {e : Error}

theorem AwaitingKeys.eq_of_aggregateKeys_error {a : AwaitingKeys} (hpos : 0 < a.parties)
    {Xs : List PublicKey} (h : a.aggregateKeys Xs = .error e) :
    e = .mismatchedCount a.parties Xs.length ∨ e = .invalidKey := by
  by_cases hl : Xs.length = a.parties
  · have hne : Xs ≠ [] := List.length_pos_iff.1 (hl ▸ hpos)
    rw [aggregateKeys_eq hl] at h
    exact .inr (PublicKey.eq_invalidKey_of_aggregate hne (map_eq_error_iff.1 h))
  · rw [aggregateKeys, expectCount, if_neg hl] at h
    exact .inl (Except.error.inj h).symm

theorem AwaitingNonces.eq_of_aggregateNonces_error {a : AwaitingNonces} (hpos : 0 < a.parties)
    {Rs : List PublicKey} (h : a.aggregateNonces Rs = .error e) :
    e = .mismatchedCount a.parties Rs.length ∨ e = .invalidNonce := by
  by_cases hl : Rs.length = a.parties
  · have hne : Rs ≠ [] := List.length_pos_iff.1 (hl ▸ hpos)
    rw [aggregateNonces_eq hl] at h
    exact .inr (PublicKey.eq_invalidNonce_of_aggregateNonces hne (map_eq_error_iff.1 h))
  · rw [aggregateNonces, expectCount, if_neg hl] at h
    exact .inl (Except.error.inj h).symm

/-! ## The third round -/

namespace AwaitingShares

theorem aggregateSignatures_of_length_ne {a : AwaitingShares} {σs : List Signature}
    (hl : σs.length ≠ a.parties) :
    a.aggregateSignatures σs = .error (.mismatchedCount a.parties σs.length) := by
  rw [aggregateSignatures, expectCount, if_neg hl]
  rfl

/-- On one share for each party the third round ends as the walk does. -/
theorem aggregateSignatures_of_walk {a : AwaitingShares} (inv : a.Invariant n m)
    {σs : List Signature} (hl : σs.length = n) :
    (a.walk 0 σs = .passed ∧ ∃ f, a.aggregateSignatures σs = .ok f) ∨
      ∃ i, a.walk 0 σs = .refused i ∧
        a.aggregateSignatures σs = .error (.invalidPartialSignature i) := by
  have hparties : σs.length = a.parties := hl.trans inv.parties_eq.symm
  rw [walk_eq_firstBad? inv hparties]
  cases hbad : a.firstBad? σs with
  | none =>
    exact .inl ⟨rfl, _, aggregateSignatures_eq inv hparties (firstBad?_eq_none_iff.1 hbad)⟩
  | some i => exact .inr ⟨i, rfl, aggregateSignatures_of_firstBad? inv hparties hbad⟩

end AwaitingShares

/-- **States and outcomes.** After any successful rounds an aggregator for `n` parties and `m` keeps
`n` and `m`, and its lists are those of the rounds, one item for each party, beside their exact
sums, which are not of small order. So its next round ends in one of the ways told here: the first
two rounds with a wrong count or a sum of small order, or well; the third with a wrong count if
there is one, and else with the walk through the shares, which looks up nothing out of range. -/
theorem kept_state_outcomes {rounds : List Round} {a : Aggregator} (h : After n m rounds a) :
    (1 ≤ n ∧ a.parties = n ∧ a.message = m ∧ Kept n m rounds a) ∧
    (∀ b, a = .awaitingKeys b → ∀ Xs e, b.aggregateKeys Xs = .error e →
      e = .mismatchedCount n Xs.length ∨ e = .invalidKey) ∧
    (∀ b, a = .awaitingNonces b → ∀ Rs e, b.aggregateNonces Rs = .error e →
      e = .mismatchedCount n Rs.length ∨ e = .invalidNonce) ∧
    ∀ b, a = .awaitingShares b → ∀ σs,
      (b.aggregateSignatures σs = .error (.mismatchedCount n σs.length) ↔ σs.length ≠ n) ∧
      (σs.length = n →
        (b.walk 0 σs = .passed ∧ ∃ f, b.aggregateSignatures σs = .ok f) ∨
          ∃ i, b.walk 0 σs = .refused i ∧
            b.aggregateSignatures σs = .error (.invalidPartialSignature i)) := by
  obtain ⟨hpos, hkept⟩ := h.kept
  refine ⟨⟨hpos, ?_, ?_, hkept⟩, ?_, ?_, ?_⟩
  · cases hkept <;> rfl
  · cases hkept <;> rfl
  · rintro b rfl Xs e he
    cases hkept with
    | start => exact AwaitingKeys.eq_of_aggregateKeys_error hpos he
  · rintro b rfl Rs e he
    cases hkept with
    | keys hX => exact AwaitingNonces.eq_of_aggregateNonces_error hpos he
  · rintro b rfl σs
    cases hkept with
    | nonces hX hR =>
      have inv : AwaitingShares.Invariant n m ⟨n, m, _, _, _, _⟩ := ⟨hpos, rfl, rfl, hX, hR⟩
      have hwalk := fun hl : σs.length = n => AwaitingShares.aggregateSignatures_of_walk inv hl
      refine ⟨⟨?_, ?_⟩, hwalk⟩
      · intro herror hl
        rcases hwalk hl with ⟨-, f, hf⟩ | ⟨i, -, hi⟩
        · exact absurd (herror.symm.trans hf) (by simp)
        · exact absurd (herror.symm.trans hi) (by simp)
      · intro hl
        exact AwaitingShares.aggregateSignatures_of_length_ne (a := ⟨n, m, _, _, _, _⟩) hl

/-! The mixed session before its third round, given no shares, its own, and its own in the other
order. -/

theorem after_mixedSession :
    After 2 [104, 105] [.keys mixedKeys, .nonces mixedNonces] (.awaitingShares mixedSession) :=
  ((After.start start_mixed).keys aggregateKeys_mixed).nonces aggregateNonces_mixed

theorem walk_mixedShares_reverse : mixedSession.walk 0 mixedShares.reverse = .refused 0 := by
  decide +kernel

theorem kept_state_outcomes_mixed :
    After 2 [104, 105] [.keys mixedKeys, .nonces mixedNonces] (.awaitingShares mixedSession) ∧
    Kept 2 [104, 105] [.keys mixedKeys, .nonces mixedNonces] (.awaitingShares mixedSession) ∧
    mixedSession.aggregateSignatures [] = .error (.mismatchedCount 2 0) ∧
    mixedSession.walk 0 mixedShares = .passed ∧
    mixedSession.aggregateSignatures mixedShares.reverse = .error (.invalidPartialSignature 0) := by
  obtain ⟨⟨-, -, -, hkept⟩, -, -, houtcomes⟩ := kept_state_outcomes after_mixedSession
  have hwalks := houtcomes _ rfl
  refine ⟨after_mixedSession, hkept, (hwalks []).1.2 (by decide), ?_, ?_⟩
  · rcases (hwalks mixedShares).2 rfl with ⟨hpassed, -⟩ | ⟨i, -, herror⟩
    · exact hpassed
    · exact absurd (aggregateSignatures_mixed.symm.trans herror) (by simp)
  · rcases (hwalks mixedShares.reverse).2 rfl with ⟨hpassed, -⟩ | ⟨i, hi, herror⟩
    · exact absurd (walk_mixedShares_reverse.symm.trans hpassed) (by simp)
    · obtain rfl := AwaitingShares.WalkEnd.refused.inj (walk_mixedShares_reverse.symm.trans hi)
      exact herror

end JointSchnorr.Aggregator
