import Mathlib
import JointSchnorr.Proofs.Session.Rounds

/-!
# Whom the third round blames

The third round names the first position whose share is not accepted. Where the stored keys and
nonces are the public parts of secrets (`HeldBy`), a share is accepted exactly if it is the one that
the secrets sign, so the round succeeds on the honest shares alone and otherwise names the first
share that is not honest (`first_altered_share_blamed`). Changes that cancel in the sum of the
responses do not pass either.
-/

namespace JointSchnorr

/-- A search along two lists of one length finds the least position at which they differ. -/
theorem findIdx?_zip_eq_some_iff {α β : Type} [DecidableEq β] {f : α → β} {as : List α}
    {bs : List β} (hl : bs.length = as.length) {i : Nat} :
    (as.zip bs).findIdx? (fun e => e.2 ≠ f e.1) = some i ↔
      IsLeast {j | bs[j]? ≠ (as.map f)[j]?} i := by
  have hset : {j : Nat | ∃ e : α × β, (as.zip bs)[j]? = some e ∧ decide (e.2 ≠ f e.1) = true} =
      {j : Nat | bs[j]? ≠ (as.map f)[j]?} := by
    ext j
    -- past the end of both lists there is nothing that could differ
    by_cases hj : j < as.length
    · have hj' : j < bs.length := hl ▸ hj
      simp [hj, hj']
    · have hj' : ¬ j < bs.length := hl ▸ hj
      simp [hj, hj']
  rw [findIdx?_eq_some_iff_isLeast, hset]

/-- Lists that are not equal have a least position at which they differ. -/
theorem exists_isLeast_of_ne {β : Type} {as bs : List β} (h : as ≠ bs) :
    ∃ i, IsLeast {j : Nat | as[j]? ≠ bs[j]?} i := by
  have hne : {j : Nat | as[j]? ≠ bs[j]?}.Nonempty := by
    by_contra hempty
    exact h (List.ext_getElem? fun j => not_not.1 fun hj => hempty ⟨j, hj⟩)
  exact ⟨_, Nat.sInf_mem hne, fun _ hj => Nat.sInf_le hj⟩

section Shifts

variable {σs : List Signature} {i j : Nat} {d : Scalar}

open Fin.CommRing in
theorem sum_modify_shift (h : i < σs.length) :
    Scalar.sum ((σs.modify i (·.shift d)).map (·.s)) = Scalar.sum (σs.map (·.s)) + d := by
  induction σs generalizing i with
  | nil => exact absurd h (Nat.not_lt_zero i)
  | cons σ σs ih =>
    cases i with
    | zero =>
      show σ.s + d + Scalar.sum (σs.map (·.s)) = σ.s + Scalar.sum (σs.map (·.s)) + d
      ring
    | succ i =>
      show σ.s + Scalar.sum ((σs.modify i (·.shift d)).map (·.s)) =
        σ.s + Scalar.sum (σs.map (·.s)) + d
      rw [ih (Nat.lt_of_succ_lt_succ h), add_assoc]

/-- The responses at two positions moved apart by the same scalar. -/
def cancelling (σs : List Signature) (i j : Nat) (d : Scalar) : List Signature :=
  (σs.modify i (·.shift d)).modify j (·.shift (-d))

theorem length_cancelling : (cancelling σs i j d).length = σs.length := by
  rw [cancelling, List.length_modify, List.length_modify]

theorem sum_cancelling (hi : i < σs.length) (hj : j < σs.length) :
    Scalar.sum ((cancelling σs i j d).map (·.s)) = Scalar.sum (σs.map (·.s)) := by
  rw [cancelling, sum_modify_shift (by rwa [List.length_modify]), sum_modify_shift hi,
    add_neg_cancel_right]

theorem isLeast_modify_shift (hi : i < σs.length) (hd : d ≠ 0) :
    IsLeast {k : Nat | (σs.modify i (·.shift d))[k]? ≠ σs[k]?} i := by
  constructor
  · show (σs.modify i (·.shift d))[i]? ≠ σs[i]?
    rw [List.getElem?_modify_eq, List.getElem?_eq_getElem hi]
    intro h
    have hs : σs[i].s + d = σs[i].s := congrArg Signature.s (Option.some.inj h)
    exact hd (add_eq_left.1 hs)
  · intro k hk
    by_contra hki
    exact hk (List.getElem?_modify_ne _ _ (Nat.ne_of_gt (Nat.lt_of_not_le hki)))

/-- The second change lies behind the first one, which decides. -/
theorem isLeast_cancelling (hij : i < j) (hj : j < σs.length) (hd : d ≠ 0) :
    IsLeast {k : Nat | (cancelling σs i j d)[k]? ≠ σs[k]?} i := by
  have hfirst := isLeast_modify_shift (hij.trans hj) hd
  have hget : ∀ k < j, (cancelling σs i j d)[k]? = (σs.modify i (·.shift d))[k]? := by
    intro k hk
    rw [cancelling, List.getElem?_modify_ne _ _ (Nat.ne_of_gt hk)]
  constructor
  · show (cancelling σs i j d)[i]? ≠ σs[i]?
    rw [hget i hij]
    exact hfirst.1
  · intro k hk
    by_contra hki
    have hlt : k < j := (Nat.lt_of_not_le hki).trans hij
    have hk' : (σs.modify i (·.shift d))[k]? ≠ σs[k]? := by
      rw [← hget k hlt]
      exact hk
    exact hki (hfirst.2 hk')

end Shifts

namespace Aggregator

variable {n : Nat} {m : Bytes} {a : AwaitingShares} {ps : List (PrivateKey × Nonce)}
  {shares : List Signature} {i : Nat}

namespace AwaitingShares

/-- The stored keys and nonces are the public parts of these secrets. -/
structure HeldBy (a : AwaitingShares) (ps : List (PrivateKey × Nonce)) : Prop where
  keys_eq : a.keys = ps.map (·.1.publicKey)
  nonces_eq : a.nonces = ps.map (·.2.publicNonce)

/-- The shares that the secrets sign under the stored aggregates. -/
def honestShares (a : AwaitingShares) (ps : List (PrivateKey × Nonce)) : List Signature :=
  ps.map fun p => a.context.share p.1 p.2

theorem firstBad?_of_heldBy (held : a.HeldBy ps) :
    a.firstBad? shares = (ps.zip shares).findIdx? fun e => e.2 ≠ a.context.share e.1.1 e.1.2 := by
  rw [firstBad?, entries, held.keys_eq, held.nonces_eq, List.zip_map', List.zip_map_left, List.findIdx?_map]
  congr 1
  funext e
  show (!a.context.accepts e.1.1.publicKey e.1.2.publicNonce e.2) = _
  rw [Bool.eq_iff_iff, decide_eq_true_iff, Ne, ← Context.accepts_iff_eq_share, Bool.not_eq_true']
  exact Bool.eq_false_iff

/-- The third round blames the first share that is not honest. -/
theorem aggregateSignatures_of_isLeast (inv : a.Invariant n m) (held : a.HeldBy ps)
    (hl : shares.length = n)
    (hi : IsLeast {j : Nat | shares[j]? ≠ (a.honestShares ps)[j]?} i) :
    a.aggregateSignatures shares = .error (.invalidPartialSignature i) := by
  have hps : shares.length = ps.length := by
    rw [hl, ← inv.keys.length_eq, held.keys_eq, List.length_map]
  refine aggregateSignatures_of_firstBad? inv (hl.trans inv.parties_eq.symm) ?_
  rw [firstBad?_of_heldBy held]
  exact (findIdx?_zip_eq_some_iff hps).2 hi

theorem aggregateSignatures_honestShares (inv : a.Invariant n m) (held : a.HeldBy ps) :
    a.aggregateSignatures (a.honestShares ps) =
      .ok ⟨a.parties, a.message, a.aggregateKey, a.combined (a.honestShares ps)⟩ := by
  have hps : (a.honestShares ps).length = ps.length := List.length_map _
  have hl : (a.honestShares ps).length = a.parties := by
    rw [hps, inv.parties_eq, ← inv.keys.length_eq, held.keys_eq, List.length_map]
  refine aggregateSignatures_eq inv hl (firstBad?_eq_none_iff.1 ?_)
  rw [firstBad?_of_heldBy held]
  cases hbad : (ps.zip (a.honestShares ps)).findIdx? _ with
  | none => rfl
  | some i => exact absurd rfl ((findIdx?_zip_eq_some_iff hps).1 hbad).1

end AwaitingShares

/-- **Exact blame.** Under keys and nonces of known secrets the third round succeeds on the honest
shares and on nothing else: it names the first share that is not honest, also where the changes
cancel in the sum. -/
theorem first_altered_share_blamed (ha : Reached n m (.awaitingShares a)) (held : a.HeldBy ps) :
    (∀ shares : List Signature, shares.length = n →
      ((∃ f, a.aggregateSignatures shares = .ok f) ↔ shares = a.honestShares ps) ∧
      (shares ≠ a.honestShares ps →
        ∃ i, IsLeast {j : Nat | shares[j]? ≠ (a.honestShares ps)[j]?} i ∧
          a.aggregateSignatures shares = .error (.invalidPartialSignature i))) ∧
    ∀ i j d, i < j → j < n → d ≠ 0 →
      Scalar.sum ((cancelling (a.honestShares ps) i j d).map (·.s)) =
        Scalar.sum ((a.honestShares ps).map (·.s)) ∧
      a.aggregateSignatures (cancelling (a.honestShares ps) i j d) =
        .error (.invalidPartialSignature i) := by
  have inv : a.Invariant n m := ha.invariant
  have hlen : (a.honestShares ps).length = n := by
    rw [← inv.keys.length_eq, held.keys_eq, AwaitingShares.honestShares, List.length_map,
      List.length_map]
  constructor
  · intro shares hl
    have hblame : shares ≠ a.honestShares ps →
        ∃ i, IsLeast {j : Nat | shares[j]? ≠ (a.honestShares ps)[j]?} i ∧
          a.aggregateSignatures shares = .error (.invalidPartialSignature i) := by
      intro hne
      obtain ⟨i, hi⟩ := exists_isLeast_of_ne hne
      exact ⟨i, hi, AwaitingShares.aggregateSignatures_of_isLeast inv held hl hi⟩
    refine ⟨⟨?_, ?_⟩, hblame⟩
    · rintro ⟨f, hf⟩
      by_contra hne
      obtain ⟨i, -, herror⟩ := hblame hne
      rw [hf] at herror
      exact absurd herror (by simp)
    · rintro rfl
      exact ⟨_, AwaitingShares.aggregateSignatures_honestShares inv held⟩
  · intro i j d hij hj hd
    rw [← hlen] at hj
    refine ⟨sum_cancelling (hij.trans hj) hj, ?_⟩
    exact AwaitingShares.aggregateSignatures_of_isLeast inv held (length_cancelling.trans hlen)
      (isLeast_cancelling hij hj hd)

/-! Secrets whose sums are not zero hold a session. In one of two parties the honest shares pass, and
neither a forged second share nor two changes that cancel do. -/

section Secrets

variable (m : Bytes) (ps : List (PrivateKey × Nonce))

/-- The session of the parties with these secrets. -/
def ofSecrets : AwaitingShares :=
  ⟨ps.length, m, ps.map (·.1.publicKey), ⟨Scalar.sum (ps.map (·.1.scalar)) • Point.base⟩,
    ps.map (·.2.publicNonce), ⟨Scalar.sum (ps.map (·.2.scalar)) • Point.base⟩⟩

theorem heldBy_ofSecrets : (ofSecrets m ps).HeldBy ps := ⟨rfl, rfl⟩

theorem reached_ofSecrets (hne : ps ≠ []) (hkey : Scalar.sum (ps.map (·.1.scalar)) ≠ 0)
    (hnonce : Scalar.sum (ps.map (·.2.scalar)) ≠ 0) :
    Reached ps.length m (.awaitingShares (ofSecrets m ps)) := by
  have hstart : start ps.length m = .ok ⟨ps.length, m⟩ :=
    start_eq_ok_iff.2 ⟨List.length_pos_iff.2 hne, rfl⟩
  have hkeys := PublicKey.aggregate_multiples (fun p : PrivateKey × Nonce => p.1.publicKey)
    (·.1.scalar) (fun p => p.1.publicKey_point) hne
  have hnonces := PublicKey.aggregateNonces_multiples
    (fun p : PrivateKey × Nonce => p.2.publicNonce) (·.2.scalar)
    (fun p => p.2.publicNonce_point) hne
  rw [if_neg hkey] at hkeys
  rw [if_neg hnonce] at hnonces
  have hround₁ : AwaitingKeys.aggregateKeys ⟨ps.length, m⟩ (ps.map (·.1.publicKey)) =
      .ok ⟨ps.length, m, ps.map (·.1.publicKey), (ofSecrets m ps).aggregateKey⟩ :=
    AwaitingKeys.aggregateKeys_eq_ok_iff.2 ⟨List.length_map _, _, hkeys, rfl⟩
  exact ((Reached.start hstart).keys hround₁).nonces
    (AwaitingNonces.aggregateNonces_eq_ok_iff.2 ⟨List.length_map _, _, hnonces, rfl⟩)

end Secrets

def pairSecrets : List (PrivateKey × Nonce) :=
  [(⟨⟨6, by decide⟩⟩, ⟨⟨2, by decide⟩⟩), (⟨⟨7, by decide⟩⟩, ⟨⟨4, by decide⟩⟩)]

def pairSession : AwaitingShares := ofSecrets [104, 105] pairSecrets

theorem reached_pairSession : Reached 2 [104, 105] (.awaitingShares pairSession) :=
  reached_ofSecrets _ pairSecrets (by decide) (by decide) (by decide)

def forgedShares : List Signature :=
  (pairSession.honestShares pairSecrets).modify 1 (·.shift 1)

theorem first_altered_share_blamed_pair :
    Reached 2 [104, 105] (.awaitingShares pairSession) ∧ pairSession.HeldBy pairSecrets ∧
    (∃ f, pairSession.aggregateSignatures (pairSession.honestShares pairSecrets) = .ok f) ∧
    pairSession.aggregateSignatures forgedShares = .error (.invalidPartialSignature 1) ∧
    pairSession.aggregateSignatures (cancelling (pairSession.honestShares pairSecrets) 0 1 9) =
      .error (.invalidPartialSignature 0) := by
  have held : pairSession.HeldBy pairSecrets := heldBy_ofSecrets _ _
  obtain ⟨hshares, hcancel⟩ := first_altered_share_blamed reached_pairSession held
  have hforged : IsLeast {j : Nat | forgedShares[j]? ≠
      (pairSession.honestShares pairSecrets)[j]?} 1 :=
    isLeast_modify_shift (by decide) (by decide)
  obtain ⟨i, hi, herror⟩ := (hshares forgedShares rfl).2 fun h => hforged.1 (by rw [h])
  rw [hi.unique hforged] at herror
  exact ⟨reached_pairSession, held, (hshares _ rfl).1.2 rfl, herror,
    (hcancel 0 1 9 (by decide) (by decide) (by decide)).2⟩

end Aggregator

end JointSchnorr
