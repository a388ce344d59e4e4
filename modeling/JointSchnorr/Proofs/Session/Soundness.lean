import Mathlib
import JointSchnorr.Proofs.Encoding.Signature
import JointSchnorr.Proofs.Session.Rounds

/-!
# What a finished session guarantees

The aggregator never verifies the signature that it combines. It need not: whatever keys, nonces
and shares it was given, a signature that leaves the third round is valid under the aggregate key,
carries the aggregate nonce, and is read back from its bytes (`finalized_signature_valid`). Keys
and nonces may have parts outside the group of the base point, as long as these cancel in each
share's own equation (`accepts_mixed`).
-/

namespace JointSchnorr

namespace Context

/-- A share for a key and a nonce with parts `T` and `U` outside the multiples of the base point is
accepted when these parts cancel. -/
theorem accepts_mixed (c : Context) (x k : Scalar) {T U : Point} (h : U + c.challenge • T = 0) :
    c.accepts ⟨x • Point.base + T⟩ ⟨k • Point.base + U⟩ ⟨c.nonce.encode, k + c.challenge * x⟩ =
      true := by
  refine c.accepts_eq_true_iff.2 ⟨rfl, ?_⟩
  show (k + c.challenge * x) • Point.base =
    k • Point.base + U + c.challenge • (x • Point.base + T)
  calc (k + c.challenge * x) • Point.base
      = k • Point.base + c.challenge • x • Point.base + (U + c.challenge • T) := by
        rw [h, add_zero, Point.add_smul_base, Point.mul_smul_base]
    _ = k • Point.base + U + (c.challenge • x • Point.base + c.challenge • T) := by
        rw [add_add_add_comm]
    _ = k • Point.base + U + c.challenge • (x • Point.base + T) := by rw [Point.smul_add]

end Context

namespace Aggregator

variable {n : Nat} {m : Bytes} {a : AwaitingKeys} {b : AwaitingNonces} {c : AwaitingShares}
  {f : Finalized} {Xs Rs : List PublicKey} {shares : List Signature}

theorem invariant_of_rounds (hstart : start n m = .ok a) (hkeys : a.aggregateKeys Xs = .ok b)
    (hnonces : b.aggregateNonces Rs = .ok c) : c.Invariant n m :=
  (((Reached.start hstart).keys hkeys).nonces hnonces).invariant

/-- **Soundness of a session.** Whatever keys, nonces and shares the parties sent, what leaves the
third round is a valid signature, as a value and as bytes. -/
theorem finalized_signature_valid (hstart : start n m = .ok a)
    (hkeys : a.aggregateKeys Xs = .ok b) (hnonces : b.aggregateNonces Rs = .ok c)
    (hshares : c.aggregateSignatures shares = .ok f) :
    f.verify = true ∧
      f.signature.r = c.aggregateNonce.encode ∧
      Signature.decode f.signature.encode.toList = .ok f.signature ∧
      PublicKey.verifyBytes f.aggregateKey.encode.toList m f.signature.encode.toList = true := by
  have inv := invariant_of_rounds hstart hkeys hnonces
  have hf := AwaitingShares.invariant_aggregateSignatures inv hshares
  obtain ⟨-, -, rfl⟩ := (AwaitingShares.aggregateSignatures_eq_ok_iff inv).1 hshares
  have hdecode : Signature.decode (c.combined shares).encode.toList = .ok (c.combined shares) := by
    rw [Signature.decode_encode, AwaitingShares.combined, PublicKey.encode, Point.decode?_encode]
    rfl
  refine ⟨hf.verify_eq, rfl, hdecode, ?_⟩
  rw [PublicKey.verifyBytes, PublicKey.decode_encode inv.keys.not_isSmallOrder, hdecode]
  rw [← inv.message_eq]
  exact hf.verify_eq

/-! Two parties whose keys and nonces have a part of order two. -/

/-- The point of order two. -/
def halfTurn : Point := ⟨0, -1, by decide +kernel⟩

theorem halfTurn_add_self : halfTurn + halfTurn = 0 := by decide +kernel

theorem isSmallOrder_halfTurn : halfTurn.IsSmallOrder := by decide +kernel

theorem smul_halfTurn_of_odd {e : Scalar} (h : e.val % 2 = 1) : e • halfTurn = halfTurn := by
  rw [Point.scalar_smul, ← Nat.div_add_mod e.val 2, h, add_nsmul, mul_nsmul, two_nsmul,
    halfTurn_add_self, nsmul_zero, zero_add, one_nsmul]

theorem smul_halfTurn_add_self (e : Scalar) : e • halfTurn + e • halfTurn = 0 := by
  rw [← Point.smul_add, halfTurn_add_self, Point.smul_zero]

def mixedContext : Context :=
  ⟨⟨(12 : Scalar) • Point.base⟩, ⟨(7 : Scalar) • Point.base⟩, [104, 105]⟩

def mixedKeys : List PublicKey :=
  [⟨(5 : Scalar) • Point.base + halfTurn⟩, ⟨(7 : Scalar) • Point.base + halfTurn⟩]

def mixedNonces : List PublicKey :=
  [⟨(3 : Scalar) • Point.base + mixedContext.challenge • halfTurn⟩,
   ⟨(4 : Scalar) • Point.base + mixedContext.challenge • halfTurn⟩]

def mixedShares : List Signature :=
  [⟨mixedContext.nonce.encode, 3 + mixedContext.challenge * 5⟩,
   ⟨mixedContext.nonce.encode, 4 + mixedContext.challenge * 7⟩]

theorem aggregate_mixedKeys : PublicKey.aggregate mixedKeys = .ok mixedContext.key := by
  refine PublicKey.aggregate_eq_ok_iff.2 ⟨by simp [mixedKeys], ?_, ?_⟩
  · show (12 : Scalar) • Point.base =
      (5 : Scalar) • Point.base + halfTurn + ((7 : Scalar) • Point.base + halfTurn + 0)
    rw [add_zero, add_add_add_comm, halfTurn_add_self, add_zero]
    exact Point.add_smul_base 5 7
  · exact Point.isSmallOrder_smul_base_iff.not.2 (by decide)

theorem aggregate_mixedNonces :
    PublicKey.aggregateNonces mixedNonces = .ok mixedContext.nonce := by
  refine PublicKey.aggregateNonces_eq_ok_iff.2
    (PublicKey.aggregate_eq_ok_iff.2 ⟨by simp [mixedNonces], ?_, ?_⟩)
  · show (7 : Scalar) • Point.base =
      (3 : Scalar) • Point.base + mixedContext.challenge • halfTurn +
        ((4 : Scalar) • Point.base + mixedContext.challenge • halfTurn + 0)
    rw [add_zero, add_add_add_comm, smul_halfTurn_add_self, add_zero]
    exact Point.add_smul_base 3 4
  · exact Point.isSmallOrder_smul_base_iff.not.2 (by decide)

def mixedSession : AwaitingShares :=
  ⟨2, [104, 105], mixedKeys, mixedContext.key, mixedNonces, mixedContext.nonce⟩

theorem start_mixed : start 2 [104, 105] = .ok ⟨2, [104, 105]⟩ := rfl

theorem aggregateKeys_mixed : AwaitingKeys.aggregateKeys ⟨2, [104, 105]⟩ mixedKeys =
    .ok ⟨2, [104, 105], mixedKeys, mixedContext.key⟩ := by
  rw [AwaitingKeys.aggregateKeys_eq rfl, aggregate_mixedKeys]
  rfl

theorem aggregateNonces_mixed :
    AwaitingNonces.aggregateNonces ⟨2, [104, 105], mixedKeys, mixedContext.key⟩ mixedNonces =
      .ok mixedSession := by
  rw [AwaitingNonces.aggregateNonces_eq rfl, aggregate_mixedNonces]
  rfl

theorem reached_mixedSession : Reached 2 [104, 105] (.awaitingShares mixedSession) :=
  ((Reached.start start_mixed).keys aggregateKeys_mixed).nonces aggregateNonces_mixed

theorem aggregateSignatures_mixed : mixedSession.aggregateSignatures mixedShares =
    .ok ⟨2, [104, 105], mixedContext.key, mixedSession.combined mixedShares⟩ := by
  refine AwaitingShares.aggregateSignatures_eq reached_mixedSession.invariant rfl ?_
  intro e he
  have hzero := smul_halfTurn_add_self mixedContext.challenge
  rcases List.mem_cons.1 he with rfl | he
  · exact mixedContext.accepts_mixed 5 3 hzero
  · rw [List.mem_singleton.1 he]
    exact mixedContext.accepts_mixed 7 4 hzero

theorem finalized_signature_valid_mixed : ∃ a b c f,
    start 2 [104, 105] = .ok a ∧ a.aggregateKeys mixedKeys = .ok b ∧
    b.aggregateNonces mixedNonces = .ok c ∧ c.aggregateSignatures mixedShares = .ok f ∧
    f.verify = true ∧
    f.signature.r = c.aggregateNonce.encode ∧
    Signature.decode f.signature.encode.toList = .ok f.signature ∧
    PublicKey.verifyBytes f.aggregateKey.encode.toList [104, 105] f.signature.encode.toList =
      true :=
  ⟨_, _, _, _, start_mixed, aggregateKeys_mixed, aggregateNonces_mixed, aggregateSignatures_mixed,
    finalized_signature_valid start_mixed aggregateKeys_mixed aggregateNonces_mixed
      aggregateSignatures_mixed⟩

end Aggregator

end JointSchnorr
