import Mathlib
import JointSchnorr.Proofs.Curve.Parts
import JointSchnorr.Proofs.Extraction

/-!
# Keys and nonces with a part of small order

Keys and nonces are read from encodings of any points but those of small order, so they may have a
part `T` or `U` of small order beside their multiple of the base point. Responses are multiples of
the base point, and the equations are not multiplied by the cofactor, so such parts are checked as
well: they have to cancel under the challenge, and the other parts fix the response
(`equation_iff`). Whether a key and a nonce have a valid share or signature at all thus depends on
the challenge as an integer, and where they have one it is unique (`mixed_order_checked`).
-/

namespace JointSchnorr

open Point (base isSmallOrder_eighthTurn)

/-- The equation of a response holds exactly if it holds in each of the two parts. -/
theorem equation_iff {T U : Point} (hT : T.IsSmallOrder) (hU : U.IsSmallOrder) {e k s x : Scalar} :
    s • base = k • base + U + e • (x • base + T) ↔ U + e • T = 0 ∧ s = k + e * x := by
  have hparts : k • base + U + e • (x • base + T) = (k + e * x) • base + (U + e • T) := by
    rw [Point.smul_add, Point.add_smul_base, Point.mul_smul_base, add_add_add_comm]
  rw [hparts]
  exact Point.smul_base_eq_add_iff (hU.add (hT.smul e))

section Responses

variable {T U : Point} (hT : T.IsSmallOrder) (hU : U.IsSmallOrder) {k x : Scalar}

include hT hU

theorem Context.accepts_iff_of_parts (c : Context) {σ : Signature} :
    c.accepts ⟨x • base + T⟩ ⟨k • base + U⟩ σ = true ↔
      U + c.challenge • T = 0 ∧ σ = ⟨c.nonce.encode, k + c.challenge * x⟩ := by
  obtain ⟨r, s⟩ := σ
  rw [c.accepts_eq_true_iff, Signature.mk.injEq]
  show r = _ ∧ s • base = k • base + U + c.challenge • (x • base + T) ↔ _
  rw [equation_iff hT hU]
  exact and_left_comm

theorem PublicKey.verify_iff_of_parts {X : PublicKey} (hX : X.point = x • base + T) {m : Bytes}
    {r : Octets 32} {s : Scalar} (hr : Point.decode? r = some (k • base + U))
    (hR : ¬ (k • base + U).IsSmallOrder) :
    X.verify m ⟨r, s⟩ = true ↔
      U + challenge r X.encode m • T = 0 ∧ s = k + challenge r X.encode m * x := by
  rw [PublicKey.verify_eq_true_iff, ← equation_iff hT hU, ← hX]
  constructor
  · rintro ⟨R, hd, -, h⟩
    rw [hr] at hd
    rwa [← Option.some.inj hd] at h
  · intro h
    exact ⟨_, hr, hR, h⟩

end Responses

/-- **Parts of small order are checked exactly.** Every point is a multiple of the base point and a
part of small order in one way. A key and a nonce have an accepted share exactly if their parts of
small order cancel under the challenge of the session, and then it is the one that the other parts
give. The same holds of the valid signatures with one commitment, in whatever bytes it comes. -/
theorem mixed_order_checked :
    (∀ P : Point, ∃! q : Scalar × Point, q.2.IsSmallOrder ∧ P = q.1 • base + q.2) ∧
    (∀ (c : Context) (x k : Scalar) (T U : Point), T.IsSmallOrder → U.IsSmallOrder →
      ((∃ σ, c.accepts ⟨x • base + T⟩ ⟨k • base + U⟩ σ = true) ↔ U + c.challenge • T = 0) ∧
      ∀ σ, c.accepts ⟨x • base + T⟩ ⟨k • base + U⟩ σ = true →
        σ = ⟨c.nonce.encode, k + c.challenge * x⟩) ∧
    ∀ (X : PublicKey) (m : Bytes) (r : Octets 32) (x k : Scalar) (T U : Point),
      T.IsSmallOrder → U.IsSmallOrder → X.point = x • base + T →
      Point.decode? r = some (k • base + U) → ¬ (k • base + U).IsSmallOrder →
      ((∃ s, X.verify m ⟨r, s⟩ = true) ↔ U + challenge r X.encode m • T = 0) ∧
      ∀ s, X.verify m ⟨r, s⟩ = true → s = k + challenge r X.encode m * x := by
  refine ⟨Point.existsUnique_parts, ?_, ?_⟩
  · intro c x k T U hT hU
    have hiff := fun σ => c.accepts_iff_of_parts hT hU (x := x) (k := k) (σ := σ)
    refine ⟨⟨?_, fun h => ⟨_, (hiff _).2 ⟨h, rfl⟩⟩⟩, fun σ h => ((hiff σ).1 h).2⟩
    rintro ⟨σ, h⟩
    exact ((hiff σ).1 h).1
  · intro X m r x k T U hT hU hX hr hR
    have hiff := fun s => PublicKey.verify_iff_of_parts hT hU hX (m := m) hr hR (s := s)
    refine ⟨⟨?_, fun h => ⟨_, (hiff _).2 ⟨h, rfl⟩⟩⟩, fun s h => ((hiff s).1 h).2⟩
    rintro ⟨s, h⟩
    exact ((hiff s).1 h).1

/-! Under the key with a part of order eight and a nonce without one, there is a share and a
signature for the message with a challenge that eight divides, and none for another message. -/

theorem isSmallOrder_zero : (0 : Point).IsSmallOrder := by decide +kernel

theorem turned_cancels : 0 + turnedChallenge [11] • Point.eighthTurn = 0 := by decide +kernel

theorem turned_remains : 0 + turnedChallenge [12] • Point.eighthTurn ≠ 0 := by decide +kernel

theorem decode?_turnedNonce :
    Point.decode? turnedNonce.encode = some ((3 : Scalar) • base + 0) := by
  rw [add_zero]
  exact Point.decode?_encode _

theorem not_isSmallOrder_turnedNonce : ¬ ((3 : Scalar) • base + 0).IsSmallOrder := by
  rw [add_zero]
  exact Point.isSmallOrder_smul_base_iff.not.2 (by decide)

theorem mixed_order_checked_turned :
    Point.eighthTurn.IsSmallOrder ∧ (0 : Point).IsSmallOrder ∧
    (∃ σ, (turnedContext [11]).accepts turnedKey ⟨(3 : Scalar) • base + 0⟩ σ = true) ∧
    (¬ ∃ σ, (turnedContext [12]).accepts turnedKey ⟨(3 : Scalar) • base + 0⟩ σ = true) ∧
    turnedKey.verify [11] ⟨turnedNonce.encode, turnedResponse [11]⟩ = true ∧
    (∀ s, turnedKey.verify [11] ⟨turnedNonce.encode, s⟩ = true → s = turnedResponse [11]) ∧
    ¬ ∃ s, turnedKey.verify [12] ⟨turnedNonce.encode, s⟩ = true := by
  obtain ⟨-, hshares, hsignatures⟩ := mixed_order_checked
  have hshare := fun m =>
    (hshares (turnedContext m) 5 3 _ _ isSmallOrder_eighthTurn isSmallOrder_zero).1
  have hsignature := fun m => hsignatures turnedKey m _ 5 3 _ _ isSmallOrder_eighthTurn
    isSmallOrder_zero rfl decode?_turnedNonce not_isSmallOrder_turnedNonce
  exact ⟨isSmallOrder_eighthTurn, isSmallOrder_zero, (hshare [11]).2 turned_cancels,
    (hshare [12]).not.2 turned_remains, verify_turnedResponse₁₁, (hsignature [11]).2,
    (hsignature [12]).1.not.2 turned_remains⟩

end JointSchnorr
