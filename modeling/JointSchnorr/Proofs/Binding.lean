import Mathlib
import JointSchnorr.Proofs.Curve.Cofactor
import JointSchnorr.Proofs.Shares

/-!
# What a challenge binds

The bytes that a challenge hashes hold the commitment and the key at a fixed width, so they tell
commitment, key and message apart (`challengeInput_inj`), and equal challenges of different inputs
are a collision of the hash modulo `N` (`challenge_eq_iff`). A signature under a key that is not of
small order is bound to its message by the challenge (`valid_response_eq_iff`), also where the key
has a part outside the multiples of the base point, and a share is bound to the context that it was
signed in (`share_bound_to_context`).
-/

namespace JointSchnorr

/-! ## The bytes that are hashed -/

theorem challengeInput_inj {r r' X X' : Octets 32} {m m' : Bytes} :
    challengeInput r X m = challengeInput r' X' m' ↔ r = r' ∧ X = X' ∧ m = m' := by
  constructor
  · intro h
    rw [challengeInput, challengeInput, List.append_assoc, List.append_assoc] at h
    obtain ⟨hr, hrest⟩ := List.append_inj h (r.length_toList.trans r'.length_toList.symm)
    obtain ⟨hX, hm⟩ := List.append_inj hrest (X.length_toList.trans X'.length_toList.symm)
    exact ⟨Octets.ext hr, Octets.ext hX, hm⟩
  · rintro ⟨rfl, rfl, rfl⟩
    rfl

/-- Different byte strings that are hashed to the same scalar. -/
structure Collision (as bs : Bytes) : Prop where
  ne : as ≠ bs
  scalar_eq : Scalar.ofBytes (Sha512.hash as).toList = Scalar.ofBytes (Sha512.hash bs).toList

theorem challenge_eq_iff {r r' X X' : Octets 32} {m m' : Bytes} :
    challenge r X m = challenge r' X' m' ↔
      (r = r' ∧ X = X' ∧ m = m') ∨
        Collision (challengeInput r X m) (challengeInput r' X' m') := by
  rw [← challengeInput_inj]
  constructor
  · intro h
    by_cases hin : challengeInput r X m = challengeInput r' X' m'
    · exact Or.inl hin
    · exact Or.inr ⟨hin, h⟩
  · rintro (hin | hcol)
    · rw [challenge, hin]
      rfl
    · exact hcol.scalar_eq

/-! ## Signatures -/

/-- **Message binding.** For one key, not of small order as every function that builds a key makes
sure, and one commitment, valid responses to two messages are equal exactly when the challenges
are. So a message has one valid response, and a signature that is valid for two is a collision. -/
theorem valid_response_eq_iff {X : PublicKey} (hX : ¬ X.point.IsSmallOrder) {r : Octets 32}
    {m₁ m₂ : Bytes} {s₁ s₂ : Scalar} (h₁ : X.verify m₁ ⟨r, s₁⟩ = true)
    (h₂ : X.verify m₂ ⟨r, s₂⟩ = true) :
    (s₁ = s₂ ↔ challenge r X.encode m₁ = challenge r X.encode m₂) ∧
    (m₁ = m₂ → s₁ = s₂) ∧
    (s₁ = s₂ → m₁ = m₂ ∨
      Collision (challengeInput r X.encode m₁) (challengeInput r X.encode m₂)) := by
  obtain ⟨R, hs₁, hs₂⟩ := PublicKey.exists_common_commitment h₁ h₂
  have hiff : s₁ = s₂ ↔ challenge r X.encode m₁ = challenge r X.encode m₂ := by
    rw [← Point.smul_base_inj, hs₁, hs₂, add_right_inj, Point.smul_inj_of_not_isSmallOrder hX]
  refine ⟨hiff, ?_, ?_⟩
  · rintro rfl
    exact hiff.2 rfl
  · intro hs
    rcases challenge_eq_iff.1 (hiff.1 hs) with ⟨-, -, hm⟩ | hcol
    · exact Or.inl hm
    · exact Or.inr hcol

/-! A key with a part of order eight, which drops out where eight divides the challenge. -/

def turnedKey : PublicKey := ⟨(5 : Scalar) • Point.base + Point.eighthTurn⟩

def turnedNonce : PublicKey := ⟨(3 : Scalar) • Point.base⟩

def turnedChallenge (m : Bytes) : Scalar := challenge turnedNonce.encode turnedKey.encode m

def turnedResponse (m : Bytes) : Scalar := 3 + turnedChallenge m * 5

theorem not_isSmallOrder_turnedKey : ¬ turnedKey.point.IsSmallOrder := by decide +kernel

theorem verify_turnedResponse {m : Bytes} (h : (turnedChallenge m).val % 8 = 0) :
    turnedKey.verify m ⟨turnedNonce.encode, turnedResponse m⟩ = true := by
  have hR : ¬ turnedNonce.point.IsSmallOrder :=
    Point.isSmallOrder_smul_base_iff.not.2 (by decide)
  refine (PublicKey.verify_iff_of_commitment rfl hR).2 ?_
  show (3 + turnedChallenge m * 5) • Point.base = (3 : Scalar) • Point.base +
    turnedChallenge m • ((5 : Scalar) • Point.base + Point.eighthTurn)
  rw [Point.smul_add, Point.smul_eighthTurn h, add_zero, Point.add_smul_base, Point.mul_smul_base]

theorem verify_turnedResponse₁₁ :
    turnedKey.verify [11] ⟨turnedNonce.encode, turnedResponse [11]⟩ = true :=
  verify_turnedResponse (by decide +kernel)

theorem verify_turnedResponse₁₃ :
    turnedKey.verify [13] ⟨turnedNonce.encode, turnedResponse [13]⟩ = true :=
  verify_turnedResponse (by decide +kernel)

theorem valid_response_eq_iff_turned :
    ¬ turnedKey.point.IsSmallOrder ∧
    turnedKey.verify [11] ⟨turnedNonce.encode, turnedResponse [11]⟩ = true ∧
    turnedKey.verify [13] ⟨turnedNonce.encode, turnedResponse [13]⟩ = true ∧
    (turnedResponse [11] = turnedResponse [13] ↔ turnedChallenge [11] = turnedChallenge [13]) :=
  ⟨not_isSmallOrder_turnedKey, verify_turnedResponse₁₁, verify_turnedResponse₁₃,
    (valid_response_eq_iff not_isSmallOrder_turnedKey verify_turnedResponse₁₁
      verify_turnedResponse₁₃).1⟩

/-! ## Shares -/

namespace Context

variable {c c' : Context} {x : PrivateKey} {k : Nonce}

/-- A share passes in another context exactly when the nonces and the challenges are the same. -/
theorem accepts_share_iff :
    c.accepts x.publicKey k.publicNonce (c'.share x k) = true ↔
      c'.nonce = c.nonce ∧ c'.challenge = c.challenge := by
  have hs := (c'.accepts_eq_true_iff.1 (c'.accepts_share x k)).2
  rw [c.accepts_eq_true_iff, hs, add_right_inj,
    Point.smul_inj_of_not_isSmallOrder x.not_isSmallOrder]
  exact and_congr_left' PublicKey.encode_inj

theorem challenge_eq_iff_of_nonce_eq (h : c'.nonce = c.nonce) :
    c'.challenge = c.challenge ↔ c' = c ∨
      Collision (challengeInput c'.nonce.encode c'.key.encode c'.message)
        (challengeInput c.nonce.encode c.key.encode c.message) := by
  obtain ⟨X, R, m⟩ := c
  obtain ⟨X', R', m'⟩ := c'
  cases h
  simp only [challenge, challenge_eq_iff, PublicKey.encode_inj, Context.mk.injEq, true_and]

end Context

/-- **A share is bound to its context.** A share that was signed in the context `c'` passes in `c`
exactly when the nonces and the challenges agree. What is hashed tells nonce, key and message apart,
so a share that passes in another context comes with a collision. -/
theorem share_bound_to_context (x : PrivateKey) (k : Nonce) (c c' : Context) :
    (c.accepts x.publicKey k.publicNonce (c'.share x k) = true ↔
      c'.nonce = c.nonce ∧
        challenge c.nonce.encode c'.key.encode c'.message =
          challenge c.nonce.encode c.key.encode c.message) ∧
    (∀ r r' X X' m m', challengeInput r X m = challengeInput r' X' m' ↔
      r = r' ∧ X = X' ∧ m = m') ∧
    (c.accepts x.publicKey k.publicNonce (c'.share x k) = true ↔
      c' = c ∨ c'.nonce = c.nonce ∧
        Collision (challengeInput c'.nonce.encode c'.key.encode c'.message)
          (challengeInput c.nonce.encode c.key.encode c.message)) := by
  refine ⟨?_, fun _ _ _ _ _ _ => challengeInput_inj, ?_⟩
  · rw [Context.accepts_share_iff]
    refine and_congr_right fun hR => ?_
    rw [Context.challenge, Context.challenge, hR]
  · rw [Context.accepts_share_iff]
    constructor
    · rintro ⟨hR, he⟩
      exact ((Context.challenge_eq_iff_of_nonce_eq hR).1 he).imp_right fun hcol => ⟨hR, hcol⟩
    · rintro (rfl | ⟨hR, hcol⟩)
      · exact ⟨rfl, rfl⟩
      · exact ⟨hR, (Context.challenge_eq_iff_of_nonce_eq hR).2 (Or.inr hcol)⟩

end JointSchnorr
