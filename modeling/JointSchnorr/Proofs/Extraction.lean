import Mathlib
import JointSchnorr.Proofs.Binding

/-!
# What a second use of a nonce reveals

Two responses with one commitment and different challenges determine the key: it is the quotient of
the differences (`extractedKey`). This holds of any two valid signatures, whoever made them
(`nonce_reuse_reveals_key`). Under a key with a part outside the multiples of the base point the
quotient is the key up to that part, so that eight copies of both are the same point.
-/

namespace JointSchnorr

namespace Scalar

/-- The inverse modulo `N` by Fermat's little theorem; zero has zero. -/
def inv (a : Scalar) : Scalar := ladder (fun r => r * r) (fun r => r * a) 1 (N - 2)

theorem mul_inv {a : Scalar} (h : a ≠ 0) : a * inv a = 1 := mul_ladder_eq_one h

end Scalar

/-- The difference of the responses `s₁` and `s₂` by that of the challenges `e₁` and `e₂`. -/
def extractedKey (e₁ e₂ s₁ s₂ : Scalar) : Scalar := (s₁ - s₂) * Scalar.inv (e₁ - e₂)

section Equations

variable {e₁ e₂ s₁ s₂ : Scalar} {B R X : Point}

/-- Two equations in one commitment are solved for the key, where scalars act modulo `N`. -/
theorem smul_extractedKey (hB : N • B = 0) (hX : N • X = 0) (he : e₁ ≠ e₂)
    (h₁ : s₁ • B = R + e₁ • X) (h₂ : s₂ • B = R + e₂ • X) :
    extractedKey e₁ e₂ s₁ s₂ • B = X := by
  have hdiff : (s₁ - s₂) • B = (e₁ - e₂) • X := by
    rw [Point.sub_smul hB, Point.sub_smul hX, h₁, h₂, add_sub_add_left_eq_sub]
  calc extractedKey e₁ e₂ s₁ s₂ • B
      = Scalar.inv (e₁ - e₂) • (s₁ - s₂) • B := by
        rw [extractedKey, Fin.mul_comm, Point.mul_smul hB]
    _ = ((e₁ - e₂) * Scalar.inv (e₁ - e₂)) • X := by
        rw [hdiff, Fin.mul_comm (e₁ - e₂), Point.mul_smul hX]
    _ = X := by rw [Scalar.mul_inv (sub_ne_zero.2 he), Point.one_smul]

/-- With the cofactor cleared the same holds of any point. -/
theorem eight_nsmul_smul_extractedKey (he : e₁ ≠ e₂) (h₁ : s₁ • B = R + e₁ • X)
    (h₂ : s₂ • B = R + e₂ • X) : 8 • extractedKey e₁ e₂ s₁ s₂ • B = 8 • X := by
  have hclear : ∀ {s e : Scalar}, s • B = R + e • X → s • 8 • B = 8 • R + e • 8 • X := by
    intro s e h
    rw [← Point.eight_nsmul_smul, ← Point.eight_nsmul_smul, h, nsmul_add]
  rw [Point.eight_nsmul_smul]
  exact smul_extractedKey (Point.N_nsmul_eight_nsmul B) (Point.N_nsmul_eight_nsmul X) he
    (hclear h₁) (hclear h₂)

theorem extractedKey_eq_scalar {x : PrivateKey} (he : e₁ ≠ e₂)
    (h₁ : s₁ • Point.base = R + e₁ • x.publicKey.point)
    (h₂ : s₂ • Point.base = R + e₂ • x.publicKey.point) :
    extractedKey e₁ e₂ s₁ s₂ = x.scalar :=
  Point.smul_base_inj.1
    (smul_extractedKey Point.N_nsmul_base (Point.N_nsmul_smul_base x.scalar) he h₁ h₂)

end Equations

/-- **A nonce used twice reveals the key.** Valid signatures with one commitment and different
challenges determine the key up to a part of small order, and exactly if it is a private key's; so
do two shares of one party with the same nonce. -/
theorem nonce_reuse_reveals_key :
    (∀ (X : PublicKey) (r : Octets 32) (m₁ m₂ : Bytes) (s₁ s₂ : Scalar),
      X.verify m₁ ⟨r, s₁⟩ = true → X.verify m₂ ⟨r, s₂⟩ = true →
      challenge r X.encode m₁ ≠ challenge r X.encode m₂ →
        8 • X.point = 8 • extractedKey (challenge r X.encode m₁) (challenge r X.encode m₂) s₁ s₂ •
          Point.base ∧
        ∀ x : PrivateKey, X = x.publicKey →
          extractedKey (challenge r X.encode m₁) (challenge r X.encode m₂) s₁ s₂ = x.scalar) ∧
    ∀ (x : PrivateKey) (k : Nonce) (c₁ c₂ : Context), c₁.challenge ≠ c₂.challenge →
      extractedKey c₁.challenge c₂.challenge (c₁.share x k).s (c₂.share x k).s = x.scalar := by
  constructor
  · intro X r m₁ m₂ s₁ s₂ h₁ h₂ he
    obtain ⟨R, hs₁, hs₂⟩ := PublicKey.exists_common_commitment h₁ h₂
    refine ⟨(eight_nsmul_smul_extractedKey he hs₁ hs₂).symm, ?_⟩
    rintro x rfl
    exact extractedKey_eq_scalar he hs₁ hs₂
  · intro x k c₁ c₂ he
    exact extractedKey_eq_scalar he (c₁.accepts_eq_true_iff.1 (c₁.accepts_share x k)).2
      (c₂.accepts_eq_true_iff.1 (c₂.accepts_share x k)).2

/-! The key with a part of order eight, and the party with the key five and the nonce three, which
signs alone and in two contexts. -/

def five : PrivateKey := ⟨⟨5, by decide⟩⟩

def three : Nonce := ⟨⟨3, by decide⟩⟩

def turnedContext (m : Bytes) : Context := ⟨turnedKey, turnedNonce, m⟩

/-- The challenge of a signature that `five` makes alone with the nonce `three`. -/
def fiveChallenge (m : Bytes) : Scalar :=
  challenge three.publicNonce.encode five.publicKey.encode m

theorem turnedChallenge_ne : turnedChallenge [11] ≠ turnedChallenge [13] := by decide +kernel

theorem fiveChallenge_ne : fiveChallenge [11] ≠ fiveChallenge [13] := by decide +kernel

theorem nonce_reuse_reveals_key_turned :
    (turnedKey.verify [11] ⟨turnedNonce.encode, turnedResponse [11]⟩ = true ∧
      turnedKey.verify [13] ⟨turnedNonce.encode, turnedResponse [13]⟩ = true ∧
      turnedChallenge [11] ≠ turnedChallenge [13] ∧
      8 • turnedKey.point = 8 • extractedKey (turnedChallenge [11]) (turnedChallenge [13])
        (turnedResponse [11]) (turnedResponse [13]) • Point.base) ∧
    (five.publicKey.verify [11] (five.signWith three [11]) = true ∧
      five.publicKey.verify [13] (five.signWith three [13]) = true ∧
      fiveChallenge [11] ≠ fiveChallenge [13] ∧
      extractedKey (fiveChallenge [11]) (fiveChallenge [13]) (five.signWith three [11]).s
        (five.signWith three [13]).s = 5) ∧
    extractedKey (turnedContext [11]).challenge (turnedContext [13]).challenge
      ((turnedContext [11]).share five three).s ((turnedContext [13]).share five three).s = 5 := by
  obtain ⟨hsignatures, hshares⟩ := nonce_reuse_reveals_key
  have h₁₁ := five.verify_signWith three [11]
  have h₁₃ := five.verify_signWith three [13]
  have hturned := hsignatures turnedKey _ [11] [13] _ _ verify_turnedResponse₁₁
    verify_turnedResponse₁₃ turnedChallenge_ne
  have hfive := hsignatures five.publicKey _ [11] [13] _ _ h₁₁ h₁₃ fiveChallenge_ne
  exact ⟨⟨verify_turnedResponse₁₁, verify_turnedResponse₁₃, turnedChallenge_ne, hturned.1⟩,
    ⟨h₁₁, h₁₃, fiveChallenge_ne, hfive.2 five rfl⟩, hshares five three _ _ turnedChallenge_ne⟩

end JointSchnorr
