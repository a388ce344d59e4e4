import Mathlib
import JointSchnorr.Proofs.SigningAlone

/-!
# Verification of encodings

Verifying the encodings of a key and a signature is verifying the key and the signature, also for a
commitment that is no point. On any byte strings, the encoded signature is accepted exactly if it is
the canonical encoding of a valid one (`verifyBytes_eq_true_iff`), while the key may be written in
any way that it is read from (`verifyBytes_of_decode`). So a key, a message and a commitment leave
at most one byte string that is accepted (`verifyBytes_unique`).
-/

namespace JointSchnorr.PublicKey

variable {a b b' m : Bytes} {X : PublicKey}

theorem verifyBytes_eq_true_iff :
    verifyBytes a m b = true ↔
      ∃ X σ, decode a = .ok X ∧ b = σ.encode.toList ∧ X.verify m σ = true := by
  constructor
  · intro h
    unfold verifyBytes at h
    split at h
    · next X σ hX hσ => exact ⟨X, σ, hX, (Signature.decode_eq_ok_iff.1 hσ).1, h⟩
    · exact absurd h (by simp)
  · rintro ⟨X, σ, hX, rfl, h⟩
    have hσ : Signature.decode σ.encode.toList = .ok σ :=
      Signature.decode_eq_ok_iff.2 ⟨rfl, isSome_decode?_of_verify h⟩
    rw [verifyBytes, hX, hσ]
    exact h

/-- The challenge hashes the canonical encoding of the key, however the key was written. -/
theorem verifyBytes_of_decode (h : decode a = .ok X) :
    verifyBytes a m b = verifyBytes X.encode.toList m b := by
  have hX := decode_encode (decode_eq_ok_iff.1 h).2
  rw [verifyBytes, verifyBytes, h, hX]

theorem length_of_verifyBytes (h : verifyBytes a m b = true) : b.length = 64 := by
  obtain ⟨X, σ, -, rfl, -⟩ := verifyBytes_eq_true_iff.1 h
  exact σ.encode.length_toList

theorem value_drop_lt_of_verifyBytes (h : verifyBytes a m b = true) :
    Bytes.value (b.drop 32) < N := by
  obtain ⟨X, σ, -, rfl, -⟩ := verifyBytes_eq_true_iff.1 h
  exact σ.value_drop_encode_lt

theorem verifyBytes_unique (h : verifyBytes a m b = true) (h' : verifyBytes a m b' = true)
    (hr : b'.take 32 = b.take 32) : b' = b := by
  obtain ⟨X, σ, hX, rfl, hσ⟩ := verifyBytes_eq_true_iff.1 h
  obtain ⟨X', τ, hX', rfl, hτ⟩ := verifyBytes_eq_true_iff.1 h'
  have hXX : X = X' := Except.ok.inj (hX.symm.trans hX')
  have hrr : τ.r = σ.r := by
    apply Octets.ext
    rw [← Signature.take_encode, hr, Signature.take_encode]
  subst hXX
  rw [response_unique hrr hτ hσ]

/-- **Verification of bytes and of values.** Both give the same answer on everything that can be
encoded. On bytes the answer does not depend on which encoding of the key is used, and it is yes for
at most one encoding of a signature with a given commitment, which is 64 bytes with a reduced
response. -/
theorem encoded_verification :
    (∀ (X : PublicKey) (m : Bytes) (σ : Signature), ¬ X.point.IsSmallOrder →
      verifyBytes X.encode.toList m σ.encode.toList = X.verify m σ) ∧
    ∀ a m b : Bytes,
      (∀ a' X, decode a = .ok X → decode a' = .ok X →
        verifyBytes a' m b = verifyBytes a m b) ∧
      (verifyBytes a m b = true → b.length = 64 ∧ Bytes.value (b.drop 32) < N) ∧
      ∀ b', verifyBytes a m b = true → verifyBytes a m b' = true →
        b'.take 32 = b.take 32 → b' = b := by
  refine ⟨fun X m σ hX => verifyBytes_encode hX, ?_⟩
  intro a m b
  refine ⟨?_, ?_, ?_⟩
  · intro a' X ha ha'
    rw [verifyBytes_of_decode ha', verifyBytes_of_decode ha]
  · intro h
    exact ⟨length_of_verifyBytes h, value_drop_lt_of_verifyBytes h⟩
  · intro b' h h' hr
    exact verifyBytes_unique h h' hr

/-! A commitment that is no point, a key with two encodings, and a valid signature. -/

/-- The key with `y = 3` and an even `x`, of which `y = p + 3` is another encoding. -/
def thirdRow : PublicKey :=
  ⟨⟨47490639360184182837601875270316946735278442122217188244898328344323804759522, 3,
    by decide +kernel⟩⟩

theorem decode_thirdRow : decode (Bytes.digits 32 3) = .ok thirdRow :=
  decode_eq_ok_iff.2 ⟨by decide +kernel, by decide +kernel⟩

theorem decode_thirdRow_unreduced : decode (Bytes.digits 32 (p + 3)) = .ok thirdRow :=
  decode_eq_ok_iff.2 ⟨by decide +kernel, by decide +kernel⟩

/-- No point has `y = 2`. -/
def offCurve : Signature := ⟨Octets.ofNat 32 2, 5⟩

open PrivateKey in
theorem encoded_verification_thirdRow :
    verifyBytes eleven.publicKey.encode.toList [104, 105] offCurve.encode.toList =
      eleven.publicKey.verify [104, 105] offCurve ∧
    decode (Bytes.digits 32 3) = .ok thirdRow ∧
    decode (Bytes.digits 32 (p + 3)) = .ok thirdRow ∧
    (∀ m b, verifyBytes (Bytes.digits 32 (p + 3)) m b = verifyBytes (Bytes.digits 32 3) m b) ∧
    ∃ b, verifyBytes eleven.publicKey.encode.toList [104, 105] b = true ∧
      b.length = 64 ∧ Bytes.value (b.drop 32) < N ∧
      ∀ b', verifyBytes eleven.publicKey.encode.toList [104, 105] b' = true →
        b'.take 32 = b.take 32 → b' = b := by
  obtain ⟨hencode, hbytes⟩ := encoded_verification
  have hvalid := (eleven.valid_signWith ⟨⟨17, by decide⟩⟩ [104, 105]).verifyBytes_eq
  obtain ⟨-, hcanonical, hunique⟩ := hbytes _ [104, 105] _
  obtain ⟨hlength, hvalue⟩ := hcanonical hvalid
  refine ⟨hencode _ _ _ eleven.not_isSmallOrder, decode_thirdRow, decode_thirdRow_unreduced, ?_,
    _, hvalid, hlength, hvalue, fun b' h' hr => hunique b' hvalid h' hr⟩
  intro m b
  exact (hbytes _ m b).1 _ thirdRow decode_thirdRow decode_thirdRow_unreduced

end JointSchnorr.PublicKey
