import Mathlib
import JointSchnorr.Proofs.Encoding.Draw
import JointSchnorr.Proofs.Encoding.Signature
import JointSchnorr.Proofs.Shares

/-!
# Signing and verifying

A signature that verifies is read back from its bytes, and its bytes verify under the bytes of the
key (`valid_of_verify`). What a private key signs always verifies, whatever the message: with a
nonce read from 32 bytes that are no multiple of `N`, and with one drawn from a random source
(`signed_message_verifies`). Only the nonce can make signing fail.
-/

namespace JointSchnorr

namespace PublicKey

variable {X : PublicKey} {m : Bytes} {σ : Signature}

theorem isSome_decode?_of_verify (h : X.verify m σ = true) : (Point.decode? σ.r).isSome = true := by
  obtain ⟨R, hR, -⟩ := verify_eq_true_iff.1 h
  rw [hR]
  rfl

/-- Encodings verify as the values do: a commitment that is no point fails on either way. -/
theorem verifyBytes_encode (hX : ¬ X.point.IsSmallOrder) :
    verifyBytes X.encode.toList m σ.encode.toList = X.verify m σ := by
  rw [verifyBytes, decode_encode hX, Signature.decode_encode]
  by_cases hr : (Point.decode? σ.r).isSome = true
  · rw [if_pos hr]
  · rw [if_neg hr]
    exact (Bool.eq_false_iff.2 fun h => hr (isSome_decode?_of_verify h)).symm

end PublicKey

/-- The signature is valid, as a value and as bytes, and is read back from its bytes. -/
structure Signature.Valid (X : PublicKey) (m : Bytes) (σ : Signature) : Prop where
  verify_eq : X.verify m σ = true
  verifyBytes_eq : PublicKey.verifyBytes X.encode.toList m σ.encode.toList = true
  decode_eq : Signature.decode σ.encode.toList = .ok σ

theorem Signature.valid_of_verify {X : PublicKey} {m : Bytes} {σ : Signature}
    (hX : ¬ X.point.IsSmallOrder) (h : X.verify m σ = true) : σ.Valid X m := by
  refine ⟨h, by rw [PublicKey.verifyBytes_encode hX, h], ?_⟩
  rw [Signature.decode_encode, if_pos (PublicKey.isSome_decode?_of_verify h)]

namespace PrivateKey

variable {x : PrivateKey} {m nonce : Bytes} {k : Nonce}

theorem valid_signWith (x : PrivateKey) (k : Nonce) (m : Bytes) :
    (x.signWith k m).Valid x.publicKey m :=
  Signature.valid_of_verify x.not_isSmallOrder (x.verify_signWith k m)

theorem signFromScalar_of_decode (h : Nonce.decode nonce = .ok k) :
    x.signFromScalar nonce m = .ok (x.signWith k m) := by
  rw [signFromScalar, h]
  rfl

theorem signFromScalar_of_error {e : Error} (h : Nonce.decode nonce = .error e) :
    x.signFromScalar nonce m = .error e := by
  rw [signFromScalar, h]
  rfl

theorem exists_sign_of_yieldsAt {script : Bytes} {j : Nat} (h : YieldsAt script j) :
    ∃ k rest, x.sign m script = .ok (x.signWith k m, rest) := by
  obtain ⟨k, rest, hd⟩ := Secret.exists_draw_of_yieldsAt h
  refine ⟨⟨k⟩, rest, ?_⟩
  rw [sign, Nonce.generate, hd]
  rfl

/-- **What is signed verifies.** A nonce that is no multiple of `N` signs, a multiple of `N` and a
nonce of another length are refused, and a random source signs once one of its blocks is no multiple
of `N`. -/
theorem signed_message_verifies (x : PrivateKey) (m : Bytes) :
    (∀ nonce : Bytes, nonce.length = 32 → ¬ N ∣ nonce.value →
      ∃ σ, x.signFromScalar nonce m = .ok σ ∧ σ.Valid x.publicKey m) ∧
    (∀ nonce : Bytes, nonce.length = 32 → N ∣ nonce.value →
      x.signFromScalar nonce m = .error .invalidNonce) ∧
    (∀ nonce : Bytes, nonce.length ≠ 32 →
      x.signFromScalar nonce m = .error (.malformedInput .secretNonce)) ∧
    ∀ (script : Bytes) (j : Nat), YieldsAt script j →
      ∃ σ rest, x.sign m script = .ok (σ, rest) ∧ σ.Valid x.publicKey m := by
  refine ⟨?_, ?_, ?_, ?_⟩
  · intro nonce hl hv
    obtain ⟨k, -, hk⟩ := Nonce.exists_decode hl hv
    exact ⟨_, signFromScalar_of_decode hk, x.valid_signWith k m⟩
  · intro nonce hl hv
    exact signFromScalar_of_error (Nonce.decode_of_dvd hl hv)
  · intro nonce hl
    exact signFromScalar_of_error (Nonce.decode_of_length_ne hl)
  · intro script j h
    obtain ⟨k, rest, hs⟩ := exists_sign_of_yieldsAt (x := x) (m := m) h
    exact ⟨_, rest, hs, x.valid_signWith k m⟩

/-! A nonce written above `N`, one that is twice `N`, no nonce at all, and a random source whose
first block is `N` itself. -/

def eleven : PrivateKey := ⟨⟨11, by decide⟩⟩

theorem signed_message_verifies_unreduced :
    (∃ σ, eleven.signFromScalar (Bytes.digits 32 (3 * N + 2)) [104, 105] = .ok σ ∧
      σ.Valid eleven.publicKey [104, 105]) ∧
    eleven.signFromScalar (Bytes.digits 32 (2 * N)) [104, 105] = .error .invalidNonce ∧
    eleven.signFromScalar [] [104, 105] = .error (.malformedInput .secretNonce) ∧
    ∃ σ rest, eleven.sign [104, 105] (Bytes.digits 64 N ++ Bytes.digits 64 7) = .ok (σ, rest) ∧
      σ.Valid eleven.publicKey [104, 105] := by
  obtain ⟨hsigned, hzero, hlength, hdrawn⟩ := signed_message_verifies eleven [104, 105]
  have hyields : YieldsAt (Bytes.digits 64 N ++ Bytes.digits 64 7) 1 :=
    ⟨by decide +kernel, by decide +kernel⟩
  exact ⟨hsigned _ (by decide) (by decide +kernel), hzero _ (by decide) (by decide +kernel),
    hlength [] (by decide), hdrawn _ 1 hyields⟩

end PrivateKey

end JointSchnorr
