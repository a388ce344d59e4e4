import Mathlib
import JointSchnorr.Proofs.Aggregates
import JointSchnorr.Proofs.Encoding.Key
import JointSchnorr.Proofs.Outcome

/-!
# Secrets from byte strings

A secret is read from any 32 bytes that write no multiple of `N`, so that it has many encodings, of
which it keeps the one below `N`. Secrets are equal exactly if their encodings are congruent, if
their public parts are one point, and if they are written alike. `SecretCodec` states this of any
kind of value that holds a secret; private keys and nonces differ in their errors alone, and are
read from the same byte strings (`secret_codec`).
-/

namespace JointSchnorr

namespace Scalar

theorem ofBytes_eq_iff {as bs : Bytes} :
    ofBytes as = ofBytes bs ↔ as.value ≡ bs.value [MOD N] := Fin.ext_iff

theorem ofBytes_smul_base (bs : Bytes) : ofBytes bs • Point.base = bs.value • Point.base :=
  Point.ofNat_smul_base bs.value

end Scalar

/-- How values that hold a secret are read from bytes and written. Bytes that are not 32 are refused
under the name `name`, and multiples of `N` with the error `zero`; `part` is the public part. -/
structure SecretCodec {α : Type} (decode : Bytes → Except Error α) (encode : α → Octets 32)
    (part : α → PublicKey) (name : String) (zero : Error) : Prop where
  malformed_iff : ∀ b what,
    decode b = .error (.malformedInput what) ↔ what.name = name ∧ b.length ≠ 32
  zero_iff : ∀ b, decode b = .error zero ↔ b.length = 32 ∧ N ∣ b.value
  ok_iff : ∀ b, (∃ x, decode b = .ok x) ↔ b.length = 32 ∧ ¬ N ∣ b.value
  eq_iff_modEq : ∀ a b x y, decode a = .ok x → decode b = .ok y →
    (x = y ↔ a.value ≡ b.value [MOD N])
  eq_iff_part : ∀ x y, x = y ↔ (part x).point = (part y).point
  eq_iff_encode : ∀ x y, x = y ↔ encode x = encode y
  decode_encode : ∀ x, decode (encode x).toList = .ok x
  value_encode : ∀ b x, decode b = .ok x → (encode x).value = b.value % N
  point_part : ∀ b x, decode b = .ok x → (part x).point = b.value • Point.base

namespace Secret

variable {what : Encoded} {zero : Error} {b : Bytes} {k l : Secret}

theorem eq_iff_scalar : k = l ↔ k.scalar = l.scalar := by
  cases k
  cases l
  exact Secret.mk.injEq _ _ _ _ ▸ Iff.rfl

theorem publicPart_of_ofBytes (h : Scalar.ofBytes b = k.scalar) :
    k.publicPart = ⟨b.value • Point.base⟩ := by
  rw [publicPart, ← h, Scalar.ofBytes_smul_base]

theorem exists_decode_iff :
    (∃ k, decode what zero b = .ok k) ↔ b.length = 32 ∧ ¬ N ∣ b.value := by
  constructor
  · rintro ⟨k, h⟩
    obtain ⟨hl, hk⟩ := decode_eq_ok_iff.1 h
    refine ⟨hl, fun hdvd => k.scalar_ne_zero ?_⟩
    rw [← hk]
    exact Scalar.ofBytes_eq_zero_iff.2 hdvd
  · rintro ⟨hl, hv⟩
    obtain ⟨k, -, h⟩ := exists_decode what zero hl hv
    exact ⟨k, h⟩

theorem decode_eq_error_iff {e : Error} :
    decode what zero b = .error e ↔
      b.length ≠ 32 ∧ e = .malformedInput what ∨ b.length = 32 ∧ N ∣ b.value ∧ e = zero := by
  by_cases hl : b.length = 32
  · by_cases hv : N ∣ b.value
    · simp [decode_of_dvd what zero hl hv, hl, hv, eq_comm]
    · obtain ⟨k, -, h⟩ := exists_decode what zero hl hv
      simp [h, hl, hv]
  · simp [decode_of_length_ne what zero hl, hl, eq_comm]

section Errors

variable (hzero : ∀ w, zero ≠ .malformedInput w)

include hzero

theorem decode_eq_malformedInput_iff {w : Encoded} :
    decode what zero b = .error (.malformedInput w) ↔ w = what ∧ b.length ≠ 32 := by
  rw [decode_eq_error_iff]
  simp [(hzero w).symm, and_comm]

theorem decode_eq_zero_iff :
    decode what zero b = .error zero ↔ b.length = 32 ∧ N ∣ b.value := by
  rw [decode_eq_error_iff]
  simp [hzero what]

/-- The codec of bare secrets. -/
theorem secretCodec :
    SecretCodec (decode what zero) (fun k => k.scalar.encode) publicPart what.name zero where
  malformed_iff b w := by
    rw [decode_eq_malformedInput_iff hzero, Encoded.name_injective.eq_iff]
  zero_iff b := decode_eq_zero_iff hzero
  ok_iff b := exists_decode_iff
  eq_iff_modEq a b k l hk hl := by
    rw [eq_iff_scalar, ← (decode_eq_ok_iff.1 hk).2, ← (decode_eq_ok_iff.1 hl).2]
    exact Scalar.ofBytes_eq_iff
  eq_iff_part k l := by
    rw [eq_iff_scalar]
    exact Point.smul_base_inj.symm
  eq_iff_encode k l := by
    rw [eq_iff_scalar]
    exact ⟨congrArg Scalar.encode, Scalar.encode_injective⟩
  decode_encode k := decode_encode what zero k
  value_encode b k hk := by
    rw [Scalar.value_encode, ← (decode_eq_ok_iff.1 hk).2]
    rfl
  point_part b k hk :=
    congrArg PublicKey.point (publicPart_of_ofBytes (decode_eq_ok_iff.1 hk).2)

end Errors

end Secret

/-- A codec is carried along to the values that wrap its own. -/
theorem SecretCodec.map {α β : Type} {decode : Bytes → Except Error α} {encode : α → Octets 32}
    {part : α → PublicKey} {name : String} {zero : Error}
    (h : SecretCodec decode encode part name zero) (e : α ≃ β) :
    SecretCodec (fun b => (decode b).map e) (fun y => encode (e.symm y)) (fun y => part (e.symm y))
      name zero where
  malformed_iff b what := by rw [map_eq_error_iff, h.malformed_iff]
  zero_iff b := by rw [map_eq_error_iff, h.zero_iff]
  ok_iff b := by
    rw [← h.ok_iff, e.surjective.exists]
    simp only [map_equiv_eq_ok_iff, Equiv.symm_apply_apply]
  eq_iff_modEq a b x y hx hy := by
    rw [map_equiv_eq_ok_iff] at hx hy
    rw [← h.eq_iff_modEq a b _ _ hx hy, e.symm.apply_eq_iff_eq]
  eq_iff_part x y := by rw [← h.eq_iff_part, e.symm.apply_eq_iff_eq]
  eq_iff_encode x y := by rw [← h.eq_iff_encode, e.symm.apply_eq_iff_eq]
  decode_encode x := by rw [map_equiv_eq_ok_iff, h.decode_encode]
  value_encode b x hx := h.value_encode b _ (map_equiv_eq_ok_iff.1 hx)
  point_part b x hx := h.point_part b _ (map_equiv_eq_ok_iff.1 hx)

def PrivateKey.equivSecret : Secret ≃ PrivateKey := ⟨mk, secret, fun _ => rfl, fun _ => rfl⟩

def Nonce.equivSecret : Secret ≃ Nonce := ⟨mk, secret, fun _ => rfl, fun _ => rfl⟩

/-- **Secrets are numbers modulo `N`.** A private key is read from 32 bytes unless they write a
multiple of `N`. It is the residue of the number that is written: equal residues are equal keys,
with equal public keys and equal encodings, and a key is written as the number below `N`. The same
holds of nonces with errors of their own, and what is read as a key is read as a nonce. -/
theorem secret_codec :
    SecretCodec PrivateKey.decode PrivateKey.encode PrivateKey.publicKey "private key"
      .invalidKey ∧
    SecretCodec Nonce.decode Nonce.encode Nonce.publicNonce "secret nonce" .invalidNonce ∧
    ∀ b k, PrivateKey.decode b = .ok ⟨k⟩ ↔ Nonce.decode b = .ok ⟨k⟩ := by
  refine ⟨?_, ?_, ?_⟩
  · have hsecret : SecretCodec (Secret.decode .privateKey .invalidKey) _ _ _ _ :=
      Secret.secretCodec (by simp)
    exact hsecret.map PrivateKey.equivSecret
  · have hsecret : SecretCodec (Secret.decode .secretNonce .invalidNonce) _ _ _ _ :=
      Secret.secretCodec (by simp)
    exact hsecret.map Nonce.equivSecret
  · intro b k
    rw [PrivateKey.decode_eq_ok_iff, Nonce.decode_eq_ok_iff]
    rfl

/-! The number two with the largest multiple of `N` that 32 bytes have room for, and that multiple
itself. -/

theorem secret_codec_unreduced :
    (∃ x, PrivateKey.decode (Bytes.digits 32 (15 * N + 2)) = .ok x ∧
      PrivateKey.decode (Bytes.digits 32 2) = .ok x ∧ x.encode.value = 2) ∧
    PrivateKey.decode (Bytes.digits 32 (15 * N)) = .error .invalidKey ∧
    Nonce.decode (Bytes.digits 32 (15 * N)) = .error .invalidNonce ∧
    Nonce.decode (Bytes.digits 31 2) = .error (.malformedInput .secretNonce) := by
  obtain ⟨hkey, hnonce, -⟩ := secret_codec
  have hmultiple : (Bytes.digits 32 (15 * N)).length = 32 ∧ N ∣ (Bytes.digits 32 (15 * N)).value :=
    ⟨by decide, by decide +kernel⟩
  have hmod : (Bytes.digits 32 (15 * N + 2)).value ≡ (Bytes.digits 32 2).value [MOD N] := by
    decide +kernel
  have htwo : (Bytes.digits 32 2).value % N = 2 := by decide +kernel
  obtain ⟨x, hx⟩ := (hkey.ok_iff (Bytes.digits 32 (15 * N + 2))).2 ⟨by decide, by decide +kernel⟩
  obtain ⟨y, hy⟩ := (hkey.ok_iff (Bytes.digits 32 2)).2 ⟨by decide, by decide +kernel⟩
  obtain rfl := (hkey.eq_iff_modEq _ _ x y hx hy).2 hmod
  exact ⟨⟨x, hx, hy, (hkey.value_encode _ x hy).trans htwo⟩, (hkey.zero_iff _).2 hmultiple,
    (hnonce.zero_iff _).2 hmultiple, (hnonce.malformed_iff _ _).2 ⟨rfl, by decide⟩⟩

end JointSchnorr
