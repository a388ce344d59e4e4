import Mathlib
import JointSchnorr.Share
import JointSchnorr.Proofs.Curve.Encoding
import JointSchnorr.Proofs.Encoding.Scalar

/-!
# Keys and nonces from byte strings

A public key that is not of small order is read back from its encoding, also as an aggregate. A
secret is read from any 32 bytes whose value is no multiple of `N`; a multiple of `N` and any other
length are told apart by their errors. Each secret can be drawn.
-/

namespace JointSchnorr

theorem Encoded.name_injective : Function.Injective Encoded.name := by
  intro a b h
  cases a <;> cases b <;> simp_all [Encoded.name]

namespace PublicKey

theorem encode_inj {X Y : PublicKey} : X.encode = Y.encode ↔ X = Y := by
  cases X
  cases Y
  rw [PublicKey.mk.injEq]
  exact Point.encode_inj

theorem ofPoint_of_not_isSmallOrder {P : Point} (h : ¬ P.IsSmallOrder) : ofPoint P = .ok ⟨P⟩ :=
  if_neg h

theorem decode_encode {X : PublicKey} (h : ¬ X.point.IsSmallOrder) :
    decode X.encode.toList = .ok X := by
  rw [decode, Octets.ofList?_toList, Option.bind_some, encode, Point.decode?_encode]
  exact ofPoint_of_not_isSmallOrder h

theorem decode_eq_ok_iff {bs : Bytes} {X : PublicKey} :
    decode bs = .ok X ↔
      (Octets.ofList? 32 bs).bind Point.decode? = some X.point ∧ ¬ X.point.IsSmallOrder := by
  unfold decode
  cases (Octets.ofList? 32 bs).bind Point.decode? with
  | none => simp
  | some P =>
    simp only [ofPoint_eq_ok_iff, Option.some.injEq]
    constructor
    · rintro ⟨rfl, h⟩
      exact ⟨rfl, h⟩
    · rintro ⟨rfl, h⟩
      exact ⟨rfl, h⟩

theorem eq_of_decode_error {bs : Bytes} {e : Error} (h : decode bs = .error e) :
    e = .malformedInput .publicKey ∨ e = .invalidKey := by
  unfold decode at h
  split at h
  · exact .inl (Except.error.inj h).symm
  · exact .inr (ofPoint_eq_error_iff.1 h).1

theorem decodeAggregate_encode {X : PublicKey} (what : Encoded) (h : ¬ X.point.IsSmallOrder) :
    decodeAggregate what X.encode.toList = .ok X := by
  rw [decodeAggregate, decode_encode h]
  rfl

end PublicKey

namespace Secret

theorem exists_decode {bs : Bytes} (what : Encoded) (zero : Error) (hl : bs.length = 32)
    (hv : ¬ N ∣ bs.value) :
    ∃ k : Secret, k.scalar = Scalar.ofBytes bs ∧ decode what zero bs = .ok k := by
  refine ⟨⟨Scalar.ofBytes bs, fun h => hv (Scalar.ofBytes_eq_zero_iff.1 h)⟩, rfl, ?_⟩
  exact decode_eq_ok_iff.2 ⟨hl, rfl⟩

theorem decode_of_dvd {bs : Bytes} (what : Encoded) (zero : Error) (hl : bs.length = 32)
    (hv : N ∣ bs.value) : decode what zero bs = .error zero := by
  rw [decode, if_pos hl]
  exact dif_pos (Scalar.ofBytes_eq_zero_iff.2 hv)

theorem decode_of_length_ne {bs : Bytes} (what : Encoded) (zero : Error) (hl : bs.length ≠ 32) :
    decode what zero bs = .error (.malformedInput what) := if_neg hl

theorem decode_encode (what : Encoded) (zero : Error) (k : Secret) :
    decode what zero k.scalar.encode.toList = .ok k :=
  decode_eq_ok_iff.2 ⟨k.scalar.encode.length_toList, Scalar.ofBytes_encode k.scalar⟩

/-- A block that writes the scalar and then zeros draws the secret. -/
theorem exists_draw (k : Secret) : ∃ script rest, draw script = .ok (k, rest) := by
  have hlen : (k.scalar.encode.toList ++ Bytes.digits 32 0).length = 64 := by
    rw [List.length_append, k.scalar.encode.length_toList, Bytes.length_digits]
  have hzeros : Bytes.value (Bytes.digits 32 0) = 0 := by
    rw [Bytes.value_digits, Nat.zero_mod]
  have hscalar : Scalar.ofBytes (k.scalar.encode.toList ++ Bytes.digits 32 0) = k.scalar := by
    rw [Scalar.ofBytes, Bytes.value_append, hzeros, mul_zero, add_zero]
    exact Scalar.ofBytes_encode k.scalar
  refine ⟨k.scalar.encode.toList ++ Bytes.digits 32 0, [], ?_⟩
  rw [draw, if_pos hlen.ge, List.take_of_length_le hlen.le, List.drop_of_length_le hlen.le]
  simp only [hscalar, k.scalar_ne_zero, dite_false]

end Secret

theorem PrivateKey.exists_decode {bs : Bytes} (hl : bs.length = 32) (hv : ¬ N ∣ bs.value) :
    ∃ x : PrivateKey, x.scalar = Scalar.ofBytes bs ∧ decode bs = .ok x := by
  obtain ⟨k, hk, hd⟩ := Secret.exists_decode .privateKey .invalidKey hl hv
  exact ⟨⟨k⟩, hk, by rw [decode, hd]; rfl⟩

theorem Nonce.exists_decode {bs : Bytes} (hl : bs.length = 32) (hv : ¬ N ∣ bs.value) :
    ∃ k : Nonce, k.scalar = Scalar.ofBytes bs ∧ decode bs = .ok k := by
  obtain ⟨k, hk, hd⟩ := Secret.exists_decode .secretNonce .invalidNonce hl hv
  exact ⟨⟨k⟩, hk, by rw [decode, hd]; rfl⟩

theorem PrivateKey.decode_of_dvd {bs : Bytes} (hl : bs.length = 32) (hv : N ∣ bs.value) :
    decode bs = .error .invalidKey := by
  rw [decode, Secret.decode_of_dvd _ _ hl hv]
  rfl

theorem Nonce.decode_of_dvd {bs : Bytes} (hl : bs.length = 32) (hv : N ∣ bs.value) :
    decode bs = .error .invalidNonce := by
  rw [decode, Secret.decode_of_dvd _ _ hl hv]
  rfl

theorem Nonce.decode_of_length_ne {bs : Bytes} (hl : bs.length ≠ 32) :
    decode bs = .error (.malformedInput .secretNonce) := by
  rw [decode, Secret.decode_of_length_ne _ _ hl]
  rfl

theorem PrivateKey.decode_eq_ok_iff {bs : Bytes} {x : PrivateKey} :
    decode bs = .ok x ↔ bs.length = 32 ∧ Scalar.ofBytes bs = x.scalar := by
  have hsecret : decode bs = .ok x ↔ Secret.decode .privateKey .invalidKey bs = .ok x.secret := by
    cases x
    rw [decode]
    cases Secret.decode .privateKey .invalidKey bs <;> simp [Except.map]
  rw [hsecret, Secret.decode_eq_ok_iff]
  rfl

theorem Nonce.decode_eq_ok_iff {bs : Bytes} {k : Nonce} :
    decode bs = .ok k ↔ bs.length = 32 ∧ Scalar.ofBytes bs = k.scalar := by
  have hsecret :
      decode bs = .ok k ↔ Secret.decode .secretNonce .invalidNonce bs = .ok k.secret := by
    cases k
    rw [decode]
    cases Secret.decode .secretNonce .invalidNonce bs <;> simp [Except.map]
  rw [hsecret, Secret.decode_eq_ok_iff]
  rfl

theorem Nonce.decode_encode (k : Nonce) : decode k.encode.toList = .ok k :=
  decode_eq_ok_iff.2 ⟨k.encode.length_toList, Scalar.ofBytes_encode k.scalar⟩

theorem Nonce.exists_generate (k : Nonce) : ∃ script rest, generate script = .ok (k, rest) := by
  obtain ⟨script, rest, h⟩ := k.secret.exists_draw
  exact ⟨script, rest, by rw [generate, h]; rfl⟩

end JointSchnorr
