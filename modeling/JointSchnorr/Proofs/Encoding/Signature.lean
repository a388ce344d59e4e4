import Mathlib
import JointSchnorr.Signature
import JointSchnorr.Wire.Format
import JointSchnorr.Proofs.Curve.Encoding
import JointSchnorr.Proofs.Encoding.Scalar

/-!
# Signatures from byte strings

The 64 bytes of a signature fix it (`encode_injective`), and they are read back exactly when the
commitment encodes a point (`decode_encode`). Nothing else is read (`decode_eq_ok_iff`), so that the
bytes which are read are those of `Wellformed`, each as the signature that is written in the same
bytes, also where the bytes travel as an array (`signature_codec`).
-/

namespace JointSchnorr.Signature

theorem toList_encode (σ : Signature) : σ.encode.toList = σ.r.toList ++ σ.s.encode.toList := rfl

theorem take_encode (σ : Signature) : σ.encode.toList.take 32 = σ.r.toList := by
  rw [toList_encode, List.take_left' σ.r.length_toList]

theorem drop_encode (σ : Signature) : σ.encode.toList.drop 32 = σ.s.encode.toList := by
  rw [toList_encode, List.drop_left' σ.r.length_toList]

theorem encode_injective {σ τ : Signature} (h : σ.encode = τ.encode) : σ = τ := by
  have hr : σ.r = τ.r := by
    apply Octets.ext
    rw [← take_encode, h, take_encode]
  have hs : σ.s.encode = τ.s.encode := by
    apply Octets.ext
    rw [← drop_encode, h, drop_encode]
  cases σ
  cases τ
  cases hr
  cases Scalar.encode_injective hs
  rfl

theorem decode_encode (σ : Signature) :
    decode σ.encode.toList =
      if (Point.decode? σ.r).isSome then .ok σ else .error .malformedSignature := by
  rw [decode, take_encode, drop_encode, Octets.ofList?_toList, Octets.ofList?_toList]
  simp only [Scalar.isCanonical_encode, Scalar.ofBytes_encode, and_true]

/-- A byte string reads as a signature exactly when it is the encoding of that signature. -/
theorem decode_eq_ok_iff {bs : Bytes} {σ : Signature} :
    decode bs = .ok σ ↔ bs = σ.encode.toList ∧ (Point.decode? σ.r).isSome = true := by
  constructor
  · intro h
    unfold decode at h
    split at h
    · next r s hr hs =>
      split at h
      · next hok =>
        obtain rfl := Except.ok.inj h
        refine ⟨?_, hok.1⟩
        rw [toList_encode, Scalar.encode_ofBytes hok.2, ← Octets.ofList?_eq_some_iff.1 hr,
          ← Octets.ofList?_eq_some_iff.1 hs, List.take_append_drop]
      · exact absurd h (by simp)
    · exact absurd h (by simp)
  · rintro ⟨rfl, hr⟩
    rw [decode_encode, if_pos hr]

theorem eq_malformedSignature_of_decode {bs : Bytes} {e : Error} (h : decode bs = .error e) :
    e = .malformedSignature := by
  unfold decode at h
  split at h
  · split at h
    · exact absurd h (by simp)
    · exact (Except.error.inj h).symm
  · exact (Except.error.inj h).symm

/-! ## The bytes that are read -/

/-- What a byte string has to be for a signature to be read from it. -/
structure Wellformed (b : Bytes) : Prop where
  length_eq : b.length = 64
  commitment : ∃ P : Point, P.WrittenAs (b.take 32)
  response : Bytes.value (b.drop 32) < N

theorem value_drop_encode_lt (σ : Signature) : Bytes.value (σ.encode.toList.drop 32) < N := by
  rw [drop_encode]
  show σ.s.encode.value < N
  rw [Scalar.value_encode]
  exact σ.s.isLt

theorem wellformed_of_decode {b : Bytes} {σ : Signature} (h : decode b = .ok σ) : Wellformed b := by
  obtain ⟨rfl, hr⟩ := decode_eq_ok_iff.1 h
  obtain ⟨P, hP⟩ := Option.isSome_iff_exists.1 hr
  exact ⟨σ.encode.length_toList, ⟨P, σ.r, σ.take_encode, hP⟩, σ.value_drop_encode_lt⟩

theorem Wellformed.exists_decode {b : Bytes} (h : Wellformed b) : ∃ σ, decode b = .ok σ := by
  obtain ⟨P, r, hr, hP⟩ := h.commitment
  have hlen : (b.drop 32).length = 32 := by
    rw [List.length_drop, h.length_eq]
  have hcanonical : Scalar.isCanonical ⟨b.drop 32, hlen⟩ = true :=
    (Scalar.isCanonical_iff _).2 h.response
  have hs := congrArg Octets.toList (Scalar.encode_ofBytes hcanonical)
  refine ⟨⟨r, Scalar.ofBytes (b.drop 32)⟩, decode_eq_ok_iff.2 ⟨?_, ?_⟩⟩
  · rw [toList_encode, hs, ← hr, List.take_append_drop]
  · rw [hP]
    rfl

theorem exists_decode_iff {b : Bytes} : (∃ σ, decode b = .ok σ) ↔ Wellformed b := by
  constructor
  · rintro ⟨σ, h⟩
    exact wellformed_of_decode h
  · intro h
    exact h.exists_decode

theorem decode_eq_error_iff {b : Bytes} {e : Error} :
    decode b = .error e ↔ ¬ Wellformed b ∧ e = .malformedSignature := by
  rw [← exists_decode_iff]
  constructor
  · intro h
    refine ⟨?_, eq_malformedSignature_of_decode h⟩
    rintro ⟨σ, hσ⟩
    rw [h] at hσ
    cases hσ
  · rintro ⟨hnone, rfl⟩
    cases h : decode b with
    | error e => rw [eq_malformedSignature_of_decode h]
    | ok σ => exact absurd ⟨σ, h⟩ hnone

/-! ## Signatures in arrays -/

open Wire in
/-- An array of bytes is read as the signature of these bytes. -/
theorem read_eq {ts rest : List Token} {b : Bytes} (h : readBytes ts = some (b, rest)) :
    Format.signature.read ts = match decode b with
      | .ok σ => .ok (σ, rest)
      | .error e => .error (.refused e) := by
  simp only [Format.signature, Format.ofBytes, h, if_true]
  cases decode b <;> rfl

/-- **Signatures are written in one way.** The byte strings that are read are 64 bytes of a point,
however written and of whatever order, and a number below `N`; anything else is malformed. What is
read from bytes is written as these bytes, and what is written is read back if its commitment is a
point at all. The same holds for the bytes of an array. -/
theorem signature_codec :
    (∀ b : Bytes,
      ((∃ σ, decode b = .ok σ) ↔ Wellformed b) ∧
      (∀ e, decode b = .error e ↔ ¬ Wellformed b ∧ e = .malformedSignature) ∧
      ∀ σ, decode b = .ok σ → σ.encode.toList = b) ∧
    (∀ σ : Signature, decode σ.encode.toList =
      if (Point.decode? σ.r).isSome then .ok σ else .error .malformedSignature) ∧
    (∀ σ τ : Signature, σ = τ ↔ σ.encode = τ.encode) ∧
    ∀ (ts rest : List Wire.Token) (b : Bytes), Wire.readBytes ts = some (b, rest) →
      (∀ σ, Wire.Format.signature.read ts = .ok (σ, rest) →
        Wire.Format.signature.write σ = Wire.writeBytes b) ∧
      ∀ σ, σ.encode.toList = b → Wire.Format.signature.read ts =
        if (Point.decode? σ.r).isSome then .ok (σ, rest)
        else .error (.refused .malformedSignature) := by
  refine ⟨fun b => ⟨exists_decode_iff, fun e => decode_eq_error_iff, ?_⟩, decode_encode, ?_, ?_⟩
  · intro σ h
    exact (decode_eq_ok_iff.1 h).1.symm
  · intro σ τ
    exact ⟨congrArg encode, encode_injective⟩
  · intro ts rest b h
    rw [read_eq h]
    constructor
    · intro σ hσ
      cases hd : decode b with
      | error e =>
        rw [hd] at hσ
        cases hσ
      | ok τ =>
        rw [hd] at hσ
        cases hσ
        show Wire.writeBytes σ.encode.toList = Wire.writeBytes b
        rw [(decode_eq_ok_iff.1 hd).1]
    · rintro σ rfl
      rw [decode_encode]
      by_cases hr : (Point.decode? σ.r).isSome = true
      · rw [if_pos hr, if_pos hr]
      · rw [if_neg hr, if_neg hr]

/-! A commitment to the neutral point that is written with a `y` above `p` and a sign, with the
largest response, and the same commitment with a response that is one too large. -/

/-- The encoding of the neutral point with `y = p + 1` and a set top bit. -/
def unreducedNeutral : Bytes := Bytes.digits 32 (p + 1 + Point.signBit)

theorem writtenAs_unreducedNeutral (s : Bytes) :
    (0 : Point).WrittenAs ((unreducedNeutral ++ s).take 32) :=
  ⟨Octets.ofNat 32 (p + 1 + Point.signBit), List.take_left' (Bytes.length_digits 32 _),
    by decide +kernel⟩

theorem signature_codec_unreducedNeutral :
    Wire.readBytes (Wire.tokens (Wire.writeBytes (unreducedNeutral ++ Bytes.digits 32 (N - 1)))) =
      some (unreducedNeutral ++ Bytes.digits 32 (N - 1), []) ∧
    (∃ σ, decode (unreducedNeutral ++ Bytes.digits 32 (N - 1)) = .ok σ ∧
      σ.encode.toList = unreducedNeutral ++ Bytes.digits 32 (N - 1) ∧
      Wire.Format.signature.read
        (Wire.tokens (Wire.writeBytes (unreducedNeutral ++ Bytes.digits 32 (N - 1)))) =
          .ok (σ, [])) ∧
    decode (unreducedNeutral ++ Bytes.digits 32 N) = .error .malformedSignature := by
  obtain ⟨hdecode, hencode, -, hwire⟩ := signature_codec
  have htokens : Wire.readBytes
      (Wire.tokens (Wire.writeBytes (unreducedNeutral ++ Bytes.digits 32 (N - 1)))) =
        some (unreducedNeutral ++ Bytes.digits 32 (N - 1), []) := by decide +kernel
  have hlargest : Wellformed (unreducedNeutral ++ Bytes.digits 32 (N - 1)) :=
    ⟨by decide, ⟨0, writtenAs_unreducedNeutral _⟩, by decide +kernel⟩
  have hlarger : ¬ Wellformed (unreducedNeutral ++ Bytes.digits 32 N) := by
    intro h
    exact absurd h.response (by decide +kernel)
  obtain ⟨σ, hσ⟩ := (hdecode _).1.2 hlargest
  have hbytes := (hdecode _).2.2 σ hσ
  have hpoint : (Point.decode? σ.r).isSome = true := (decode_eq_ok_iff.1 hσ).2
  have hread := (hwire _ _ _ htokens).2 σ hbytes
  rw [if_pos hpoint] at hread
  exact ⟨htokens, ⟨σ, hσ, hbytes, hread⟩, ((hdecode _).2.1 _).2 ⟨hlarger, rfl⟩⟩

end JointSchnorr.Signature
