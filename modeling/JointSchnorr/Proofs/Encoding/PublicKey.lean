import Mathlib
import JointSchnorr.Proofs.Aggregates
import JointSchnorr.Proofs.Curve.Decoding
import JointSchnorr.Proofs.Encoding.Key

/-!
# Public keys from byte strings

Bytes that write no point are malformed, those that write a point of small order are an invalid key,
and all others are read as the key of their point. A key may be written in more than one way, but
not in many: besides the canonical encoding there is the one with a `y` that is larger by `p`, and
only for a `y` below 19 (`decode_eq_ok_iff_encode`). No sign is lost on the way, because the points
in which it would be are of small order and no keys.
-/

namespace JointSchnorr.PublicKey

variable {b : Bytes} {X : PublicKey}

theorem x_ne_zero (hX : ¬ X.point.IsSmallOrder) : X.point.x ≠ 0 := by
  intro hx
  exact hX (Point.isSmallOrder_of_x_eq_zero hx)

theorem decode_eq_ok_iff_writtenAs :
    decode b = .ok X ↔ X.point.WrittenAs b ∧ ¬ X.point.IsSmallOrder := by
  rw [decode_eq_ok_iff, Point.writtenAs_iff]

/-- All that a point is written as is read as the same key. -/
theorem decode_of_writtenAs {b' : Bytes} {P : Point} (hX : decode b = .ok X) (h : P.WrittenAs b)
    (h' : P.WrittenAs b') : decode b' = .ok X := by
  obtain ⟨hwritten, hlarge⟩ := decode_eq_ok_iff_writtenAs.1 hX
  rw [h.unique hwritten] at h'
  exact decode_eq_ok_iff_writtenAs.2 ⟨h', hlarge⟩

theorem decode_eq_malformedInput_iff {what : Encoded} :
    decode b = .error (.malformedInput what) ↔
      what = .publicKey ∧ ¬ ∃ P : Point, P.WrittenAs b := by
  simp only [Point.writtenAs_iff]
  unfold decode
  cases (Octets.ofList? 32 b).bind Point.decode? with
  | none => simp [eq_comm]
  | some P => simp [ofPoint_eq_error_iff]

theorem decode_eq_invalidKey_iff :
    decode b = .error .invalidKey ↔ ∃ P : Point, P.WrittenAs b ∧ P.IsSmallOrder := by
  simp only [Point.writtenAs_iff]
  unfold decode
  cases (Octets.ofList? 32 b).bind Point.decode? with
  | none => simp
  | some P => simp [ofPoint_eq_error_iff]

theorem not_writtenAs_iff :
    (¬ ∃ P : Point, P.WrittenAs b) ↔
      b.length ≠ 32 ∨ ∃ o : Octets 32, b = o.toList ∧ Point.decode? o = none := by
  constructor
  · intro h
    by_cases hl : b.length = 32
    · right
      refine ⟨⟨b, hl⟩, rfl, ?_⟩
      cases hP : Point.decode? ⟨b, hl⟩ with
      | none => rfl
      | some P => exact absurd ⟨P, ⟨b, hl⟩, rfl, hP⟩ h
    · exact .inl hl
  · rintro (hl | ⟨o, rfl, ho⟩) ⟨P, o', hb, hP⟩
    · exact hl (by rw [hb, o'.length_toList])
    · rw [Octets.ext hb, hP] at ho
      cases ho

/-- The canonical encoding of a key that is read from bytes is these bytes if their low 255 bits
are. -/
theorem encode_eq_iff_of_decode (h : decode b = .ok X) :
    X.encode.toList = b ↔ b.value % 2 ^ 255 < p := by
  obtain ⟨⟨o, rfl, ho⟩, hX⟩ := decode_eq_ok_iff_writtenAs.1 h
  have hcanonical := Point.encode_eq_iff_of_decode? (x_ne_zero hX) ho
  constructor
  · intro hbytes
    exact hcanonical.1 (Octets.ext hbytes)
  · intro hlow
    exact congrArg Octets.toList (hcanonical.2 hlow)

theorem decode_eq_ok_iff_encode (hX : ¬ X.point.IsSmallOrder) :
    decode b = .ok X ↔ b = X.encode.toList ∨
      X.point.y.val < 19 ∧ b = (Octets.ofNat 32 (X.encode.value + p)).toList := by
  have hvalue : ∀ {o : Octets 32}, Point.decode? o = some X.point ↔
      o.value = X.encode.value ∨ X.point.y.val < 19 ∧ o.value = X.encode.value + p :=
    Point.decode?_eq_some_iff_value (x_ne_zero hX)
  rw [decode_eq_ok_iff_writtenAs, and_iff_left hX]
  constructor
  · rintro ⟨o, rfl, ho⟩
    rcases hvalue.1 ho with hreduced | ⟨hy, hunreduced⟩
    · left
      rw [Octets.value_injective hreduced]
    · right
      exact ⟨hy, by rw [← hunreduced, Octets.ofNat_value]⟩
  · rintro (rfl | ⟨hy, rfl⟩)
    · exact ⟨X.encode, rfl, hvalue.2 (.inl rfl)⟩
    · refine ⟨_, rfl, hvalue.2 (.inr ⟨hy, Octets.value_ofNat ?_⟩)⟩
      -- a `y` below 19 leaves room for `p` below the top bit
      have hencode := Point.value_encode_eq X.point
      have hroom : p + 19 + Point.signBit = 256 ^ 32 := by decide
      rw [← hroom]
      show X.point.encode.value + p < p + 19 + Point.signBit
      split at hencode <;> omega

/-- **Keys are written in at most two ways.** Bytes that are not 32 or write no point are malformed,
those of a point of small order are an invalid key, and any others are read as a key. Neither the
public part of a secret nor a point that passed as a key is of small order, so each key is read from
its canonical encoding, which no other key has. The bytes that a key is read from are its canonical
encoding exactly if their low 255 bits are below `p`; the only others have a `y` that is larger by
`p`, and they exist for a `y` below 19. -/
theorem public_key_codec :
    (∀ b : Bytes,
      (∀ what : Encoded, decode b = .error (.malformedInput what) ↔ what.name = "public key" ∧
        (b.length ≠ 32 ∨ ∃ o : Octets 32, b = o.toList ∧ Point.decode? o = none)) ∧
      (decode b = .error .invalidKey ↔ ∃ P : Point, P.WrittenAs b ∧ 8 • P = 0) ∧
      (∀ X, decode b = .ok X ↔ X.point.WrittenAs b ∧ 8 • X.point ≠ 0) ∧
      ∀ X, decode b = .ok X →
        decode X.encode.toList = .ok X ∧ (X.encode.toList = b ↔ b.value % 2 ^ 255 < p)) ∧
    (∀ k : Secret, 8 • k.publicPart.point ≠ 0) ∧
    (∀ P X, ofPoint P = .ok X → 8 • X.point ≠ 0) ∧
    (∀ X : PublicKey, 8 • X.point ≠ 0 →
      decode X.encode.toList = .ok X ∧
      ∀ b, decode b = .ok X ↔ b = X.encode.toList ∨
        X.point.y.val < 19 ∧ b = (Octets.ofNat 32 (X.encode.value + p)).toList) ∧
    ∀ X Y : PublicKey, X = Y ↔ X.encode = Y.encode := by
  refine ⟨fun b => ⟨?_, decode_eq_invalidKey_iff, fun X => decode_eq_ok_iff_writtenAs, ?_⟩,
    Secret.not_isSmallOrder, ?_, ?_, ?_⟩
  · intro what
    have hname : what = .publicKey ↔ what.name = Encoded.publicKey.name :=
      Encoded.name_injective.eq_iff.symm
    rw [decode_eq_malformedInput_iff, not_writtenAs_iff, hname]
    rfl
  · intro X h
    exact ⟨decode_encode (decode_eq_ok_iff_writtenAs.1 h).2, encode_eq_iff_of_decode h⟩
  · intro P X h
    obtain ⟨rfl, hX⟩ := ofPoint_eq_ok_iff.1 h
    exact hX
  · intro X hX
    exact ⟨decode_encode hX, fun b => decode_eq_ok_iff_encode hX⟩
  · intro X Y
    exact encode_inj.symm

/-! The key with the largest `y` of two encodings and an odd `x`: it is read from the bytes all of
whose bits are set. -/

/-- The key with `y = 18` and an odd `x`. -/
def eighteenthRow : PublicKey :=
  ⟨⟨-24955915220342692964971208821014542627211739005308489835959708316178776387624, 18,
    by decide +kernel⟩⟩

theorem public_key_codec_eighteenthRow :
    8 • eighteenthRow.point ≠ 0 ∧
    decode (List.replicate 32 255) = .ok eighteenthRow ∧
    decode eighteenthRow.encode.toList = .ok eighteenthRow ∧
    ¬ Bytes.value (List.replicate 32 255) % 2 ^ 255 < p ∧
    eighteenthRow.encode.toList ≠ List.replicate 32 255 := by
  obtain ⟨hbytes, -, -, hkey, -⟩ := public_key_codec
  have hlarge : 8 • eighteenthRow.point ≠ 0 := by decide +kernel
  have hhigh : ¬ Bytes.value (List.replicate 32 255) % 2 ^ 255 < p := by decide +kernel
  have hsum :
      List.replicate 32 255 = (Octets.ofNat 32 (eighteenthRow.encode.value + p)).toList := by
    decide +kernel
  obtain ⟨hencode, hread⟩ := hkey eighteenthRow hlarge
  have hdecode := (hread (List.replicate 32 255)).2 (.inr ⟨by decide, hsum⟩)
  have hcanonical := ((hbytes _).2.2.2 _ hdecode).2
  exact ⟨hlarge, hdecode, hencode, hhigh, fun h => hhigh (hcanonical.1 h)⟩

end JointSchnorr.PublicKey
