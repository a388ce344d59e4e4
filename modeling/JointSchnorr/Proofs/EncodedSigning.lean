import Mathlib
import JointSchnorr.Proofs.Encoding.PublicKey
import JointSchnorr.Proofs.Encoding.Secret
import JointSchnorr.Proofs.EncodedVerification
import JointSchnorr.Proofs.Encoding.Signature
import JointSchnorr.Proofs.Shares

/-!
# Signing with encoded secrets

A party that holds its secrets and the aggregates as bytes has them read in a fixed order: its key,
the aggregate key, its nonce, the aggregate nonce. The first input that cannot be read decides the
error (`partialSign_eq_error_iff`), which of an aggregate says no more than which one it is. If all
are read, the share is that of the values (`partialSign_eq_ok_iff`). So it does not depend on how a
secret or an aggregate was written, and the parties of a session that were sent the same aggregates
in different bytes still agree on the commitment (`encoded_signing`).
-/

namespace JointSchnorr

/-! ## Inputs that are checked in turn -/

/-- What is asked of an encoded input, and the errors with which it is refused. -/
structure Check where
  passes : Prop
  refuses : Error → Prop

namespace Check

/-- A secret is 32 bytes that write no multiple of `N`. -/
def secret (name : String) (zero : Error) (b : Bytes) : Check where
  passes := b.length = 32 ∧ ¬ N ∣ b.value
  refuses e :=
    (b.length ≠ 32 ∧ ∃ what : Encoded, what.name = name ∧ e = .malformedInput what) ∨
      b.length = 32 ∧ N ∣ b.value ∧ e = zero

/-- An aggregate is any encoding of a point that is not of small order. -/
def aggregate (name : String) (b : Bytes) : Check where
  passes := ∃ P : Point, P.WrittenAs b ∧ ¬ P.IsSmallOrder
  refuses e := (¬ ∃ P : Point, P.WrittenAs b ∧ ¬ P.IsSmallOrder) ∧
    ∃ what : Encoded, what.name = name ∧ e = .malformedInput what

/-- The error of the first check that is not passed. -/
def FirstRefusal : List Check → Error → Prop
  | [], _ => False
  | c :: cs, e => c.refuses e ∨ c.passes ∧ FirstRefusal cs e

/-- The check tells how reading the input ends. -/
structure Judges {α : Type} (c : Check) (x : Except Error α) : Prop where
  ok_iff : (∃ a, x = .ok a) ↔ c.passes
  error_iff : ∀ e, x = .error e ↔ c.refuses e

theorem Judges.bind_eq_error_iff {α β : Type} {c : Check} {cs : List Check} {x : Except Error α}
    {g : α → Except Error β} {e : Error} (hx : c.Judges x)
    (hg : ∀ a, g a = .error e ↔ FirstRefusal cs e) :
    x >>= g = .error e ↔ FirstRefusal (c :: cs) e := by
  rw [FirstRefusal, ← hx.ok_iff, ← hx.error_iff]
  cases x with
  | error e' => simp [bind, Except.bind]
  | ok a => simpa [bind, Except.bind] using hg a

variable {name : String} {what : Encoded}

theorem exists_malformedInput_iff (hname : what.name = name) {e : Error} :
    (∃ w : Encoded, w.name = name ∧ e = .malformedInput w) ↔ e = .malformedInput what := by
  constructor
  · rintro ⟨w, hw, rfl⟩
    rw [Encoded.name_injective (hw.trans hname.symm)]
  · rintro rfl
    exact ⟨what, hname, rfl⟩

theorem judges_decode {zero : Error} (hname : what.name = name) (b : Bytes) :
    (secret name zero b).Judges (Secret.decode what zero b) where
  ok_iff := Secret.exists_decode_iff
  error_iff e := by
    simp only [Secret.decode_eq_error_iff, secret, exists_malformedInput_iff hname]

theorem Judges.map {α β : Type} {c : Check} {x : Except Error α} (h : c.Judges x) (f : α → β) :
    c.Judges (x.map f) where
  ok_iff := by
    rw [← h.ok_iff]
    cases x <;> simp [Except.map]
  error_iff e := by rw [map_eq_error_iff, h.error_iff]

theorem judges_decodeAggregate (hname : what.name = name) (b : Bytes) :
    (aggregate name b).Judges (decodeAggregate what b) := by
  have hok : (∃ X, PublicKey.decode b = .ok X) ↔ ∃ P : Point, P.WrittenAs b ∧ ¬ P.IsSmallOrder := by
    simp only [PublicKey.decode_eq_ok_iff_writtenAs]
    constructor
    · rintro ⟨X, hX⟩
      exact ⟨X.point, hX⟩
    · rintro ⟨P, hP⟩
      exact ⟨⟨P⟩, hP⟩
  refine ⟨?_, fun e => ?_⟩
  · simp only [aggregate, ← hok, decodeAggregate, mapError_eq_ok_iff]
  · simp only [aggregate, ← hok, exists_malformedInput_iff hname, decodeAggregate]
    cases PublicKey.decode b <;> simp [Except.mapError, eq_comm]

end Check

/-! ## Shares -/

section

variable {m d X k R : Bytes} {σ : Signature}

open Check in
theorem partialSign_eq_error_iff {e : Error} :
    partialSign m d X k R = .error e ↔
      FirstRefusal [secret "private key" .invalidKey d, aggregate "aggregate public key" X,
        secret "secret nonce" .invalidNonce k, aggregate "aggregate public nonce" R] e := by
  -- one step for each input, in the order in which they are read
  refine ((judges_decode rfl d).map _).bind_eq_error_iff fun x => ?_
  refine (judges_decodeAggregate rfl X).bind_eq_error_iff fun A => ?_
  refine ((judges_decode rfl k).map _).bind_eq_error_iff fun n => ?_
  refine (judges_decodeAggregate rfl R).bind_eq_error_iff fun C => ?_
  simp [FirstRefusal, pure, Except.pure]

theorem partialSign_eq_ok_iff :
    partialSign m d X k R = .ok σ ↔ ∃ x A n C, PrivateKey.decode d = .ok x ∧
      PublicKey.decode X = .ok A ∧ Nonce.decode k = .ok n ∧ PublicKey.decode R = .ok C ∧
      σ = Context.share ⟨A, C, m⟩ x n := by
  simp only [partialSign, bind_eq_ok_iff, decodeAggregate, mapError_eq_ok_iff, pure, Except.pure,
    Except.ok.injEq]
  constructor
  · rintro ⟨x, hx, A, hA, n, hn, C, hC, rfl⟩
    exact ⟨x, A, n, C, hx, hA, hn, hC, rfl⟩
  · rintro ⟨x, A, n, C, hx, hA, hn, hC, rfl⟩
    exact ⟨x, hx, A, hA, n, hn, C, hC, rfl⟩

end

/-! ## Other encodings -/

section

variable {m d X k R : Bytes} {σ : Signature}

theorem partialSign_of_other_encodings {d' X' k' R' : Bytes} {P Q : Point}
    (h : partialSign m d X k R = .ok σ)
    (hd : d'.length = 32) (hdmod : d'.value ≡ d.value [MOD N])
    (hX : P.WrittenAs X) (hX' : P.WrittenAs X')
    (hk : k'.length = 32) (hkmod : k'.value ≡ k.value [MOD N])
    (hR : Q.WrittenAs R) (hR' : Q.WrittenAs R') : partialSign m d' X' k' R' = .ok σ := by
  obtain ⟨x, A, n, C, hx, hA, hn, hC, rfl⟩ := partialSign_eq_ok_iff.1 h
  obtain ⟨-, hdx⟩ := PrivateKey.decode_eq_ok_iff.1 hx
  obtain ⟨-, hkn⟩ := Nonce.decode_eq_ok_iff.1 hn
  refine partialSign_eq_ok_iff.2 ⟨x, A, n, C, ?_, PublicKey.decode_of_writtenAs hA hX hX', ?_,
    PublicKey.decode_of_writtenAs hC hR hR', rfl⟩
  · exact PrivateKey.decode_eq_ok_iff.2 ⟨hd, (Scalar.ofBytes_eq_iff.2 hdmod).trans hdx⟩
  · exact Nonce.decode_eq_ok_iff.2 ⟨hk, (Scalar.ofBytes_eq_iff.2 hkmod).trans hkn⟩

/-- The share is accepted for the public values of the numbers that the secrets are written as. -/
theorem accepts_of_partialSign (h : partialSign m d X k R = .ok σ) :
    ∃ A C, PublicKey.decode X = .ok A ∧ PublicKey.decode R = .ok C ∧ σ.r = C.encode ∧
      Context.accepts ⟨A, C, m⟩ ⟨d.value • Point.base⟩ ⟨k.value • Point.base⟩ σ = true := by
  obtain ⟨x, A, n, C, hx, hA, hn, hC, rfl⟩ := partialSign_eq_ok_iff.1 h
  have hkey : x.publicKey = ⟨d.value • Point.base⟩ :=
    Secret.publicPart_of_ofBytes (PrivateKey.decode_eq_ok_iff.1 hx).2
  have hnonce : n.publicNonce = ⟨k.value • Point.base⟩ :=
    Secret.publicPart_of_ofBytes (Nonce.decode_eq_ok_iff.1 hn).2
  refine ⟨A, C, hA, hC, rfl, ?_⟩
  rw [← hkey, ← hnonce]
  exact Context.accepts_share _ x n

theorem decode_encode_of_partialSign (h : partialSign m d X k R = .ok σ) :
    Signature.decode σ.encode.toList = .ok σ := by
  obtain ⟨A, C, -, -, hr, -⟩ := accepts_of_partialSign h
  rw [Signature.decode_encode, hr, PublicKey.encode, Point.decode?_encode]
  rfl

end

/-- **Signing with encoded secrets is signing with their values.** The inputs are checked in turn,
and the first that cannot be read gives the error, for an aggregate always the same one. The share
of inputs that are read is that of the values. It stays the same when secrets are replaced by
congruent ones and aggregates by other encodings of the same points, its commitment is the canonical
encoding of the aggregate nonce, it is accepted for the multiples of the base point by the secrets,
and it is read back from its bytes. -/
theorem encoded_signing (m d X k R : Bytes) :
    (∀ e, partialSign m d X k R = .error e ↔
      Check.FirstRefusal [.secret "private key" .invalidKey d, .aggregate "aggregate public key" X,
        .secret "secret nonce" .invalidNonce k, .aggregate "aggregate public nonce" R] e) ∧
    (∀ σ, partialSign m d X k R = .ok σ ↔ ∃ x A n C, PrivateKey.decode d = .ok x ∧
      PublicKey.decode X = .ok A ∧ Nonce.decode k = .ok n ∧ PublicKey.decode R = .ok C ∧
      σ = Context.share ⟨A, C, m⟩ x n) ∧
    ∀ σ, partialSign m d X k R = .ok σ →
      (∀ (d' X' k' R' : Bytes) (P Q : Point),
        d'.length = 32 → d'.value ≡ d.value [MOD N] → P.WrittenAs X → P.WrittenAs X' →
        k'.length = 32 → k'.value ≡ k.value [MOD N] → Q.WrittenAs R → Q.WrittenAs R' →
        partialSign m d' X' k' R' = .ok σ) ∧
      (∃ A C, PublicKey.decode X = .ok A ∧ PublicKey.decode R = .ok C ∧ σ.r = C.encode ∧
        Context.accepts ⟨A, C, m⟩ ⟨d.value • Point.base⟩ ⟨k.value • Point.base⟩ σ = true) ∧
      Signature.decode σ.encode.toList = .ok σ := by
  refine ⟨fun e => partialSign_eq_error_iff, fun σ => partialSign_eq_ok_iff, fun σ h => ?_⟩
  refine ⟨?_, accepts_of_partialSign h, decode_encode_of_partialSign h⟩
  intro d' X' k' R' P Q hd hdmod hX hX' hk hkmod hR hR'
  exact partialSign_of_other_encodings h hd hdmod hX hX' hk hkmod hR hR'

/-! Two secrets and two aggregates that are written in two ways each, an aggregate key of small
order before a nonce that is a multiple of `N`, and that nonce before no aggregate nonce at all. -/

open PublicKey

theorem exists_partialSign_reduced (m : Bytes) :
    ∃ σ, partialSign m (Bytes.digits 32 23) (Bytes.digits 32 3) (Bytes.digits 32 29)
      eighteenthRow.encode.toList = .ok σ := by
  refine ⟨_, partialSign_eq_ok_iff.2 ⟨⟨⟨23, by decide⟩⟩, thirdRow, ⟨⟨29, by decide⟩⟩, eighteenthRow,
    ?_, decode_thirdRow, ?_, decode_encode (by decide +kernel), rfl⟩⟩
  · exact PrivateKey.decode_eq_ok_iff.2 ⟨by decide, by decide +kernel⟩
  · exact Nonce.decode_eq_ok_iff.2 ⟨by decide, by decide +kernel⟩

/-- One is the encoding of zero. -/
theorem isSmallOrder_of_writtenAs_one {P : Point} (hP : P.WrittenAs (Bytes.digits 32 1)) :
    P.IsSmallOrder := by
  have hzero : (0 : Point).WrittenAs (Bytes.digits 32 1) :=
    Point.writtenAs_iff.2 (by decide +kernel)
  rw [hP.unique hzero]
  exact smul_zero 8

theorem encoded_signing_unreduced :
    (∃ σ, partialSign [104, 105] (Bytes.digits 32 23) (Bytes.digits 32 3) (Bytes.digits 32 29)
        eighteenthRow.encode.toList = .ok σ ∧
      partialSign [104, 105] (Bytes.digits 32 (N + 23)) (Bytes.digits 32 (p + 3))
        (Bytes.digits 32 (2 * N + 29)) (List.replicate 32 255) = .ok σ ∧
      σ.r = eighteenthRow.encode ∧
      Context.accepts ⟨thirdRow, eighteenthRow, [104, 105]⟩ ⟨23 • Point.base⟩ ⟨29 • Point.base⟩ σ ∧
      Signature.decode σ.encode.toList = .ok σ) ∧
    partialSign [104, 105] (Bytes.digits 32 23) (Bytes.digits 32 1) (Bytes.digits 32 N) [] =
      .error (.malformedInput .aggregateKey) ∧
    partialSign [104, 105] (Bytes.digits 32 23) (Bytes.digits 32 3) (Bytes.digits 32 N) [] =
      .error .invalidNonce := by
  have hsecret : (Bytes.digits 32 23).length = 32 ∧ ¬ N ∣ (Bytes.digits 32 23).value :=
    ⟨by decide, by decide +kernel⟩
  have hmultiple : (Bytes.digits 32 N).length = 32 ∧ N ∣ (Bytes.digits 32 N).value :=
    ⟨by decide, by decide +kernel⟩
  have hrow := decode_eq_ok_iff_writtenAs.1 decode_thirdRow
  have hrow' := decode_eq_ok_iff_writtenAs.1 decode_thirdRow_unreduced
  refine ⟨?_, ?_, ?_⟩
  · obtain ⟨σ, hσ⟩ := exists_partialSign_reduced [104, 105]
    obtain ⟨hother, ⟨A, C, hA, hC, hr, haccepts⟩, hread⟩ := (encoded_signing _ _ _ _ _).2.2 σ hσ
    have hlarge : ¬ eighteenthRow.point.IsSmallOrder := by decide +kernel
    have hlast : eighteenthRow.point.WrittenAs (List.replicate 32 255) :=
      Point.writtenAs_iff.2 (by decide +kernel)
    have hlast' := (decode_eq_ok_iff_writtenAs.1 (decode_encode hlarge)).1
    have hkey : A = thirdRow := Except.ok.inj (hA.symm.trans decode_thirdRow)
    have hnonce : C = eighteenthRow := Except.ok.inj (hC.symm.trans (decode_encode hlarge))
    have hvalue : (Bytes.digits 32 23).value = 23 ∧ (Bytes.digits 32 29).value = 29 := by
      decide +kernel
    rw [hkey, hnonce, hvalue.1, hvalue.2] at haccepts
    rw [hnonce] at hr
    exact ⟨σ, hσ, hother _ _ _ _ _ _ (by decide) (by decide +kernel) hrow.1 hrow'.1 (by decide)
      (by decide +kernel) hlast' hlast, hr, haccepts, hread⟩
  · -- the aggregate key is judged before the nonce
    have hsmall : ¬ ∃ P : Point, P.WrittenAs (Bytes.digits 32 1) ∧ ¬ P.IsSmallOrder := by
      rintro ⟨P, hP, hlarge⟩
      exact hlarge (isSmallOrder_of_writtenAs_one hP)
    exact ((encoded_signing _ _ _ _ _).1 _).2 (.inr ⟨hsecret, .inl ⟨hsmall, _, rfl, rfl⟩⟩)
  · exact ((encoded_signing _ _ _ _ _).1 _).2 (.inr ⟨hsecret, .inr ⟨⟨_, hrow⟩,
      .inl (.inr ⟨hmultiple.1, hmultiple.2, rfl⟩)⟩⟩)

end JointSchnorr
