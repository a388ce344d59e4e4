import Mathlib
import JointSchnorr.Proofs.Curve.Decoding
import JointSchnorr.Proofs.MixedOrder
import JointSchnorr.Proofs.Session.Signatories
import JointSchnorr.Proofs.Session.Soundness

/-!
# Commitments as bytes and as points

A signature carries the bytes of its commitment, and the equation of verification is one of points.
So a commitment can be checked in two ways: the point that it is read as is the one that the
response belongs to, or its bytes are the canonical encoding of that point. They agree on
commitments in canonical form and part on all others, which verification reads like any other
encoding (`verification_by_reconstruction`). A share is checked against the encoding of the
aggregate nonce, and on the aggregates themselves its check is that of the joint signature
(`share_check_of_aggregates`).
-/

namespace JointSchnorr

namespace PublicKey

variable {X : PublicKey} {m : Bytes} {σ : Signature}

/-- The point that the response of a signature belongs to. -/
def reconstruct (X : PublicKey) (m : Bytes) (σ : Signature) : Point :=
  σ.s • Point.base - challenge σ.r X.encode m • X.point

theorem verify_iff_reconstruct :
    X.verify m σ = true ↔
      ¬ (X.reconstruct m σ).IsSmallOrder ∧ Point.decode? σ.r = some (X.reconstruct m σ) := by
  rw [verify_eq_true_iff]
  constructor
  · rintro ⟨R, hR, hlarge, h⟩
    have hpoint : X.reconstruct m σ = R := sub_eq_of_eq_add h
    rw [hpoint]
    exact ⟨hlarge, hR⟩
  · rintro ⟨hlarge, hR⟩
    exact ⟨_, hR, hlarge, (sub_add_cancel _ _).symm⟩

end PublicKey

namespace Point

variable {o : Octets 32} {P : Point}

/-- The bytes are the canonical encoding of a point. -/
def IsCanonical (o : Octets 32) : Prop := ∃ P : Point, P.encode = o

theorem decode?_iff_encode_of_isCanonical (h : IsCanonical o) :
    decode? o = some P ↔ P.encode = o := by
  obtain ⟨Q, rfl⟩ := h
  rw [decode?_encode, Option.some.injEq, encode_inj, eq_comm]

/-- Of the encodings of a point that is not of small order, the canonical one is the one with a
reduced `y`. -/
theorem isCanonical_iff_of_decode? (hP : ¬ P.IsSmallOrder) (h : decode? o = some P) :
    IsCanonical o ↔ o.value % 2 ^ 255 < p := by
  have hx : P.x ≠ 0 := mt isSmallOrder_of_x_eq_zero hP
  rw [← encode_eq_iff_of_decode? hx h]
  constructor
  · intro hcanonical
    exact (decode?_iff_encode_of_isCanonical hcanonical).1 h
  · intro hencode
    exact ⟨P, hencode⟩

end Point

namespace PublicKey

/-- **Verification is the reconstruction of the commitment.** A signature is valid exactly if the
commitment is read as the point that the response belongs to, and that point is not of small order.
For a canonical commitment this is to compare its bytes with the encoding of that point. No other
commitment passes the comparison, while the equation may still hold of the point that it is read as:
of the commitments of valid signatures, those with a reduced `y` are canonical. -/
theorem verification_by_reconstruction (X : PublicKey) (m : Bytes) (σ : Signature) :
    (X.verify m σ = true ↔
      ¬ (X.reconstruct m σ).IsSmallOrder ∧ Point.decode? σ.r = some (X.reconstruct m σ)) ∧
    (Point.IsCanonical σ.r →
      (X.verify m σ = true ↔
        ¬ (X.reconstruct m σ).IsSmallOrder ∧ (X.reconstruct m σ).encode = σ.r)) ∧
    (¬ Point.IsCanonical σ.r →
      (X.reconstruct m σ).encode ≠ σ.r ∧
      (X.verify m σ = true ↔ ∃ R, Point.decode? σ.r = some R ∧ ¬ R.IsSmallOrder ∧
        σ.s • Point.base = R + challenge σ.r X.encode m • X.point)) ∧
    (X.verify m σ = true → (Point.IsCanonical σ.r ↔ σ.r.value % 2 ^ 255 < p)) := by
  refine ⟨verify_iff_reconstruct, ?_, ?_, ?_⟩
  · intro hcanonical
    rw [verify_iff_reconstruct, Point.decode?_iff_encode_of_isCanonical hcanonical]
  · intro hcanonical
    exact ⟨fun h => hcanonical ⟨_, h⟩, verify_eq_true_iff⟩
  · intro h
    obtain ⟨hlarge, hR⟩ := verify_iff_reconstruct.1 h
    exact Point.isCanonical_iff_of_decode? hlarge hR

/-! A valid signature with a canonical commitment, and one whose commitment is written with
`y = p + 9`. The point with `y = 9` has a part of order two, which the one of the key cancels. -/

open Aggregator

/-- The point with `y = 9` and an even `x`. -/
def ninthRow : Point :=
  ⟨20998110467665258077629620998309994886851780706327836337918840104339545710600, 9,
    by decide +kernel⟩

/-- The encoding of `ninthRow` with a `y` that is larger by `p`. -/
def ninthRowUnreduced : Octets 32 := Octets.ofNat 32 (p + 9)

/-- A key with a part of order two. -/
def halfTurnedKey : PublicKey := ⟨(5 : Scalar) • Point.base + halfTurn⟩

theorem not_isSmallOrder_ninthRow : ¬ ninthRow.IsSmallOrder := by decide +kernel

theorem decode?_ninthRow : Point.decode? ninthRowUnreduced = some ninthRow := by
  decide +kernel

theorem exists_ninthRow_eq : ∃ k : Scalar, ninthRow = k • Point.base + halfTurn := by
  have hN : N • (ninthRow + halfTurn) = 0 := by decide +kernel
  obtain ⟨k, hk⟩ := Point.N_nsmul_eq_zero_iff.1 hN
  exact ⟨k, by rw [← hk, add_assoc, halfTurn_add_self, add_zero]⟩

theorem exists_verify_ninthRow :
    ∃ s, halfTurnedKey.verify [1] ⟨ninthRowUnreduced, s⟩ = true := by
  obtain ⟨k, hk⟩ := exists_ninthRow_eq
  have hodd : (challenge ninthRowUnreduced halfTurnedKey.encode [1]).val % 2 = 1 := by
    decide +kernel
  have hcancel : halfTurn + challenge ninthRowUnreduced halfTurnedKey.encode [1] • halfTurn
      = 0 := by
    rw [smul_halfTurn_of_odd hodd, halfTurn_add_self]
  -- the response is that of the two multiples of the base point
  exact ⟨_, (verify_iff_of_parts isSmallOrder_halfTurn isSmallOrder_halfTurn rfl
    (hk ▸ decode?_ninthRow) (hk ▸ not_isSmallOrder_ninthRow)).2 ⟨hcancel, rfl⟩⟩

theorem verification_by_reconstruction_ninthRow :
    (five.publicKey.verify [11] (five.signWith three [11]) = true ∧
      Point.IsCanonical (five.signWith three [11]).r ∧
      (five.publicKey.reconstruct [11] (five.signWith three [11])).encode =
        (five.signWith three [11]).r) ∧
    ∃ s, halfTurnedKey.verify [1] ⟨ninthRowUnreduced, s⟩ = true ∧
      ¬ Point.IsCanonical ninthRowUnreduced ∧
      (halfTurnedKey.reconstruct [1] ⟨ninthRowUnreduced, s⟩).encode ≠ ninthRowUnreduced ∧
      Point.decode? ninthRowUnreduced =
        some (halfTurnedKey.reconstruct [1] ⟨ninthRowUnreduced, s⟩) := by
  constructor
  · have hvalid := five.verify_signWith three [11]
    have hr : Point.IsCanonical (five.signWith three [11]).r := ⟨_, rfl⟩
    obtain ⟨-, hcanonical, -⟩ := verification_by_reconstruction five.publicKey [11]
      (five.signWith three [11])
    exact ⟨hvalid, hr, ((hcanonical hr).1 hvalid).2⟩
  · obtain ⟨s, hvalid⟩ := exists_verify_ninthRow
    obtain ⟨hpoint, -, hother, hreduced⟩ := verification_by_reconstruction halfTurnedKey [1]
      ⟨ninthRowUnreduced, s⟩
    have hhigh : ¬ ninthRowUnreduced.value % 2 ^ 255 < p := by decide +kernel
    have hr := (hreduced hvalid).not.2 hhigh
    exact ⟨s, hvalid, hr, (hother hr).1, (hpoint.1 hvalid).2⟩

end PublicKey

namespace Context

variable {c : Context}

/-- On the aggregates, a share is checked as a signature whose commitment is fixed. -/
theorem accepts_aggregates (hR : ¬ c.nonce.point.IsSmallOrder) (σ : Signature) :
    c.accepts c.key c.nonce σ = (decide (σ.r = c.nonce.encode) && c.key.verify c.message σ) := by
  rw [Bool.eq_iff_iff, Bool.and_eq_true, decide_eq_true_iff, accepts_eq_true_iff]
  -- with these bytes, the commitment is read as the aggregate nonce
  refine and_congr_right fun hr => ?_
  rw [PublicKey.verify_iff_of_commitment hr hR, hr]
  rfl

end Context

namespace Signatory.AwaitingSignature

/-- A signatory checks the joint signature as it would a share on the aggregates. -/
theorem accept_eq_ite {p : AwaitingSignature} (hR : ¬ p.context.nonce.point.IsSmallOrder)
    (σ : Signature) :
    p.accept σ = if p.context.accepts p.context.key p.context.nonce σ then
      .ok ⟨p.key, p.message, p.aggregateKey, σ⟩ else .error .invalidSignature := by
  rw [Context.accepts_aggregates hR, accept]
  refine if_congr ?_ rfl rfl
  rw [Bool.and_eq_true, decide_eq_true_iff]
  rfl

end Signatory.AwaitingSignature

/-- **The share check on the aggregates is the check of the joint signature.** With an aggregate
nonce that is not of small order, a signature is accepted as a share of the aggregate key and the
aggregate nonce exactly if it carries the encoding of the nonce and verifies under the key, and a
signatory that awaits the joint signature in this context accepts exactly these, and refuses all
others as invalid. -/
theorem share_check_of_aggregates (c : Context) (hR : ¬ c.nonce.point.IsSmallOrder)
    (σ : Signature) :
    c.accepts c.key c.nonce σ = (decide (σ.r = c.nonce.encode) && c.key.verify c.message σ) ∧
    ∀ p : Signatory.AwaitingSignature, p.context = c →
      p.accept σ = if c.accepts c.key c.nonce σ then .ok ⟨p.key, p.message, p.aggregateKey, σ⟩
        else .error .invalidSignature := by
  refine ⟨Context.accepts_aggregates hR σ, ?_⟩
  rintro p rfl
  exact Signatory.AwaitingSignature.accept_eq_ite hR σ

/-! A signatory that signs alone, and one that awaits a signature with the commitment of `y = 9` and
is sent the valid one that writes it with `y = p + 9`. -/

/-- The signatory with the key five that awaits the joint signature in a context. -/
def fiveAwaiting (c : Context) : Signatory.AwaitingSignature := ⟨five, c.message, c.key, c.nonce⟩

def loneContext : Context := ⟨five.publicKey, three.publicNonce, [11]⟩

def ninthRowContext : Context := ⟨PublicKey.halfTurnedKey, ⟨PublicKey.ninthRow⟩, [1]⟩

theorem share_check_of_aggregates_ninthRow :
    loneContext.accepts loneContext.key loneContext.nonce (five.signWith three [11]) = true ∧
    (fiveAwaiting loneContext).accept (five.signWith three [11]) =
      .ok ⟨five, [11], five.publicKey, five.signWith three [11]⟩ ∧
    ∃ s, PublicKey.halfTurnedKey.verify [1] ⟨PublicKey.ninthRowUnreduced, s⟩ = true ∧
      ninthRowContext.accepts ninthRowContext.key ninthRowContext.nonce
        ⟨PublicKey.ninthRowUnreduced, s⟩ = false ∧
      (fiveAwaiting ninthRowContext).accept ⟨PublicKey.ninthRowUnreduced, s⟩ =
        .error .invalidSignature := by
  have hshare : loneContext.accepts loneContext.key loneContext.nonce (five.signWith three [11]) =
      true := loneContext.accepts_share five three
  obtain ⟨-, haccept⟩ := share_check_of_aggregates loneContext three.not_isSmallOrder
    (five.signWith three [11])
  refine ⟨hshare, ?_, ?_⟩
  · rw [haccept (fiveAwaiting loneContext) rfl, if_pos hshare]
    rfl
  · obtain ⟨s, hvalid⟩ := PublicKey.exists_verify_ninthRow
    obtain ⟨hcheck, hrefuse⟩ := share_check_of_aggregates ninthRowContext
      PublicKey.not_isSmallOrder_ninthRow ⟨PublicKey.ninthRowUnreduced, s⟩
    have hr : PublicKey.ninthRowUnreduced ≠ ninthRowContext.nonce.encode := by decide +kernel
    rw [decide_eq_false hr, Bool.false_and] at hcheck
    refine ⟨s, hvalid, hcheck, ?_⟩
    rw [hrefuse (fiveAwaiting ninthRowContext) rfl, if_neg (Bool.eq_false_iff.1 hcheck)]

end JointSchnorr
