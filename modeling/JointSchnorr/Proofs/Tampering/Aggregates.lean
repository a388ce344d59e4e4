import Mathlib
import JointSchnorr.Proofs.Curve.Cofactor
import JointSchnorr.Proofs.JointSigning

/-!
# Signing under wrong aggregates

Parties that sign under aggregates other than the sums of their own keys and nonces still combine
their shares to a signature. Whether it verifies is one equation between the true sums, the
aggregates signed under and the verifying key (`wrong_aggregates_verify_iff`). So a wrong nonce is
always detected, and a wrong key unless challenges collide, also if they differ from the true ones
by a part outside the multiples of the base point.
-/

namespace JointSchnorr

/-- The encoded keys `ds` and nonces `ks`, one of each for a party, are read as `xs` and `ns`. -/
structure Decodes (ds ks : List Bytes) (xs : List PrivateKey) (ns : List Nonce) : Prop where
  keys : List.Forall₂ (fun d x => PrivateKey.decode d = .ok x) ds xs
  nonces : List.Forall₂ (fun k n => Nonce.decode k = .ok n) ks ns
  length_eq : xs.length = ns.length

/-- The parties with the encoded keys `ds` and nonces `ks` sign shares for `m` under the encoded
aggregates `X` and `R`, and the shares combine to `σ`. -/
def JointlySign (m : Bytes) (X R : PublicKey) (ds ks : List Bytes) (σ : Signature) : Prop :=
  ∃ shares : List Signature,
    List.zipWith (fun d k => partialSign m d X.encode.toList k R.encode.toList) ds ks =
        shares.map .ok ∧
      Signature.combine shares = .ok σ

section

variable {m : Bytes} {ds ks : List Bytes} {xs : List PrivateKey} {ns : List Nonce}
  {X R X' R' : PublicKey}

/-- The signature that the shares of the secrets `xs` and `ns` under the aggregates `X` and `R`
combine to. -/
def jointSignature (m : Bytes) (X R : PublicKey) (xs : List PrivateKey) (ns : List Nonce) :
    Signature :=
  ⟨R.encode, Scalar.sum (ns.map (·.scalar)) +
    challenge R.encode X.encode m * Scalar.sum (xs.map (·.scalar))⟩

theorem Decodes.jointlySign (h : Decodes ds ks xs ns) (hne : xs ≠ [])
    (hX : ¬ X.point.IsSmallOrder) (hR : ¬ R.point.IsSmallOrder) (m : Bytes) :
    JointlySign m X R ds ks (jointSignature m X R xs ns) :=
  ⟨_, zipWith_partialSign h.keys h.nonces hX hR,
    combine_shares (c := ⟨X, R, m⟩) h.length_eq hne hR⟩

/-- The joint signature verifies under `Y` when the summed secrets satisfy the equation of `Y`. -/
theorem verify_jointSignature_iff {Y : PublicKey} (hR : ¬ R.point.IsSmallOrder) :
    Y.verify m (jointSignature m X R xs ns) = true ↔
      Scalar.sum (ns.map (·.scalar)) • Point.base +
          challenge R.encode X.encode m • Scalar.sum (xs.map (·.scalar)) • Point.base =
        R.point + challenge R.encode Y.encode m • Y.point := by
  rw [PublicKey.verify_iff_of_commitment rfl hR, jointSignature, Point.add_smul_base,
    Point.mul_smul_base]

/-- **Wrong aggregates.** The true sums are `X` and `R`, and all parties sign under `X'` and `R'`.
Their shares combine, and the signature verifies under a key exactly by one equation of points:
under the true key it never does if only the nonce is wrong, and if only the key is wrong it does
only if the two challenges agree. A signature under the true aggregates verifies under another key
only if both keys times their challenges are the same point. -/
theorem wrong_aggregates_verify_iff (h : Decodes ds ks xs ns) (hne : xs ≠ [])
    (hX : X.point = ((xs.map (·.publicKey)).map PublicKey.point).sum)
    (hR : R.point = ((ns.map (·.publicNonce)).map PublicKey.point).sum)
    (hX' : ¬ X'.point.IsSmallOrder) (hR' : ¬ R'.point.IsSmallOrder) :
    ∃ σ, JointlySign m X' R' ds ks σ ∧
      (∀ Y : PublicKey, Y.verify m σ = true ↔
        R.point + challenge R'.encode X'.encode m • X.point =
          R'.point + challenge R'.encode Y.encode m • Y.point) ∧
      (X' = X → R' ≠ R → X.verify m σ = false) ∧
      (R' = R → ¬ X.point.IsSmallOrder → (X.verify m σ = true ↔
        challenge R'.encode X'.encode m = challenge R'.encode X.encode m)) ∧
      (X' = X → R' = R → ∀ D : Point, PublicKey.verify ⟨X.point + D⟩ m σ = true ↔
        challenge R.encode X.encode m • X.point =
          challenge R.encode (PublicKey.encode ⟨X.point + D⟩) m • (X.point + D)) := by
  rw [PublicKey.sum_multiples _ _ PrivateKey.publicKey_point] at hX
  rw [PublicKey.sum_multiples _ _ Nonce.publicNonce_point] at hR
  have hverify : ∀ Y : PublicKey, Y.verify m (jointSignature m X' R' xs ns) = true ↔
      R.point + challenge R'.encode X'.encode m • X.point =
        R'.point + challenge R'.encode Y.encode m • Y.point := by
    intro Y
    rw [verify_jointSignature_iff hR', hX, hR]
  refine ⟨_, h.jointlySign hne hX' hR' m, hverify, ?_, ?_, ?_⟩
  · rintro rfl hne'
    rw [Bool.eq_false_iff, Ne, hverify, add_left_inj]
    intro hpoint
    cases R
    cases R'
    exact hne' (congrArg PublicKey.mk hpoint.symm)
  · rintro rfl hlarge
    rw [hverify, add_right_inj, Point.smul_inj_of_not_isSmallOrder hlarge]
  · rintro rfl rfl D
    rw [hverify, add_right_inj]

end

/-! Two parties, of which one writes its key and the other its nonce above `N`, sign under sums of
which both, the nonce or the key have a part of order eight, and under the true sums. -/

def looseKeys : List Bytes := [Bytes.digits 32 17, Bytes.digits 32 (N + 19)]

def looseNonces : List Bytes := [Bytes.digits 32 (3 * N + 21), Bytes.digits 32 23]

def readKeys : List PrivateKey := [⟨⟨17, by decide⟩⟩, ⟨⟨19, by decide⟩⟩]

def readNonces : List Nonce := [⟨⟨21, by decide⟩⟩, ⟨⟨23, by decide⟩⟩]

theorem decodes_loose : Decodes looseKeys looseNonces readKeys readNonces where
  keys := .cons (PrivateKey.decode_eq_ok_iff.2 ⟨rfl, by decide +kernel⟩)
    (.cons (PrivateKey.decode_eq_ok_iff.2 ⟨rfl, by decide +kernel⟩) .nil)
  nonces := .cons (Nonce.decode_eq_ok_iff.2 ⟨rfl, by decide +kernel⟩)
    (.cons (Nonce.decode_eq_ok_iff.2 ⟨rfl, by decide +kernel⟩) .nil)
  length_eq := rfl

def trueKey : PublicKey := ⟨(36 : Scalar) • Point.base⟩

def trueNonce : PublicKey := ⟨(44 : Scalar) • Point.base⟩

def shiftedKey : PublicKey := ⟨trueKey.point + Point.eighthTurn⟩

def shiftedNonce : PublicKey := ⟨trueNonce.point + Point.eighthTurn⟩

theorem trueKey_point :
    trueKey.point = ((readKeys.map (·.publicKey)).map PublicKey.point).sum :=
  (PublicKey.sum_multiples _ _ PrivateKey.publicKey_point readKeys).symm

theorem trueNonce_point :
    trueNonce.point = ((readNonces.map (·.publicNonce)).map PublicKey.point).sum :=
  (PublicKey.sum_multiples _ _ Nonce.publicNonce_point readNonces).symm

theorem not_isSmallOrder_trueKey : ¬ trueKey.point.IsSmallOrder :=
  Point.isSmallOrder_smul_base_iff.not.2 (by decide)

theorem not_isSmallOrder_trueNonce : ¬ trueNonce.point.IsSmallOrder :=
  Point.isSmallOrder_smul_base_iff.not.2 (by decide)

theorem not_isSmallOrder_shiftedKey : ¬ shiftedKey.point.IsSmallOrder := by decide +kernel

theorem not_isSmallOrder_shiftedNonce : ¬ shiftedNonce.point.IsSmallOrder := by decide +kernel

theorem wrong_aggregates_verify_iff_shifted :
    (∃ σ, JointlySign [104, 105] shiftedKey shiftedNonce looseKeys looseNonces σ ∧
      ∀ Y : PublicKey, Y.verify [104, 105] σ = true ↔
        trueNonce.point +
            challenge shiftedNonce.encode shiftedKey.encode [104, 105] • trueKey.point =
          shiftedNonce.point + challenge shiftedNonce.encode Y.encode [104, 105] • Y.point) ∧
    (∃ σ, JointlySign [104, 105] trueKey shiftedNonce looseKeys looseNonces σ ∧
      trueKey.verify [104, 105] σ = false) ∧
    (∃ σ, JointlySign [104, 105] shiftedKey trueNonce looseKeys looseNonces σ ∧
      trueKey.verify [104, 105] σ = false) ∧
    ∃ σ, JointlySign [104, 105] trueKey trueNonce looseKeys looseNonces σ ∧
      shiftedKey.verify [104, 105] σ = false := by
  have happly {X' R' : PublicKey} (hX' : ¬ X'.point.IsSmallOrder)
      (hR' : ¬ R'.point.IsSmallOrder) := wrong_aggregates_verify_iff (m := [104, 105])
    decodes_loose (List.cons_ne_nil _ _) trueKey_point trueNonce_point hX' hR'
  refine ⟨?_, ?_, ?_, ?_⟩
  · obtain ⟨σ, hσ, hiff, -⟩ := happly not_isSmallOrder_shiftedKey not_isSmallOrder_shiftedNonce
    exact ⟨σ, hσ, hiff⟩
  · obtain ⟨σ, hσ, -, hnonce, -⟩ := happly not_isSmallOrder_trueKey not_isSmallOrder_shiftedNonce
    exact ⟨σ, hσ, hnonce rfl (by decide +kernel)⟩
  · obtain ⟨σ, hσ, -, -, hkey, -⟩ := happly not_isSmallOrder_shiftedKey not_isSmallOrder_trueNonce
    refine ⟨σ, hσ, Bool.eq_false_iff.2 fun hverify => ?_⟩
    have hcollide := (hkey rfl not_isSmallOrder_trueKey).1 hverify
    exact absurd hcollide (by decide +kernel)
  · obtain ⟨σ, hσ, -, -, -, hother⟩ := happly not_isSmallOrder_trueKey not_isSmallOrder_trueNonce
    refine ⟨σ, hσ, Bool.eq_false_iff.2 fun hverify => ?_⟩
    have hequal := (hother rfl rfl Point.eighthTurn).1 hverify
    exact absurd hequal (by decide +kernel)

end JointSchnorr
