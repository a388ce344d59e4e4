import Mathlib
import JointSchnorr.Proofs.Encoding.BitFlip
import JointSchnorr.Proofs.Tampering.Aggregates

/-!
# Signing with wrong secrets

Parties that sign under the true aggregates, but not with the secrets that these were summed from,
combine their shares to a signature that verifies exactly if the differences of the secrets cancel,
those of the keys times the challenge (`wrong_secrets_verify_iff`). One flipped bit never cancels:
in a nonce it is always detected, and in a key unless the challenge is zero.
-/

namespace JointSchnorr

/-! ## Sums of differences -/

namespace Scalar

theorem eq_zero_iff_dvd {a : Scalar} : a = 0 ↔ N ∣ a.val := by
  constructor
  · rintro rfl
    exact dvd_zero N
  · intro h
    exact Fin.ext (Nat.eq_zero_of_dvd_of_lt h a.isLt)

theorem mul_eq_zero_iff {a b : Scalar} : a * b = 0 ↔ a = 0 ∨ b = 0 := by
  rw [eq_zero_iff_dvd, eq_zero_iff_dvd, eq_zero_iff_dvd, ← N_prime.dvd_mul, Fin.val_mul,
    Nat.dvd_mod_iff (dvd_refl N)]

section Differences

variable {α : Type} (f : α → Scalar)

/-- The sum of the differences between the items of two lists. -/
def sumDifferences (as bs : List α) : Scalar := sum (List.zipWith (fun a b => f a - f b) as bs)

open Fin.CommRing in
theorem sumDifferences_eq {as bs : List α} (h : as.length = bs.length) :
    sumDifferences f as bs = sum (as.map f) - sum (bs.map f) := by
  induction as generalizing bs with
  | nil =>
    rw [List.length_nil] at h
    rw [List.length_eq_zero_iff.1 h.symm]
    exact (sub_self 0).symm
  | cons a as ih =>
    cases bs with
    | nil => simp at h
    | cons b bs =>
      show f a - f b + sumDifferences f as bs =
        f a + sum (as.map f) - (f b + sum (bs.map f))
      rw [ih (Nat.succ.inj h)]
      ring

theorem sumDifferences_self (as : List α) : sumDifferences f as as = 0 := by
  rw [sumDifferences_eq f rfl, sub_self]

theorem sumDifferences_set {as : List α} {i : Nat} {b : α} (h : as[i]? = some b) (a : α) :
    sumDifferences f (as.set i a) as = f a - f b := by
  induction as generalizing i with
  | nil => simp at h
  | cons c as ih =>
    cases i with
    | zero =>
      cases Option.some.inj h
      show f a - f b + sumDifferences f as as = f a - f b
      rw [sumDifferences_self, add_zero]
    | succ i =>
      show f c - f c + sumDifferences f (as.set i a) as = f a - f b
      rw [ih h, sub_self, zero_add]

end Differences

end Scalar

/-! ## One party's encoding replaced -/

section Replaced

variable {α β : Type} {r : α → β → Prop} {as : List α} {bs : List β} {i : Nat} {a : α} {b : β}

theorem forall₂_set (h : List.Forall₂ r as bs) (hab : r a b) (i : Nat) :
    List.Forall₂ r (as.set i a) (bs.set i b) := by
  induction h generalizing i with
  | nil => exact .nil
  | cons hr hrest ih =>
    cases i with
    | zero => exact .cons hab hrest
    | succ i => exact .cons hr (ih i)

theorem exists_getElem?_of_forall₂ (h : List.Forall₂ r as bs) (ha : as[i]? = some a) :
    ∃ b, bs[i]? = some b ∧ r a b := by
  induction h generalizing i with
  | nil => simp at ha
  | cons hr _ ih =>
    cases i with
    | zero =>
      cases Option.some.inj ha
      exact ⟨_, rfl, hr⟩
    | succ i => exact ih ha

end Replaced

section

variable {m : Bytes} {ds ks : List Bytes} {xs xs' : List PrivateKey} {ns ns' : List Nonce}
  {X R : PublicKey} {d k : Bytes}

theorem Decodes.set_key {x : PrivateKey} (h : Decodes ds ks xs ns)
    (hd : PrivateKey.decode d = .ok x) (i : Nat) : Decodes (ds.set i d) ks (xs.set i x) ns :=
  ⟨forall₂_set h.keys hd i, h.nonces, by rw [List.length_set, h.length_eq]⟩

theorem Decodes.set_nonce {n : Nonce} (h : Decodes ds ks xs ns) (hk : Nonce.decode k = .ok n)
    (i : Nat) : Decodes ds (ks.set i k) xs (ns.set i n) :=
  ⟨h.keys, forall₂_set h.nonces hk i, by rw [List.length_set, h.length_eq]⟩

theorem partialSign_of_key_error {e : Error} {X R k : Bytes} (h : PrivateKey.decode d = .error e) :
    partialSign m d X k R = .error e := by
  rw [partialSign, h]
  rfl

theorem partialSign_of_nonce_error {x : PrivateKey} {e : Error} {R : Bytes}
    (hd : PrivateKey.decode d = .ok x) (hX : ¬ X.point.IsSmallOrder)
    (h : Nonce.decode k = .error e) : partialSign m d X.encode.toList k R = .error e := by
  rw [partialSign, hd, PublicKey.decodeAggregate_encode _ hX, h]
  rfl

/-! ## The equation of the differences -/

open Fin.CommRing in
theorem verify_jointSignature_iff_sumDifferences
    (hX : X.point = Scalar.sum (xs.map (·.scalar)) • Point.base)
    (hR : R.point = Scalar.sum (ns.map (·.scalar)) • Point.base) (hlarge : ¬ R.point.IsSmallOrder)
    (hxs : xs'.length = xs.length) (hns : ns'.length = ns.length) :
    X.verify m (jointSignature m X R xs' ns') = true ↔
      Scalar.sumDifferences (·.scalar) ns' ns +
        challenge R.encode X.encode m * Scalar.sumDifferences (·.scalar) xs' xs = 0 := by
  rw [verify_jointSignature_iff hlarge, hX, hR, ← Point.mul_smul_base, ← Point.mul_smul_base,
    ← Point.add_smul_base, ← Point.add_smul_base, Point.smul_base_inj, ← sub_eq_zero,
    Scalar.sumDifferences_eq _ hxs, Scalar.sumDifferences_eq _ hns, mul_sub, add_sub_add_comm]

/-- The signature that any secrets make under the true aggregates verifies exactly if their
differences to the true secrets cancel. -/
theorem exists_jointlySign_verify_iff {ds' ks' : List Bytes}
    (hX : PublicKey.aggregate (xs.map (·.publicKey)) = .ok X)
    (hR : PublicKey.aggregateNonces (ns.map (·.publicNonce)) = .ok R)
    (h' : Decodes ds' ks' xs' ns') (hxs : xs'.length = xs.length) (hns : ns'.length = ns.length) :
    ∃ σ, JointlySign m X R ds' ks' σ ∧ (X.verify m σ = true ↔
      Scalar.sumDifferences (·.scalar) ns' ns +
        challenge R.encode X.encode m * Scalar.sumDifferences (·.scalar) xs' xs = 0) := by
  obtain ⟨hne, hXsum, hXlarge⟩ := PublicKey.aggregate_eq_ok_iff.1 hX
  obtain ⟨-, hRsum, hRlarge⟩ :=
    PublicKey.aggregate_eq_ok_iff.1 (PublicKey.aggregateNonces_eq_ok_iff.1 hR)
  rw [PublicKey.sum_multiples _ _ PrivateKey.publicKey_point] at hXsum
  rw [PublicKey.sum_multiples _ _ Nonce.publicNonce_point] at hRsum
  have hne' : xs' ≠ [] := by
    rintro rfl
    exact hne (by rw [List.length_eq_zero_iff.1 hxs.symm]; rfl)
  exact ⟨_, h'.jointlySign hne' hXlarge hRlarge m,
    verify_jointSignature_iff_sumDifferences hXsum hRsum hRlarge hxs hns⟩

/-- **Wrong secrets.** Under the true aggregates the combined signature of any secrets verifies
exactly if the differences to the true secrets cancel. So a key with one flipped bit is refused or
makes the signature invalid, unless the challenge is zero, and a nonce with one flipped bit is
refused or makes it invalid in any case. -/
theorem wrong_secrets_verify_iff (h : Decodes ds ks xs ns)
    (hX : PublicKey.aggregate (xs.map (·.publicKey)) = .ok X)
    (hR : PublicKey.aggregateNonces (ns.map (·.publicNonce)) = .ok R) (m : Bytes) :
    (∀ ds' ks' xs' ns', Decodes ds' ks' xs' ns' → xs'.length = xs.length →
      ∃ σ, JointlySign m X R ds' ks' σ ∧ (X.verify m σ = true ↔
        Scalar.sumDifferences (·.scalar) ns' ns +
          challenge R.encode X.encode m * Scalar.sumDifferences (·.scalar) xs' xs = 0)) ∧
    (∀ (i j : Nat) (d k : Bytes), ds[i]? = some d → ks[i]? = some k → j < 256 →
      partialSign m (d.flipBit j) X.encode.toList k R.encode.toList = .error .invalidKey ∨
        ∃ σ, JointlySign m X R (ds.set i (d.flipBit j)) ks σ ∧
          (X.verify m σ = true ↔ challenge R.encode X.encode m = 0)) ∧
    ∀ (i j : Nat) (d k : Bytes), ds[i]? = some d → ks[i]? = some k → j < 256 →
      partialSign m d X.encode.toList (k.flipBit j) R.encode.toList = .error .invalidNonce ∨
        ∃ σ, JointlySign m X R ds (ks.set i (k.flipBit j)) σ ∧ X.verify m σ = false := by
  refine ⟨?_, ?_, ?_⟩
  · intro ds' ks' xs' ns' h' hxs
    exact exists_jointlySign_verify_iff hX hR h' hxs
      (by rw [← h'.length_eq, hxs, h.length_eq])
  · intro i j d k hd _ hj
    obtain ⟨x, hx, hdx⟩ := exists_getElem?_of_forall₂ h.keys hd
    rcases PrivateKey.decode_flipBit hdx hj with herror | ⟨x', hdx', hne⟩
    · exact .inl (partialSign_of_key_error herror)
    · obtain ⟨σ, hσ, hiff⟩ := exists_jointlySign_verify_iff (m := m) hX hR (h.set_key hdx' i)
        List.length_set rfl
      refine .inr ⟨σ, hσ, ?_⟩
      rw [hiff, Scalar.sumDifferences_self, Scalar.sumDifferences_set _ hx, zero_add,
        Scalar.mul_eq_zero_iff, sub_eq_zero, or_iff_left hne]
  · intro i j d k hd hk hj
    obtain ⟨x, -, hdx⟩ := exists_getElem?_of_forall₂ h.keys hd
    obtain ⟨n, hn, hkn⟩ := exists_getElem?_of_forall₂ h.nonces hk
    rcases Nonce.decode_flipBit hkn hj with herror | ⟨n', hkn', hne⟩
    · have hlarge := (PublicKey.aggregate_eq_ok_iff.1 hX).2.2
      exact .inl (partialSign_of_nonce_error hdx hlarge herror)
    · obtain ⟨σ, hσ, hiff⟩ := exists_jointlySign_verify_iff (m := m) hX hR (h.set_nonce hkn' i)
        rfl List.length_set
      refine .inr ⟨σ, hσ, ?_⟩
      rw [Bool.eq_false_iff, Ne, hiff, Scalar.sumDifferences_self, Scalar.sumDifferences_set _ hn,
        Fin.mul_zero, add_zero, sub_eq_zero]
      exact hne

end

/-! The two parties sign with each other's keys, with the top bit of a key flipped, and with a bit
of a nonce flipped. -/

theorem aggregate_readKeys : PublicKey.aggregate (readKeys.map (·.publicKey)) = .ok trueKey :=
  PublicKey.aggregate_eq_ok_iff.2
    ⟨List.cons_ne_nil _ _, trueKey_point, not_isSmallOrder_trueKey⟩

theorem aggregateNonces_readNonces :
    PublicKey.aggregateNonces (readNonces.map (·.publicNonce)) = .ok trueNonce :=
  PublicKey.aggregateNonces_eq_ok_iff.2 (PublicKey.aggregate_eq_ok_iff.2
    ⟨List.cons_ne_nil _ _, trueNonce_point, not_isSmallOrder_trueNonce⟩)

theorem decodes_exchanged : Decodes looseKeys.reverse looseNonces readKeys.reverse readNonces :=
  ⟨List.rel_reverse decodes_loose.keys, decodes_loose.nonces, rfl⟩

theorem wrong_secrets_verify_iff_flipped :
    (∃ σ, JointlySign [104, 105] trueKey trueNonce looseKeys.reverse looseNonces σ ∧
      trueKey.verify [104, 105] σ = true) ∧
    (∃ σ, JointlySign [104, 105] trueKey trueNonce
        (looseKeys.set 1 ((Bytes.digits 32 (N + 19)).flipBit 255)) looseNonces σ ∧
      trueKey.verify [104, 105] σ = false) ∧
    ∃ σ, JointlySign [104, 105] trueKey trueNonce looseKeys
        (looseNonces.set 0 ((Bytes.digits 32 (3 * N + 21)).flipBit 2)) σ ∧
      trueKey.verify [104, 105] σ = false := by
  obtain ⟨hall, hkeys, hnonces⟩ := wrong_secrets_verify_iff decodes_loose aggregate_readKeys
    aggregateNonces_readNonces [104, 105]
  refine ⟨?_, ?_, ?_⟩
  · obtain ⟨σ, hσ, hiff⟩ := hall _ _ _ _ decodes_exchanged rfl
    exact ⟨σ, hσ, hiff.2 (by decide +kernel)⟩
  · obtain ⟨σ, hσ, hiff⟩ := (hkeys 1 255 _ _ rfl rfl (by decide)).resolve_left (by decide +kernel)
    refine ⟨σ, hσ, Bool.eq_false_iff.2 fun hverify => ?_⟩
    exact absurd (hiff.1 hverify) (by decide +kernel)
  · exact (hnonces 0 2 _ _ rfl rfl (by decide)).resolve_left (by decide +kernel)

end JointSchnorr
