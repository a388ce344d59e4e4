import Mathlib
import JointSchnorr.Share
import JointSchnorr.Proofs.Curve.BasePoint
import JointSchnorr.Proofs.Encoding.Key
import JointSchnorr.Proofs.Encoding.Signature

/-!
# Combinations of shares

Shares combine exactly if they have one commitment and it is a point that is not of small order, and
then their responses are summed up (`combine_eq_ok_iff`). The commitments are compared before they
are read, so of two faults the deviation is reported, by its first position
(`combine_eq_inconsistentCommitment_iff`). What shares combine to is itself a share: the order of
the shares does not matter, and a list combines as the combinations of its two parts do
(`combination_law`).
-/

namespace JointSchnorr

/-- A search in a list finds the least position that qualifies. -/
theorem findIdx?_eq_some_iff_isLeast {α : Type} {q : α → Bool} {as : List α} {i : Nat} :
    as.findIdx? q = some i ↔ IsLeast {j | ∃ a, as[j]? = some a ∧ q a = true} i := by
  rw [List.findIdx?_eq_some_iff_getElem]
  constructor
  · rintro ⟨hi, hq, hbefore⟩
    refine ⟨⟨as[i], List.getElem?_eq_getElem hi, hq⟩, ?_⟩
    rintro j ⟨a, ha, hqa⟩
    obtain ⟨hj, rfl⟩ := List.getElem?_eq_some_iff.1 ha
    by_contra hij
    exact hbefore j (Nat.lt_of_not_le hij) hqa
  · rintro ⟨⟨a, ha, hq⟩, hleast⟩
    obtain ⟨hi, rfl⟩ := List.getElem?_eq_some_iff.1 ha
    refine ⟨hi, hq, fun j hji hqj => ?_⟩
    exact Nat.not_le_of_lt hji (hleast ⟨_, List.getElem?_eq_getElem (hji.trans hi), hqj⟩)

theorem Point.isSome_decodeLarge?_iff {o : Octets 32} :
    (decodeLarge? o).isSome = true ↔ ∃ P, decode? o = some P ∧ ¬ P.IsSmallOrder := by
  rw [Option.isSome_iff_exists]
  simp only [decodeLarge?_eq_some_iff]

namespace Signature

variable {σs ρs : List Signature} {τ : Signature}

/-- The positions in a list at which the commitment is not that of the first signature. -/
def deviations (σs : List Signature) : Set Nat :=
  {i | ∃ σ τ, σs[0]? = some σ ∧ σs[i]? = some τ ∧ τ.r ≠ σ.r}

theorem findIdx?_eq_some_iff_deviations {σ : Signature} {i : Nat} :
    (σ :: σs).findIdx? (fun τ => τ.r ≠ σ.r) = some i ↔ IsLeast (deviations (σ :: σs)) i := by
  have hset : deviations (σ :: σs) =
      {j | ∃ τ, (σ :: σs)[j]? = some τ ∧ decide (τ.r ≠ σ.r) = true} := by
    ext j
    simp [deviations]
  rw [findIdx?_eq_some_iff_isLeast, hset]

theorem findIdx?_eq_none_iff_commitment {σ : Signature} :
    (σ :: σs).findIdx? (fun τ => τ.r ≠ σ.r) = none ↔ ∀ τ ∈ σ :: σs, τ.r = σ.r := by
  rw [List.findIdx?_eq_none_iff]
  simp only [decide_eq_false_iff_not, ne_eq, not_not]

/-! ## The outcomes -/

theorem combine_cases (σs : List Signature) :
    combine σs = .error .emptyInput ∨ (∃ i, combine σs = .error (.inconsistentCommitment i)) ∨
      combine σs = .error (.malformedInput .commitment) ∨ ∃ τ, combine σs = .ok τ := by
  cases σs with
  | nil => exact .inl rfl
  | cons σ σs =>
    rw [combine]
    split
    · next i hi => exact .inr (.inl ⟨i, rfl⟩)
    · split
      · exact .inr (.inr (.inr ⟨_, rfl⟩))
      · exact .inr (.inr (.inl rfl))

theorem combine_eq_emptyInput_iff : combine σs = .error .emptyInput ↔ σs = [] := by
  cases σs with
  | nil => simp [combine]
  | cons σ σs =>
    rw [combine]
    split
    · simp
    · split <;> simp

theorem combine_eq_inconsistentCommitment_iff {i : Nat} :
    combine σs = .error (.inconsistentCommitment i) ↔ IsLeast (deviations σs) i := by
  cases σs with
  | nil =>
    constructor
    · intro h
      exact absurd h (by simp [combine])
    · rintro ⟨⟨σ, τ, hσ, -⟩, -⟩
      cases hσ
  | cons σ σs =>
    rw [← findIdx?_eq_some_iff_deviations, combine]
    split
    · next j hj =>
      rw [hj]
      simp
    · next hnone =>
      rw [hnone]
      split <;> simp

theorem combine_eq_malformedInput_iff {what : Encoded} :
    combine σs = .error (.malformedInput what) ↔ what = .commitment ∧
      ∃ r, σs ≠ [] ∧ (∀ σ ∈ σs, σ.r = r) ∧ ¬ (Point.decodeLarge? r).isSome = true := by
  cases σs with
  | nil => simp [combine]
  | cons σ σs =>
    have hcommon : (∃ r, σ :: σs ≠ [] ∧ (∀ τ ∈ σ :: σs, τ.r = r) ∧
        ¬ (Point.decodeLarge? r).isSome = true) ↔
        (∀ τ ∈ σ :: σs, τ.r = σ.r) ∧ ¬ (Point.decodeLarge? σ.r).isSome = true := by
      constructor
      · rintro ⟨r, -, hr, hlarge⟩
        obtain rfl := hr σ List.mem_cons_self
        exact ⟨hr, hlarge⟩
      · rintro ⟨hr, hlarge⟩
        exact ⟨σ.r, List.cons_ne_nil _ _, hr, hlarge⟩
    rw [hcommon, ← findIdx?_eq_none_iff_commitment, combine]
    split
    · next j hj =>
      rw [hj]
      simp
    · next hnone =>
      rw [hnone]
      split
      · next hlarge => simp [hlarge]
      · next hlarge => simp [hlarge, eq_comm]

theorem combine_eq_ok_iff :
    combine σs = .ok τ ↔ σs ≠ [] ∧ (∀ σ ∈ σs, σ.r = τ.r) ∧
      (Point.decodeLarge? τ.r).isSome = true ∧ τ.s = Scalar.sum (σs.map (·.s)) := by
  cases σs with
  | nil => simp [combine]
  | cons σ σs =>
    obtain ⟨r, s⟩ := τ
    constructor
    · intro h
      rw [combine] at h
      split at h
      · exact absurd h (by simp)
      · next hnone =>
        split at h
        · next hr =>
          obtain ⟨rfl, rfl⟩ := Signature.mk.inj (Except.ok.inj h)
          exact ⟨List.cons_ne_nil _ _, findIdx?_eq_none_iff_commitment.1 hnone, hr, rfl⟩
        · exact absurd h (by simp)
    · rintro ⟨-, hall, hr, rfl⟩
      obtain rfl := hall σ List.mem_cons_self
      rw [combine, findIdx?_eq_none_iff_commitment.2 hall]
      exact if_pos hr

/-! ## Combinations as shares -/

theorem decode_encode_of_combine (h : combine σs = .ok τ) : decode τ.encode.toList = .ok τ := by
  obtain ⟨-, -, hlarge, -⟩ := combine_eq_ok_iff.1 h
  obtain ⟨P, hP, -⟩ := Point.isSome_decodeLarge?_iff.1 hlarge
  rw [decode_encode, hP]
  rfl

theorem combine_perm (h : σs.Perm ρs) : combine σs = .ok τ ↔ combine ρs = .ok τ := by
  have hne : σs ≠ [] ↔ ρs ≠ [] := by
    rw [ne_eq, ne_eq, ← List.length_eq_zero_iff, ← List.length_eq_zero_iff, h.length_eq]
  have hmem : (∀ σ ∈ σs, σ.r = τ.r) ↔ ∀ σ ∈ ρs, σ.r = τ.r := by
    simp only [h.mem_iff]
  rw [combine_eq_ok_iff, combine_eq_ok_iff, hne, hmem, Scalar.sum_perm (h.map _)]

theorem combine_append (hσs : σs ≠ []) (hρs : ρs ≠ []) :
    combine (σs ++ ρs) = .ok τ ↔
      ∃ a b, combine σs = .ok a ∧ combine ρs = .ok b ∧ combine [a, b] = .ok τ := by
  simp only [combine_eq_ok_iff, List.map_append, Scalar.sum_append]
  constructor
  · rintro ⟨-, hr, hlarge, hs⟩
    obtain ⟨hσ, hρ⟩ := List.forall_mem_append.1 hr
    refine ⟨⟨τ.r, Scalar.sum (σs.map (·.s))⟩, ⟨τ.r, Scalar.sum (ρs.map (·.s))⟩,
      ⟨hσs, hσ, hlarge, rfl⟩, ⟨hρs, hρ, hlarge, rfl⟩, List.cons_ne_nil _ _, ?_, hlarge, ?_⟩
    · simp
    · rw [hs]
      exact congrArg _ (add_zero _).symm
  · rintro ⟨a, b, ⟨-, hσ, -, ha⟩, ⟨-, hρ, -, hb⟩, -, hr, hlarge, hs⟩
    have har : a.r = τ.r := hr a (by simp)
    have hbr : b.r = τ.r := hr b (by simp)
    rw [har] at hσ
    rw [hbr] at hρ
    refine ⟨List.append_ne_nil_of_left_ne_nil hσs _, List.forall_mem_append.2 ⟨hσ, hρ⟩, hlarge, ?_⟩
    rw [hs, ← ha, ← hb]
    exact congrArg _ (add_zero _)

/-- **The law of combination.** No shares do not combine. Shares whose commitments are not all the
same bytes fail with the first position that deviates from the first share, whatever the bytes are;
shares with one commitment fail if it is no point or of small order, and otherwise combine to that
commitment and the sum of the responses modulo `N`. The combination is read back from its bytes, it
is that of the shares in any order, and a list combines as its parts do whose combinations are
combined. -/
theorem combination_law :
    (∀ σs : List Signature,
      (combine σs = .error .emptyInput ↔ σs = []) ∧
      (∀ i, combine σs = .error (.inconsistentCommitment i) ↔ IsLeast (deviations σs) i) ∧
      (∀ what : Encoded, combine σs = .error (.malformedInput what) ↔ what.name = "commitment" ∧
        ∃ r, σs ≠ [] ∧ (∀ σ ∈ σs, σ.r = r) ∧
          ¬ ∃ P, Point.decode? r = some P ∧ ¬ P.IsSmallOrder) ∧
      (∀ τ, combine σs = .ok τ ↔ σs ≠ [] ∧ (∀ σ ∈ σs, σ.r = τ.r) ∧
        (∃ P, Point.decode? τ.r = some P ∧ ¬ P.IsSmallOrder) ∧
        τ.s.val = (σs.map (·.s.val)).sum % N) ∧
      ∀ τ, combine σs = .ok τ →
        decode τ.encode.toList = .ok τ ∧ ∀ ρs, σs.Perm ρs → combine ρs = .ok τ) ∧
    ∀ (σs ρs : List Signature) (τ : Signature), σs ≠ [] → ρs ≠ [] →
      (combine (σs ++ ρs) = .ok τ ↔
        ∃ a b, combine σs = .ok a ∧ combine ρs = .ok b ∧ combine [a, b] = .ok τ) := by
  refine ⟨fun σs => ⟨combine_eq_emptyInput_iff, fun i => combine_eq_inconsistentCommitment_iff,
    ?_, ?_, ?_⟩, fun σs ρs τ hσs hρs => combine_append hσs hρs⟩
  · intro what
    have hname : what = .commitment ↔ what.name = Encoded.commitment.name :=
      Encoded.name_injective.eq_iff.symm
    simp only [combine_eq_malformedInput_iff, Point.isSome_decodeLarge?_iff, hname]
    rfl
  · intro τ
    rw [combine_eq_ok_iff, Point.isSome_decodeLarge?_iff, Fin.ext_iff, Scalar.val_sum,
      List.map_map]
    rfl
  · intro τ h
    exact ⟨decode_encode_of_combine h, fun ρs hperm => (combine_perm hperm).1 h⟩

/-! Three shares whose responses pass `N`, and a list that deviates at its second and third share
from a first one whose commitment is no point. -/

/-- A share with the base point as commitment. -/
def baseShare (s : Scalar) : Signature := ⟨Point.base.encode, s⟩

theorem combination_law_baseShares :
    combine [baseShare (-1), baseShare 3, baseShare 5] = .ok (baseShare 7) ∧
    combine [baseShare 5, baseShare (-1), baseShare 3] = .ok (baseShare 7) ∧
    [baseShare (-1)] ≠ [] ∧ [baseShare 3, baseShare 5] ≠ [] ∧
    (∃ a b, combine [baseShare (-1)] = .ok a ∧ combine [baseShare 3, baseShare 5] = .ok b ∧
      combine [a, b] = .ok (baseShare 7)) ∧
    combine [⟨Octets.ofNat 32 2, 0⟩, baseShare 3, baseShare 5] =
      .error (.inconsistentCommitment 1) := by
  obtain ⟨hlaw, happend⟩ := combination_law
  have hlarge : ¬ Point.base.IsSmallOrder := by decide +kernel
  have hsum : combine [baseShare (-1), baseShare 3, baseShare 5] = .ok (baseShare 7) :=
    ((hlaw _).2.2.2.1 _).2 ⟨by simp, by simp [baseShare],
      ⟨Point.base, Point.decode?_encode _, hlarge⟩, by decide +kernel⟩
  have hperm : [baseShare (-1), baseShare 3, baseShare 5].Perm
      [baseShare 5, baseShare (-1), baseShare 3] := by decide +kernel
  have hfirst : IsLeast (deviations [⟨Octets.ofNat 32 2, 0⟩, baseShare 3, baseShare 5]) 1 := by
    refine ⟨⟨_, _, rfl, rfl, by decide +kernel⟩, ?_⟩
    rintro j ⟨σ, τ, hσ, hτ, hne⟩
    by_contra hj
    obtain rfl : j = 0 := by omega
    rw [hσ] at hτ
    exact hne (congrArg Signature.r (Option.some.inj hτ)).symm
  exact ⟨hsum, ((hlaw _).2.2.2.2 _ hsum).2 _ hperm, by simp, by simp,
    (happend _ _ _ (by simp) (by simp)).1 hsum, ((hlaw _).2.1 1).2 hfirst⟩

end Signature

end JointSchnorr
