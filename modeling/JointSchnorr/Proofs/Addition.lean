import Mathlib
import JointSchnorr.Proofs.Aggregates
import JointSchnorr.Proofs.Curve.Cofactor

/-!
# Aggregating and adding

Aggregation runs through a list of keys and judges the last sum only (`aggregate_cons_eq_foldl`), so
neither the sums on the way nor the order of the keys matter. Adding the keys one after the other
judges each sum, and fails exactly if two or more of the first keys add up to a point of small order
(`foldlM_add_cases`). Where it succeeds it gives the aggregate, which may exist where it fails. Two
aggregates add up to the aggregate of both lists, or fail as it does (`aggregate_append`).
-/

namespace JointSchnorr.PublicKey

variable {X Y : PublicKey} {Xs Ys : List PublicKey} {e : Error}

/-! ## The sum of a list -/

theorem foldl_add_point (P : Point) (Xs : List PublicKey) :
    Xs.foldl (fun Q Y => Q + Y.point) P = P + (Xs.map point).sum := by
  induction Xs generalizing P with
  | nil => exact (add_zero P).symm
  | cons Y Ys ih => rw [List.foldl_cons, ih, List.map_cons, List.sum_cons, add_assoc]

theorem aggregate_cons_eq_foldl (X : PublicKey) (Xs : List PublicKey) :
    aggregate (X :: Xs) = ofPoint (Xs.foldl (fun Q Y => Q + Y.point) X.point) := by
  rw [foldl_add_point, aggregate, List.map_cons, List.sum_cons]

theorem aggregate_eq_invalidKey_iff :
    aggregate Xs = .error .invalidKey ↔ Xs ≠ [] ∧ (Xs.map point).sum.IsSmallOrder := by
  by_cases h : Xs = []
  · subst h
    simp [aggregate]
  · rw [aggregate_eq h, ofPoint_eq_error_iff]
    simp [h]

theorem aggregateNonces_eq_invalidNonce_iff :
    aggregateNonces Xs = .error .invalidNonce ↔ aggregate Xs = .error .invalidKey := by
  unfold aggregateNonces
  split
  · next h => simp [h]
  · next hother =>
    -- no aggregate of keys fails with the error of a nonce
    have hnonce : aggregate Xs ≠ .error .invalidNonce := by
      cases Xs with
      | nil => simp [aggregate]
      | cons X Xs => simp [aggregate, ofPoint_eq_error_iff]
    exact iff_of_false hnonce hother

theorem aggregate_append (hX : aggregate Xs = .ok X) (hY : aggregate Ys = .ok Y) :
    aggregate (Xs ++ Ys) = X.add Y := by
  obtain ⟨hne, hXs, -⟩ := aggregate_eq_ok_iff.1 hX
  obtain ⟨-, hYs, -⟩ := aggregate_eq_ok_iff.1 hY
  rw [aggregate_eq (List.append_ne_nil_of_left_ne_nil hne Ys), List.map_append, List.sum_append,
    ← hXs, ← hYs]
  rfl

/-! ## Adding one key after the other -/

/-- Two or more of the first keys add up to a point of small order. -/
def PrefixCancels (Xs : List PublicKey) : Prop :=
  ∃ Ys, Ys <+: Xs ∧ 2 ≤ Ys.length ∧ (Ys.map point).sum.IsSmallOrder

theorem not_prefixCancels_singleton (X : PublicKey) : ¬ PrefixCancels [X] := by
  rintro ⟨Ys, hprefix, hlen, -⟩
  have hle := hprefix.length_le
  rw [List.length_singleton] at hle
  omega

theorem sum_cons_cons (X Y : PublicKey) (Ys : List PublicKey) :
    ((X :: Y :: Ys).map point).sum = ((⟨X.point + Y.point⟩ :: Ys).map point).sum := by
  rw [List.map_cons, List.map_cons, List.map_cons, List.sum_cons, List.sum_cons, List.sum_cons,
    add_assoc]

/-- The first two keys may be replaced by their sum, once it is judged. -/
theorem prefixCancels_cons_cons :
    PrefixCancels (X :: Y :: Ys) ↔
      (X.point + Y.point).IsSmallOrder ∨ PrefixCancels (⟨X.point + Y.point⟩ :: Ys) := by
  constructor
  · rintro ⟨_ | ⟨_, _ | ⟨_, Zs⟩⟩, hprefix, hlen, hsmall⟩
    · simp at hlen
    · simp at hlen
    · simp only [List.cons_prefix_cons] at hprefix
      obtain ⟨rfl, rfl, hZs⟩ := hprefix
      rw [sum_cons_cons] at hsmall
      by_cases hnil : Zs = []
      · rw [hnil, List.map_singleton, List.sum_singleton] at hsmall
        exact .inl hsmall
      · have hpos := List.length_pos_iff.2 hnil
        exact .inr ⟨_, List.cons_prefix_cons.2 ⟨rfl, hZs⟩, Nat.succ_le_succ hpos, hsmall⟩
  · rintro (hsmall | ⟨_ | ⟨_, Zs⟩, hprefix, hlen, hsmall⟩)
    · refine ⟨[X, Y], List.prefix_append [X, Y] Ys, le_refl 2, ?_⟩
      rw [sum_cons_cons, List.map_singleton, List.sum_singleton]
      exact hsmall
    · simp at hlen
    · obtain ⟨rfl, hZs⟩ := List.cons_prefix_cons.1 hprefix
      rw [← sum_cons_cons] at hsmall
      exact ⟨_, List.cons_prefix_cons.2 ⟨rfl, List.cons_prefix_cons.2 ⟨rfl, hZs⟩⟩,
        Nat.le_add_left 2 _, hsmall⟩

theorem foldlM_add_cons (X Y : PublicKey) (Ys : List PublicKey) :
    (Y :: Ys).foldlM add X = if (X.point + Y.point).IsSmallOrder then .error .invalidKey
      else Ys.foldlM add ⟨X.point + Y.point⟩ := by
  rw [List.foldlM_cons, add, ofPoint]
  split <;> rfl

theorem foldlM_add_cases (X : PublicKey) (Xs : List PublicKey) :
    (PrefixCancels (X :: Xs) ∧ Xs.foldlM add X = .error .invalidKey) ∨
      ¬ PrefixCancels (X :: Xs) ∧ Xs.foldlM add X = .ok ⟨((X :: Xs).map point).sum⟩ := by
  induction Xs generalizing X with
  | nil =>
    right
    refine ⟨not_prefixCancels_singleton X, congrArg Except.ok ?_⟩
    rw [List.map_singleton, List.sum_singleton]
  | cons Y Ys ih =>
    rw [prefixCancels_cons_cons, sum_cons_cons, foldlM_add_cons]
    by_cases hsmall : (X.point + Y.point).IsSmallOrder
    · rw [if_pos hsmall]
      exact .inl ⟨.inl hsmall, rfl⟩
    · rw [if_neg hsmall, or_iff_right hsmall]
      exact ih ⟨X.point + Y.point⟩

theorem aggregate_eq_of_foldlM_add (hX : ¬ X.point.IsSmallOrder) (h : Xs.foldlM add X = .ok Y) :
    aggregate (X :: Xs) = .ok Y := by
  rcases foldlM_add_cases X Xs with ⟨-, herror⟩ | ⟨hsums, hok⟩
  · rw [h] at herror
    cases herror
  · obtain rfl := Except.ok.inj (h.symm.trans hok)
    refine aggregate_eq_ok_iff.2 ⟨List.cons_ne_nil _ _, rfl, ?_⟩
    -- the total is the sum of all keys, unless there is only one
    cases Xs with
    | nil => rwa [List.map_singleton, List.sum_singleton]
    | cons Z Zs =>
      intro hsmall
      exact hsums ⟨_, List.prefix_rfl, Nat.le_add_left 2 _, hsmall⟩

theorem foldlM_add_eq_error_iff :
    Xs.foldlM add X = .error e ↔ e = .invalidKey ∧ PrefixCancels (X :: Xs) := by
  rcases foldlM_add_cases X Xs with ⟨hsums, h⟩ | ⟨hsums, h⟩
  · simp [h, hsums, eq_comm]
  · simp [h, hsums]

/-- **Aggregation judges the total only.** The aggregate of keys is their sum, in whatever order
they come and whatever the sums on the way are, and fails if that sum is of small order; for nonces
only the error is another one. Adding the keys one after the other fails if some of the first keys,
two or more, cancel. If it does not it gives the aggregate, and if it does the aggregate fails only
where all keys together cancel. Aggregates of two lists add up to the aggregate of both. -/
theorem aggregation_judges_total :
    (∀ Xs : List PublicKey, Xs ≠ [] →
      (aggregate Xs = if (Xs.map point).sum.IsSmallOrder then .error .invalidKey
        else .ok ⟨(Xs.map point).sum⟩) ∧
      ∀ Ys, Xs.Perm Ys → aggregate Ys = aggregate Xs) ∧
    (∀ Xs : List PublicKey,
      (∀ R, aggregateNonces Xs = .ok R ↔ aggregate Xs = .ok R) ∧
      (aggregateNonces Xs = .error .invalidNonce ↔ aggregate Xs = .error .invalidKey)) ∧
    (∀ (X : PublicKey) (Xs : List PublicKey),
      aggregate (X :: Xs) = ofPoint (Xs.foldl (fun Q Y => Q + Y.point) X.point) ∧
      (∀ e, Xs.foldlM add X = .error e ↔ e = .invalidKey ∧ PrefixCancels (X :: Xs)) ∧
      (¬ X.point.IsSmallOrder → ∀ Y, Xs.foldlM add X = .ok Y → aggregate (X :: Xs) = .ok Y) ∧
      ∀ e, Xs.foldlM add X = .error e →
        (aggregate (X :: Xs) = .error .invalidKey ↔ ((X :: Xs).map point).sum.IsSmallOrder)) ∧
    ∀ (Xs Ys : List PublicKey) (X Y : PublicKey), aggregate Xs = .ok X → aggregate Ys = .ok Y →
      aggregate (Xs ++ Ys) = X.add Y := by
  refine ⟨?_, ?_, ?_, fun Xs Ys X Y hX hY => aggregate_append hX hY⟩
  · intro Xs hne
    exact ⟨aggregate_eq hne, fun Ys hperm => (aggregate_perm hperm).symm⟩
  · intro Xs
    exact ⟨fun R => aggregateNonces_eq_ok_iff, aggregateNonces_eq_invalidNonce_iff⟩
  · intro X Xs
    refine ⟨aggregate_cons_eq_foldl X Xs, fun e => foldlM_add_eq_error_iff,
      fun hX Y h => aggregate_eq_of_foldlM_add hX h, fun e _ => ?_⟩
    rw [aggregate_eq_invalidKey_iff, and_iff_right (List.cons_ne_nil X Xs)]

/-! Two opposite keys, which cancel on the way to a total that is a key, and a key with a part of
order eight, which is all that its opposite leaves. -/

/-- A multiple of the base point. -/
def baseKey (k : Scalar) : PublicKey := ⟨k • Point.base⟩

/-- The opposite of `baseKey (-5)` but for a part of order eight. -/
def unevenKey : PublicKey := ⟨(5 : Scalar) • Point.base + Point.eighthTurn⟩

theorem not_isSmallOrder_baseKey {k : Scalar} (h : k ≠ 0) : ¬ (baseKey k).point.IsSmallOrder :=
  Point.isSmallOrder_smul_base_iff.not.2 h

theorem aggregate_baseKeys {ks : List Scalar} (hne : ks ≠ []) (h : Scalar.sum ks ≠ 0) :
    aggregate (ks.map baseKey) = .ok (baseKey (Scalar.sum ks)) := by
  have hsum := aggregate_multiples baseKey id (fun _ => rfl) hne
  rwa [List.map_id, if_neg h] at hsum

theorem prefixCancels_opposite (k : Scalar) (Xs : List PublicKey) :
    PrefixCancels (baseKey k :: baseKey (-k) :: Xs) := by
  refine prefixCancels_cons_cons.2 (.inl ?_)
  show (k • Point.base + (-k) • Point.base).IsSmallOrder
  rw [← Point.add_smul_base, Point.isSmallOrder_smul_base_iff]
  exact add_neg_cancel k

theorem sum_unevenKey : ([unevenKey, baseKey (-5)].map point).sum = Point.eighthTurn := by
  have hcancel : (5 : Scalar) • Point.base + (-5 : Scalar) • Point.base = 0 := by
    rw [← Point.add_smul_base, show (5 : Scalar) + -5 = 0 by decide, Point.zero_smul]
  rw [sum_cons_cons, List.map_singleton, List.sum_singleton, unevenKey, baseKey, add_right_comm,
    hcancel, zero_add]

theorem aggregation_judges_total_opposite :
    [baseKey (-5), baseKey 7].foldlM add (baseKey 5) = .error .invalidKey ∧
    aggregate [baseKey 5, baseKey (-5), baseKey 7] = .ok (baseKey 7) ∧
    aggregate [baseKey 7, baseKey 5, baseKey (-5)] = .ok (baseKey 7) ∧
    ¬ (baseKey 5).point.IsSmallOrder ∧
    [baseKey 7].foldlM add (baseKey 5) = .ok (baseKey 12) ∧
    aggregate [baseKey 5, baseKey 7] = .ok (baseKey 12) ∧
    aggregate [baseKey (-5)] = .ok (baseKey (-5)) ∧
    aggregate ([baseKey 5, baseKey 7] ++ [baseKey (-5)]) = (baseKey 12).add (baseKey (-5)) ∧
    aggregate [unevenKey, baseKey (-5)] = .error .invalidKey ∧
    aggregateNonces [unevenKey, baseKey (-5)] = .error .invalidNonce := by
  obtain ⟨htotal, hnonces, hadd, happend⟩ := aggregation_judges_total
  have hopposite : aggregate ([5, -5, 7].map baseKey) = .ok (baseKey 7) :=
    aggregate_baseKeys (by simp) (by decide)
  have hsingle : aggregate ([-5].map baseKey) = .ok (baseKey (-5)) :=
    aggregate_baseKeys (by simp) (by decide)
  have hlarge : ¬ (baseKey 5).point.IsSmallOrder := not_isSmallOrder_baseKey (by decide)
  have hfold : [baseKey 7].foldlM add (baseKey 5) = .ok (baseKey 12) := by
    have htwelve : (baseKey 5).point + (baseKey 7).point = (baseKey 12).point :=
      (Point.add_smul_base 5 7).symm
    rw [foldlM_add_cons, htwelve, if_neg (not_isSmallOrder_baseKey (by decide))]
    rfl
  have htwo := (hadd (baseKey 5) [baseKey 7]).2.2.1 hlarge _ hfold
  have huneven : aggregate [unevenKey, baseKey (-5)] = .error .invalidKey := by
    rw [(htotal _ (List.cons_ne_nil _ _)).1, sum_unevenKey, if_pos Point.isSmallOrder_eighthTurn]
  have hrotated := (htotal [baseKey 5, baseKey (-5), baseKey 7] (List.cons_ne_nil _ _)).2
    [baseKey 7, baseKey 5, baseKey (-5)] (List.perm_append_singleton _ [baseKey 5, baseKey (-5)])
  have hcancel := ((hadd (baseKey 5) [baseKey (-5), baseKey 7]).2.1 .invalidKey).2
    ⟨rfl, prefixCancels_opposite 5 _⟩
  exact ⟨hcancel, hopposite, hrotated.trans hopposite, hlarge, hfold, htwo, hsingle,
    happend _ _ _ _ htwo hsingle, huneven, (hnonces _).2.2 huneven⟩

end JointSchnorr.PublicKey
