import Mathlib
import JointSchnorr.Proofs.Session.Reordering

/-!
# Subgroups of parties

Any parties of a session act as one party, with the sum of their keys and nonces and the combination
of their shares. What a share is off its equation is a point, its defect, and the defect of the
combination is the sum of the defects (`defect_combined`). So accepted shares combine to an accepted
one; and where the combination is accepted, one share cannot be off alone (`subgroup_acts_as_one`).
Keys and nonces are any points, and the partial sums may be of small order.
-/

namespace JointSchnorr

namespace Context

variable (c : Context)

/-- What a response is off the equation of a key and a nonce. -/
def defect (X R : Point) (s : Scalar) : Point := s • Point.base - (R + c.challenge • X)

theorem accepts_iff_defect {X R : PublicKey} {σ : Signature} :
    c.accepts X R σ = true ↔ σ.r = c.nonce.encode ∧ c.defect X.point R.point σ.s = 0 := by
  rw [accepts_eq_true_iff, defect, sub_eq_zero]

/-- The defect of one party's share. -/
def shareDefect (e : (PublicKey × PublicKey) × Signature) : Point :=
  c.defect e.1.1.point e.1.2.point e.2.s

theorem defect_combined (entries : List ((PublicKey × PublicKey) × Signature)) :
    c.defect (entries.map (·.1.1.point)).sum (entries.map (·.1.2.point)).sum
      (Scalar.sum (entries.map (·.2.s))) = (entries.map c.shareDefect).sum := by
  induction entries with
  | nil =>
    show (0 : Scalar) • Point.base - (0 + c.challenge • (0 : Point)) = 0
    rw [Point.zero_smul, Point.smul_zero, add_zero, sub_zero]
  | cons e entries ih =>
    have hsum : Scalar.sum ((e :: entries).map (·.2.s)) =
        e.2.s + Scalar.sum (entries.map (·.2.s)) := rfl
    rw [hsum, List.map_cons, List.map_cons, List.map_cons, List.sum_cons, List.sum_cons,
      List.sum_cons, ← ih, shareDefect, defect, defect, defect, Point.add_smul_base,
      Point.smul_add, add_add_add_comm, add_sub_add_comm]

theorem sum_shareDefect_of_accepted {entries : List ((PublicKey × PublicKey) × Signature)}
    (h : ∀ e ∈ entries, c.accepts e.1.1 e.1.2 e.2 = true) :
    (entries.map c.shareDefect).sum = 0 := by
  induction entries with
  | nil => rfl
  | cons e entries ih =>
    obtain ⟨he, hrest⟩ := List.forall_mem_cons.1 h
    have hdefect : c.shareDefect e = 0 := (c.accepts_iff_defect.1 he).2
    rw [List.map_cons, List.sum_cons, hdefect, ih hrest, add_zero]

variable {c} {entries : List ((PublicKey × PublicKey) × Signature)} {X R : PublicKey}

/-- The combination of shares satisfies the equation of the sums exactly if their defects cancel. -/
theorem accepts_combined_iff (hX : PublicKey.aggregate (entries.map (·.1.1)) = .ok X)
    (hR : PublicKey.aggregateNonces (entries.map (·.1.2)) = .ok R) {σ : Signature}
    (hσ : Signature.combine (entries.map (·.2)) = .ok σ) :
    c.accepts X R σ = true ↔ σ.r = c.nonce.encode ∧ (entries.map c.shareDefect).sum = 0 := by
  obtain ⟨-, hXs, -⟩ := PublicKey.aggregate_eq_ok_iff.1 hX
  obtain ⟨-, hRs, -⟩ := PublicKey.aggregate_eq_ok_iff.1 (PublicKey.aggregateNonces_eq_ok_iff.1 hR)
  obtain ⟨-, -, -, hs⟩ := Signature.combine_eq_ok_iff.1 hσ
  rw [List.map_map] at hXs hRs hs
  rw [accepts_iff_defect, hXs, hRs, hs, ← defect_combined]
  rfl

end Context

/-- **A subgroup acts as one party.** Let any parties have keys and nonces whose sums are a key and
a nonce. Shares that are accepted for the parties combine to one that is accepted for the sums. And
if the combination is accepted for the sums, and all shares but one for their parties, then so is
that one. -/
theorem subgroup_acts_as_one (c : Context) {entries : List ((PublicKey × PublicKey) × Signature)}
    {X R : PublicKey} (hX : PublicKey.aggregate (entries.map (·.1.1)) = .ok X)
    (hR : PublicKey.aggregateNonces (entries.map (·.1.2)) = .ok R) :
    (¬ c.nonce.point.IsSmallOrder → (∀ e ∈ entries, c.accepts e.1.1 e.1.2 e.2 = true) →
      ∃ σ, Signature.combine (entries.map (·.2)) = .ok σ ∧ c.accepts X R σ = true) ∧
    ∀ σ, Signature.combine (entries.map (·.2)) = .ok σ → c.accepts X R σ = true →
      ∀ before e after, entries = before ++ e :: after →
        (∀ e' ∈ before ++ after, c.accepts e'.1.1 e'.1.2 e'.2 = true) →
        c.accepts e.1.1 e.1.2 e.2 = true := by
  constructor
  · intro hnonce hall
    have hne : entries ≠ [] := fun h => (PublicKey.aggregate_eq_ok_iff.1 hX).1 (by rw [h]; rfl)
    have hr : ∀ σ ∈ entries.map (·.2), σ.r = c.nonce.point.encode := by
      intro σ hσ
      obtain ⟨e, he, rfl⟩ := List.mem_map.1 hσ
      exact (c.accepts_eq_true_iff.1 (hall e he)).1
    have hσ := Signature.combine_of_commitment (by simpa using hne) hr hnonce
    have hdefects := c.sum_shareDefect_of_accepted hall
    exact ⟨_, hσ, (Context.accepts_combined_iff hX hR hσ).2 ⟨rfl, hdefects⟩⟩
  · intro σ hσ hsum before e after hentries hothers
    obtain ⟨hr, hdefects⟩ := (Context.accepts_combined_iff hX hR hσ).1 hsum
    have he : e ∈ entries := hentries ▸ List.mem_append_right _ List.mem_cons_self
    have hcommitment : e.2.r = σ.r :=
      (Signature.combine_eq_ok_iff.1 hσ).2.1 _ (List.mem_map_of_mem he)
    have hrest := c.sum_shareDefect_of_accepted hothers
    rw [List.map_append, List.sum_append] at hrest
    rw [hentries, List.map_append, List.map_cons, List.sum_append, List.sum_cons, add_left_comm,
      hrest, add_zero] at hdefects
    exact c.accepts_iff_defect.2 ⟨hcommitment.trans hr, hdefects⟩

/-! The two parties whose keys and nonces have a part of order two. -/

open Aggregator

/-- The key, the nonce and the share of a party. -/
def mixedParty (i : Fin 2) : (PublicKey × PublicKey) × Signature :=
  ((mixedKey i, mixedNonce i), mixedShare i)

theorem subgroup_acts_as_one_mixed :
    PublicKey.aggregate mixedKeys = .ok mixedContext.key ∧
    PublicKey.aggregateNonces mixedNonces = .ok mixedContext.nonce ∧
    ¬ mixedContext.nonce.point.IsSmallOrder ∧
    (∀ i, mixedContext.accepts (mixedKey i) (mixedNonce i) (mixedShare i) = true) ∧
    ∃ σ, Signature.combine mixedShares = .ok σ ∧
      mixedContext.accepts mixedContext.key mixedContext.nonce σ = true ∧
      mixedContext.accepts (mixedKey 1) (mixedNonce 1) (mixedShare 1) = true := by
  have hnonce : ¬ mixedContext.nonce.point.IsSmallOrder :=
    Point.isSmallOrder_smul_base_iff.not.2 (by decide)
  have hall : ∀ e ∈ [mixedParty 0, mixedParty 1],
      mixedContext.accepts e.1.1 e.1.2 e.2 = true := by
    intro e he
    rcases List.mem_cons.1 he with rfl | he
    · exact accepts_mixedShare 0
    · rw [List.mem_singleton.1 he]
      exact accepts_mixedShare 1
  have hkeys : PublicKey.aggregate ([mixedParty 0, mixedParty 1].map (·.1.1)) =
      .ok mixedContext.key := aggregate_mixedKeys
  obtain ⟨hcombine, hleft⟩ := subgroup_acts_as_one mixedContext hkeys aggregate_mixedNonces
  obtain ⟨σ, hσ, hsum⟩ := hcombine hnonce hall
  -- the second share is accepted because the combination and the first one are
  have hsecond := hleft σ hσ hsum [mixedParty 0] (mixedParty 1) [] rfl
    (List.forall_mem_singleton.2 (accepts_mixedShare 0))
  exact ⟨aggregate_mixedKeys, aggregate_mixedNonces, hnonce, accepts_mixedShare, σ, hσ, hsum,
    hsecond⟩

end JointSchnorr
