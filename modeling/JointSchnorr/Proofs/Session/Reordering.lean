import Mathlib
import JointSchnorr.Proofs.Session.Blame
import JointSchnorr.Proofs.Session.Soundness

/-!
# The order of the parties

An aggregator sums up its lists, so their order does not show in what it computes. If keys, nonces
and shares are rearranged in the same way, the rounds end alike: with the same aggregates or the
same error, with the same final state, or with the blame for a share, in either order the first one
that fails its own check (`reordered_session`). The parties are numbered by `Fin n`, a list of one
item for each of them is `List.ofFn`, and `π` rearranges the positions.
-/

namespace JointSchnorr

/-! ## Searches by position -/

section Positions

variable {α β : Type} {n : Nat}

theorem zip_ofFn (f : Fin n → α) (g : Fin n → β) :
    (List.ofFn f).zip (List.ofFn g) = List.ofFn fun i => (f i, g i) := by
  apply List.ext_getElem
  · simp
  · intro i _ _
    simp

variable {f : Fin n → α} {q : α → Bool}

theorem findIdx?_ofFn_eq_none_iff :
    (List.ofFn f).findIdx? q = none ↔ ∀ i, q (f i) = false := by
  rw [List.findIdx?_eq_none_iff]
  simp

/-- A search among the items of all positions finds the least position that qualifies. -/
theorem findIdx?_ofFn_eq_some_iff {k : Nat} :
    (List.ofFn f).findIdx? q = some k ↔ ∃ i : Fin n, k = i ∧ IsLeast {j | q (f j) = true} i := by
  have hmem : ∀ {j}, (∃ a, (List.ofFn f)[j]? = some a ∧ q a = true) ↔
      ∃ h : j < n, q (f ⟨j, h⟩) = true := by
    intro j
    by_cases hj : j < n <;> simp [hj]
  rw [findIdx?_eq_some_iff_isLeast]
  constructor
  · rintro ⟨hk, hleast⟩
    obtain ⟨hlt, hq⟩ := hmem.1 hk
    exact ⟨⟨k, hlt⟩, rfl, hq, fun j hj => hleast (hmem.2 ⟨j.isLt, hj⟩)⟩
  · rintro ⟨i, rfl, hi, hleast⟩
    refine ⟨hmem.2 ⟨i.isLt, hi⟩, fun j hj => ?_⟩
    obtain ⟨hlt, hq⟩ := hmem.1 hj
    exact hleast (show (⟨j, hlt⟩ : Fin n) ∈ {j | q (f j) = true} from hq)

end Positions

namespace Aggregator

variable {n : Nat} {m : Bytes} {a : AwaitingKeys} {c c' : AwaitingShares}

namespace AwaitingShares

variable {X R : Fin n → PublicKey} {σ : Fin n → Signature}

/-- The third round by positions: it succeeds if each share passes its own check, and otherwise
blames the least position whose share does not. -/
theorem aggregateSignatures_ofFn (inv : c.Invariant n m) (hkeys : c.keys = List.ofFn X)
    (hnonces : c.nonces = List.ofFn R) :
    ((∀ i, c.context.accepts (X i) (R i) (σ i) = true) ∧
      c.aggregateSignatures (List.ofFn σ) =
        .ok ⟨c.parties, c.message, c.aggregateKey, c.combined (List.ofFn σ)⟩) ∨
    ∃ i : Fin n, IsLeast {j | c.context.accepts (X j) (R j) (σ j) = false} i ∧
      c.aggregateSignatures (List.ofFn σ) = .error (.invalidPartialSignature i) := by
  have hl : (List.ofFn σ).length = c.parties := by
    rw [List.length_ofFn, inv.parties_eq]
  have hsearch : c.firstBad? (List.ofFn σ) =
      (List.ofFn fun i => ((X i, R i), σ i)).findIdx? fun e => ! c.context.accepts e.1.1 e.1.2 e.2 := by
    rw [firstBad?, entries, hkeys, hnonces, zip_ofFn, zip_ofFn]
  cases hbad : c.firstBad? (List.ofFn σ) with
  | none =>
    left
    have hall := firstBad?_eq_none_iff.1 hbad
    rw [hsearch, findIdx?_ofFn_eq_none_iff] at hbad
    refine ⟨fun i => ?_, aggregateSignatures_eq inv hl hall⟩
    simpa using hbad i
  | some k =>
    right
    have herror := aggregateSignatures_of_firstBad? inv hl hbad
    rw [hsearch, findIdx?_ofFn_eq_some_iff] at hbad
    obtain ⟨i, rfl, hi⟩ := hbad
    refine ⟨i, ?_, herror⟩
    simpa using hi

/-- The third round does not depend on the order of the parties, but for the position it names. -/
theorem aggregateSignatures_reordered (inv : c.Invariant n m) (inv' : c'.Invariant n m)
    (hctx : c'.context = c.context) (π : Equiv.Perm (Fin n)) (hkeys : c.keys = List.ofFn X)
    (hnonces : c.nonces = List.ofFn R) (hkeys' : c'.keys = List.ofFn (X ∘ π))
    (hnonces' : c'.nonces = List.ofFn (R ∘ π)) :
    (∃ f, c.aggregateSignatures (List.ofFn σ) = .ok f ∧
      c'.aggregateSignatures (List.ofFn (σ ∘ π)) = .ok f) ∨
    ∃ i i' : Fin n,
      c.aggregateSignatures (List.ofFn σ) = .error (.invalidPartialSignature i) ∧
      c'.aggregateSignatures (List.ofFn (σ ∘ π)) = .error (.invalidPartialSignature i') ∧
      IsLeast {j | c.context.accepts (X j) (R j) (σ j) = false} i ∧
      IsLeast {j | c'.context.accepts (X (π j)) (R (π j)) (σ (π j)) = false} i' := by
  have hX : c'.aggregateKey = c.aggregateKey := congrArg Context.key hctx
  have hR : c'.aggregateNonce = c.aggregateNonce := congrArg Context.nonce hctx
  have hm : c'.message = c.message := congrArg Context.message hctx
  have hn : c'.parties = c.parties := inv'.parties_eq.trans inv.parties_eq.symm
  have hcombined : c'.combined (List.ofFn (σ ∘ π)) = c.combined (List.ofFn σ) := by
    have hperm := (π.ofFn_comp_perm σ).map Signature.s
    rw [combined, combined, hR, Scalar.sum_perm hperm]
  rcases aggregateSignatures_ofFn (σ := σ) inv hkeys hnonces with ⟨hall, hok⟩ | ⟨i, hi, herror⟩
  · rcases aggregateSignatures_ofFn (σ := σ ∘ π) inv' hkeys' hnonces' with
      ⟨-, hok'⟩ | ⟨i', hi', -⟩
    · left
      refine ⟨_, hok, ?_⟩
      rw [hok', hcombined, hX, hm, hn]
    · have hrefused : c'.context.accepts (X (π i')) (R (π i')) (σ (π i')) = false := hi'.1
      rw [hctx, hall] at hrefused
      exact absurd hrefused (by simp)
  · rcases aggregateSignatures_ofFn (σ := σ ∘ π) inv' hkeys' hnonces' with
      ⟨hall', -⟩ | ⟨i', hi', herror'⟩
    · have haccepted := hall' (π.symm i)
      have hrefused : c.context.accepts (X i) (R i) (σ i) = false := hi.1
      simp only [hctx, Function.comp_apply, Equiv.apply_symm_apply, hrefused] at haccepted
      exact absurd haccepted (by simp)
    · right
      exact ⟨i, i', herror, herror', hi, hi'⟩

end AwaitingShares

/-- **The order of the parties does not matter.** With keys, nonces and shares rearranged in the
same way, the first two rounds give the same aggregates or the same errors. The third round ends in
the same state, or fails in both orders and names, in each, the first share that fails its own
check. -/
theorem reordered_session (hstart : start n m = .ok a) (X R : Fin n → PublicKey)
    (σ : Fin n → Signature) (π : Equiv.Perm (Fin n)) :
    (a.aggregateKeys (List.ofFn (X ∘ π))).map (·.aggregateKey) =
      (a.aggregateKeys (List.ofFn X)).map (·.aggregateKey) ∧
    ∀ b b', a.aggregateKeys (List.ofFn X) = .ok b → a.aggregateKeys (List.ofFn (X ∘ π)) = .ok b' →
      (b'.aggregateNonces (List.ofFn (R ∘ π))).map (·.aggregateNonce) =
        (b.aggregateNonces (List.ofFn R)).map (·.aggregateNonce) ∧
      ∀ c c', b.aggregateNonces (List.ofFn R) = .ok c →
        b'.aggregateNonces (List.ofFn (R ∘ π)) = .ok c' →
        (∃ f, c.aggregateSignatures (List.ofFn σ) = .ok f ∧
          c'.aggregateSignatures (List.ofFn (σ ∘ π)) = .ok f) ∨
        ∃ i i' : Fin n,
          c.aggregateSignatures (List.ofFn σ) = .error (.invalidPartialSignature i) ∧
          c'.aggregateSignatures (List.ofFn (σ ∘ π)) = .error (.invalidPartialSignature i') ∧
          IsLeast {j | c.context.accepts (X j) (R j) (σ j) = false} i ∧
          IsLeast {j | c'.context.accepts (X (π j)) (R (π j)) (σ (π j)) = false} i' := by
  obtain ⟨-, rfl⟩ := start_eq_ok_iff.1 hstart
  have hX := PublicKey.aggregate_perm (π.ofFn_comp_perm X)
  have hR := PublicKey.aggregateNonces_perm (π.ofFn_comp_perm R)
  have hlen : ∀ f : Fin n → PublicKey, (List.ofFn f).length = n := fun f => List.length_ofFn
  refine ⟨?_, fun b b' hb hb' => ⟨?_, fun c c' hc hc' => ?_⟩⟩
  · rw [AwaitingKeys.aggregateKeys_eq (hlen _), AwaitingKeys.aggregateKeys_eq (hlen _), hX]
    cases PublicKey.aggregate (List.ofFn X) <;> rfl
  · obtain ⟨-, Y, -, rfl⟩ := AwaitingKeys.aggregateKeys_eq_ok_iff.1 hb
    obtain ⟨-, Y', -, rfl⟩ := AwaitingKeys.aggregateKeys_eq_ok_iff.1 hb'
    rw [AwaitingNonces.aggregateNonces_eq (hlen _), AwaitingNonces.aggregateNonces_eq (hlen _), hR]
    cases PublicKey.aggregateNonces (List.ofFn R) <;> rfl
  · have inv := invariant_of_rounds hstart hb hc
    have inv' := invariant_of_rounds hstart hb' hc'
    obtain ⟨-, Y, hY, rfl⟩ := AwaitingKeys.aggregateKeys_eq_ok_iff.1 hb
    obtain ⟨-, Y', hY', rfl⟩ := AwaitingKeys.aggregateKeys_eq_ok_iff.1 hb'
    obtain ⟨-, S, hS, rfl⟩ := AwaitingNonces.aggregateNonces_eq_ok_iff.1 hc
    obtain ⟨-, S', hS', rfl⟩ := AwaitingNonces.aggregateNonces_eq_ok_iff.1 hc'
    have hYY : Y' = Y := by
      rw [hX, hY] at hY'
      exact (Except.ok.inj hY').symm
    have hSS : S' = S := by
      rw [hR, hS] at hS'
      exact (Except.ok.inj hS').symm
    subst hYY
    subst hSS
    exact AwaitingShares.aggregateSignatures_reordered inv inv' rfl π rfl rfl rfl rfl

/-! The mixed session in both orders, with its own shares and with the second response altered. -/

def reversedSession : AwaitingShares :=
  ⟨2, [104, 105], mixedKeys.reverse, mixedContext.key, mixedNonces.reverse, mixedContext.nonce⟩

theorem aggregateKeys_reversed : AwaitingKeys.aggregateKeys ⟨2, [104, 105]⟩ mixedKeys.reverse =
    .ok ⟨2, [104, 105], mixedKeys.reverse, mixedContext.key⟩ := by
  rw [AwaitingKeys.aggregateKeys_eq rfl, PublicKey.aggregate_perm mixedKeys.reverse_perm,
    aggregate_mixedKeys]
  rfl

theorem aggregateNonces_reversed :
    AwaitingNonces.aggregateNonces ⟨2, [104, 105], mixedKeys.reverse, mixedContext.key⟩
      mixedNonces.reverse = .ok reversedSession := by
  rw [AwaitingNonces.aggregateNonces_eq rfl, PublicKey.aggregateNonces_perm mixedNonces.reverse_perm,
    aggregate_mixedNonces]
  rfl

def mixedKey (i : Fin 2) : PublicKey := mixedKeys.get i

def mixedNonce (i : Fin 2) : PublicKey := mixedNonces.get i

def mixedShare (i : Fin 2) : Signature := mixedShares.get i

def alteredShare (i : Fin 2) : Signature := if i = 1 then (mixedShare i).shift 1 else mixedShare i

theorem accepts_mixedShare (i : Fin 2) :
    mixedContext.accepts (mixedKey i) (mixedNonce i) (mixedShare i) = true := by
  have hzero := smul_halfTurn_add_self mixedContext.challenge
  fin_cases i
  · exact mixedContext.accepts_mixed 5 3 hzero
  · exact mixedContext.accepts_mixed 7 4 hzero

theorem accepts_alteredShare (i : Fin 2) :
    mixedContext.accepts (mixedKey i) (mixedNonce i) (alteredShare i) = false ↔ i = 1 := by
  have hmixed := accepts_mixedShare i
  by_cases hi : i = 1
  · rw [alteredShare, if_pos hi]
    refine iff_of_true (Bool.eq_false_iff.2 fun h => ?_) hi
    have hs := (mixedContext.accepts_eq_true_iff.1 hmixed).2
    have hs' := (mixedContext.accepts_eq_true_iff.1 h).2
    have hone := Point.smul_base_inj.1 (hs'.trans hs.symm)
    exact absurd (add_eq_left.1 hone) (by decide)
  · rw [alteredShare, if_neg hi, hmixed]
    simp [hi]

theorem reordered_session_mixed : ∃ a b b' c c',
    start 2 [104, 105] = .ok a ∧ a.aggregateKeys mixedKeys = .ok b ∧
    a.aggregateKeys mixedKeys.reverse = .ok b' ∧ b.aggregateNonces mixedNonces = .ok c ∧
    b'.aggregateNonces mixedNonces.reverse = .ok c' ∧
    (∃ f, c.aggregateSignatures mixedShares = .ok f ∧
      c'.aggregateSignatures mixedShares.reverse = .ok f) ∧
    c.aggregateSignatures (List.ofFn alteredShare) = .error (.invalidPartialSignature 1) ∧
    c'.aggregateSignatures (List.ofFn alteredShare).reverse =
      .error (.invalidPartialSignature 0) := by
  refine ⟨_, _, _, _, _, start_mixed, aggregateKeys_mixed, aggregateKeys_reversed,
    aggregateNonces_mixed, aggregateNonces_reversed, ?_, ?_⟩
  · have h := ((reordered_session start_mixed mixedKey mixedNonce mixedShare (Equiv.swap 0 1)).2 _ _
      aggregateKeys_mixed aggregateKeys_reversed).2 _ _ aggregateNonces_mixed
        aggregateNonces_reversed
    rcases h with h | ⟨i, -, -, -, hi, -⟩
    · exact h
    · have hrefused : mixedContext.accepts (mixedKey i) (mixedNonce i) (mixedShare i) = false := hi.1
      rw [accepts_mixedShare] at hrefused
      exact absurd hrefused (by simp)
  · have h := ((reordered_session start_mixed mixedKey mixedNonce alteredShare (Equiv.swap 0 1)).2
      _ _ aggregateKeys_mixed aggregateKeys_reversed).2 _ _ aggregateNonces_mixed
        aggregateNonces_reversed
    rcases h with ⟨f, hf, -⟩ | ⟨i, i', herror, herror', hi, hi'⟩
    · obtain ⟨-, hall, -⟩ := (AwaitingShares.aggregateSignatures_eq_ok_iff
        reached_mixedSession.invariant).1 hf
      have haccepted := hall ((mixedKey 1, mixedNonce 1), alteredShare 1)
        (List.mem_cons_of_mem _ List.mem_cons_self)
      have hrefused := (accepts_alteredShare 1).2 rfl
      exact absurd (haccepted.symm.trans hrefused) (by simp)
    · have hone : i = 1 := (accepts_alteredShare i).1 hi.1
      have hswap : Equiv.swap 0 1 i' = 1 := (accepts_alteredShare _).1 hi'.1
      have hzero : i' = 0 := (Equiv.swap 0 1).injective hswap
      subst hone
      subst hzero
      exact ⟨herror, herror'⟩

end Aggregator

end JointSchnorr
