import Mathlib
import JointSchnorr.Aggregator
import JointSchnorr.Proofs.Shares

/-!
# The rounds of an aggregator

What each round does when it succeeds, and the invariant of the states that successful rounds lead
to. `Reached n m` are the states that an aggregator opened for `n` parties and the message `m` can
come to; in each of them the stored aggregates are the sums of the stored lists, one item for each
party, and are not of small order (`Reached.invariant`). Under the invariant the walk of the third
round finds the key and the nonce of each position, so it is a search along the three lists
(`walk_eq_firstBad?`). The round succeeds exactly when every share is accepted for its party, and
then the summed responses satisfy the equation of the aggregates (`sum_response`).
-/

namespace JointSchnorr.Aggregator

/-! ## Single rounds -/

theorem start_eq_ok_iff {n : Nat} {m : Bytes} {a : AwaitingKeys} :
    start n m = .ok a ↔ 0 < n ∧ a = ⟨n, m⟩ := by
  unfold start
  split
  · next h => simp [h]
  · next h =>
    rw [Except.ok.injEq, eq_comm]
    exact (and_iff_right (Nat.pos_of_ne_zero h)).symm

theorem expectCount_eq_ok_iff {n count : Nat} : expectCount n count = .ok () ↔ count = n := by
  simp [expectCount]

theorem AwaitingKeys.aggregateKeys_eq {a : AwaitingKeys} {Xs : List PublicKey}
    (h : Xs.length = a.parties) :
    a.aggregateKeys Xs = (PublicKey.aggregate Xs).map fun X => ⟨a.parties, a.message, Xs, X⟩ := by
  rw [aggregateKeys, expectCount_eq_ok_iff.2 h]
  cases PublicKey.aggregate Xs <;> rfl

theorem AwaitingNonces.aggregateNonces_eq {a : AwaitingNonces} {Rs : List PublicKey}
    (h : Rs.length = a.parties) :
    a.aggregateNonces Rs = (PublicKey.aggregateNonces Rs).map fun R =>
      ⟨a.parties, a.message, a.keys, a.aggregateKey, Rs, R⟩ := by
  rw [aggregateNonces, expectCount_eq_ok_iff.2 h]
  cases PublicKey.aggregateNonces Rs <;> rfl

theorem AwaitingKeys.aggregateKeys_eq_ok_iff {a : AwaitingKeys} {Xs : List PublicKey}
    {b : AwaitingNonces} :
    a.aggregateKeys Xs = .ok b ↔ Xs.length = a.parties ∧
      ∃ X, PublicKey.aggregate Xs = .ok X ∧ b = ⟨a.parties, a.message, Xs, X⟩ := by
  by_cases h : Xs.length = a.parties
  · rw [aggregateKeys_eq h]
    cases hX : PublicKey.aggregate Xs <;> simp [Except.map, h, eq_comm]
  · simp [aggregateKeys, expectCount, h, bind, Except.bind]

theorem AwaitingNonces.aggregateNonces_eq_ok_iff {a : AwaitingNonces} {Rs : List PublicKey}
    {b : AwaitingShares} :
    a.aggregateNonces Rs = .ok b ↔ Rs.length = a.parties ∧
      ∃ R, PublicKey.aggregateNonces Rs = .ok R ∧
        b = ⟨a.parties, a.message, a.keys, a.aggregateKey, Rs, R⟩ := by
  by_cases h : Rs.length = a.parties
  · rw [aggregateNonces_eq h]
    cases hR : PublicKey.aggregateNonces Rs <;> simp [Except.map, h, eq_comm]
  · simp [aggregateNonces, expectCount, h, bind, Except.bind]

/-! ## States that rounds lead to -/

/-- A total that sums up one item for each party and is not of small order. -/
structure SumsUp (n : Nat) (items : List PublicKey) (total : PublicKey) : Prop where
  length_eq : items.length = n
  point_eq : total.point = (items.map PublicKey.point).sum
  not_isSmallOrder : ¬ total.point.IsSmallOrder

theorem SumsUp.of_aggregate {n : Nat} {items : List PublicKey} {total : PublicKey}
    (hl : items.length = n) (h : PublicKey.aggregate items = .ok total) : SumsUp n items total := by
  obtain ⟨-, hp, hs⟩ := PublicKey.aggregate_eq_ok_iff.1 h
  exact ⟨hl, hp, hs⟩

/-- The states that successful rounds lead to, from an aggregator for `n` parties and `m`. -/
inductive Reached (n : Nat) (m : Bytes) : Aggregator → Prop where
  | start {a : AwaitingKeys} (h : start n m = .ok a) : Reached n m (.awaitingKeys a)
  | keys {a : AwaitingKeys} {b : AwaitingNonces} {Xs : List PublicKey}
      (ha : Reached n m (.awaitingKeys a)) (h : a.aggregateKeys Xs = .ok b) :
      Reached n m (.awaitingNonces b)
  | nonces {a : AwaitingNonces} {b : AwaitingShares} {Rs : List PublicKey}
      (ha : Reached n m (.awaitingNonces a)) (h : a.aggregateNonces Rs = .ok b) :
      Reached n m (.awaitingShares b)
  | signatures {a : AwaitingShares} {b : Finalized} {shares : List Signature}
      (ha : Reached n m (.awaitingShares a)) (h : a.aggregateSignatures shares = .ok b) :
      Reached n m (.finalized b)

/-- The sums of the first round stand. -/
structure AwaitingNonces.Invariant (n : Nat) (m : Bytes) (a : AwaitingNonces) : Prop where
  parties_pos : 0 < n
  parties_eq : a.parties = n
  message_eq : a.message = m
  keys : SumsUp n a.keys a.aggregateKey

/-- The sums of both rounds stand. -/
structure AwaitingShares.Invariant (n : Nat) (m : Bytes) (a : AwaitingShares) : Prop where
  parties_pos : 0 < n
  parties_eq : a.parties = n
  message_eq : a.message = m
  keys : SumsUp n a.keys a.aggregateKey
  nonces : SumsUp n a.nonces a.aggregateNonce

/-- The signature is valid for the message under the aggregate key. -/
structure Finalized.Invariant (n : Nat) (m : Bytes) (a : Finalized) : Prop where
  parties_eq : a.parties = n
  message_eq : a.message = m
  verify_eq : a.verify = true

/-- What holds of every state of an aggregator opened for `n` parties and `m`. -/
def Invariant (n : Nat) (m : Bytes) : Aggregator → Prop
  | awaitingKeys a => 0 < n ∧ a = ⟨n, m⟩
  | awaitingNonces a => a.Invariant n m
  | awaitingShares a => a.Invariant n m
  | finalized a => a.Invariant n m

variable {n : Nat} {m : Bytes}

theorem AwaitingKeys.invariant_aggregateKeys {a : AwaitingKeys} {b : AwaitingNonces}
    {Xs : List PublicKey} (inv : Invariant n m (.awaitingKeys a))
    (h : a.aggregateKeys Xs = .ok b) : b.Invariant n m := by
  obtain ⟨hpos, rfl⟩ := inv
  obtain ⟨hl, X, hX, rfl⟩ := aggregateKeys_eq_ok_iff.1 h
  exact ⟨hpos, rfl, rfl, .of_aggregate hl hX⟩

theorem AwaitingNonces.invariant_aggregateNonces {a : AwaitingNonces} {b : AwaitingShares}
    {Rs : List PublicKey} (inv : a.Invariant n m) (h : a.aggregateNonces Rs = .ok b) :
    b.Invariant n m := by
  obtain ⟨hl, R, hR, rfl⟩ := aggregateNonces_eq_ok_iff.1 h
  have hsum := SumsUp.of_aggregate hl (PublicKey.aggregateNonces_eq_ok_iff.1 hR)
  exact ⟨inv.parties_pos, inv.parties_eq, inv.message_eq, inv.keys, inv.parties_eq ▸ hsum⟩

/-! ## The third round -/

namespace AwaitingShares

variable {a : AwaitingShares} {shares : List Signature}

/-- The shares beside the keys and nonces of their positions. -/
def entries (a : AwaitingShares) (shares : List Signature) :
    List ((PublicKey × PublicKey) × Signature) := (a.keys.zip a.nonces).zip shares

/-- What the shares combine to. -/
def combined (a : AwaitingShares) (shares : List Signature) : Signature :=
  ⟨a.aggregateNonce.encode, Scalar.sum (shares.map (·.s))⟩

/-- The least position whose share does not match the key and nonce of that position. -/
def firstBad? (a : AwaitingShares) (shares : List Signature) : Option Nat :=
  (a.entries shares).findIdx? fun e => ! a.context.accepts e.1.1 e.1.2 e.2

theorem firstBad?_eq_none_iff :
    a.firstBad? shares = none ↔
      ∀ e ∈ a.entries shares, a.context.accepts e.1.1 e.1.2 e.2 = true := by
  simp [firstBad?]

/-- The end of a walk that finds this position first. -/
def WalkEnd.ofFirst : Option Nat → WalkEnd
  | none => passed
  | some i => refused i

/-- A walk with keys and nonces enough is a search along the three lists. -/
theorem walk_eq (a : AwaitingShares) (shares : List Signature) (i : Nat)
    (hX : i + shares.length ≤ a.keys.length) (hR : i + shares.length ≤ a.nonces.length) :
    a.walk i shares = .ofFirst
      ((((a.keys.drop i).zip (a.nonces.drop i)).zip shares).findIdx?
        (fun e => ! a.context.accepts e.1.1 e.1.2 e.2) |>.map (i + ·)) := by
  induction shares generalizing i with
  | nil => simp [walk, WalkEnd.ofFirst]
  | cons σ shares ih =>
    rw [List.length_cons] at hX hR
    have hi : i < a.keys.length := by omega
    have hi' : i < a.nonces.length := by omega
    rw [walk, List.getElem?_eq_getElem hi, List.getElem?_eq_getElem hi',
      List.drop_eq_getElem_cons hi, List.drop_eq_getElem_cons hi', List.zip_cons_cons,
      List.zip_cons_cons, List.findIdx?_cons]
    cases haccepts : a.context.accepts a.keys[i] a.nonces[i] σ with
    | false => simp [haccepts, WalkEnd.ofFirst]
    | true =>
      rw [ih (i + 1) (by omega) (by omega)]
      simp [haccepts, Option.map_map, Function.comp_def, Nat.add_assoc, Nat.add_comm 1]

theorem walk_eq_firstBad? (inv : a.Invariant n m) (hl : shares.length = a.parties) :
    a.walk 0 shares = .ofFirst (a.firstBad? shares) := by
  have hparties := inv.parties_eq
  have hX : 0 + shares.length ≤ a.keys.length := by
    rw [inv.keys.length_eq]
    omega
  have hR : 0 + shares.length ≤ a.nonces.length := by
    rw [inv.nonces.length_eq]
    omega
  rw [walk_eq a shares 0 hX hR]
  simp [firstBad?, entries]

theorem aggregateSignatures_of_firstBad? (inv : a.Invariant n m) (hl : shares.length = a.parties)
    {i : Nat} (h : a.firstBad? shares = some i) :
    a.aggregateSignatures shares = .error (.invalidPartialSignature i) := by
  rw [aggregateSignatures, expectCount_eq_ok_iff.2 hl, walk_eq_firstBad? inv hl, h]
  rfl

section Accepted

variable (inv : a.Invariant n m) (hl : shares.length = a.parties)

include inv hl

theorem map_entries_fst : (a.entries shares).map Prod.fst = a.keys.zip a.nonces := by
  apply List.map_fst_zip
  rw [List.length_zip, inv.keys.length_eq, inv.nonces.length_eq, hl, inv.parties_eq, min_self]

theorem map_entries_snd : (a.entries shares).map Prod.snd = shares := by
  apply List.map_snd_zip
  rw [List.length_zip, inv.keys.length_eq, inv.nonces.length_eq, hl, inv.parties_eq, min_self]

theorem map_entries_key : (a.entries shares).map (fun e => e.1.1) = a.keys := by
  have h := congrArg (List.map Prod.fst) (map_entries_fst inv hl)
  rwa [List.map_map, List.map_fst_zip (by rw [inv.keys.length_eq, inv.nonces.length_eq])] at h

theorem map_entries_nonce : (a.entries shares).map (fun e => e.1.2) = a.nonces := by
  have h := congrArg (List.map Prod.snd) (map_entries_fst inv hl)
  rwa [List.map_map, List.map_snd_zip (by rw [inv.keys.length_eq, inv.nonces.length_eq])] at h

variable (hall : ∀ e ∈ a.entries shares, a.context.accepts e.1.1 e.1.2 e.2 = true)

include hall

theorem commitment_of_accepted : ∀ σ ∈ shares, σ.r = a.aggregateNonce.encode := by
  rw [← map_entries_snd inv hl]
  intro σ hσ
  obtain ⟨e, he, rfl⟩ := List.mem_map.1 hσ
  exact (a.context.accepts_eq_true_iff.1 (hall e he)).1

/-- The equations of the single shares add up to the equation of the aggregates. -/
theorem sum_response :
    (a.combined shares).s • Point.base =
      a.aggregateNonce.point + a.context.challenge • a.aggregateKey.point := by
  have h := a.context.sum_accepted hall
  have hs := congrArg (List.map Signature.s) (map_entries_snd inv hl)
  have hX := congrArg (List.map PublicKey.point) (map_entries_key inv hl)
  have hR := congrArg (List.map PublicKey.point) (map_entries_nonce inv hl)
  rw [List.map_map] at hs hX hR
  rw [inv.keys.point_eq, inv.nonces.point_eq, ← hX, ← hR]
  show Scalar.sum (shares.map (·.s)) • Point.base = _
  rw [← hs]
  exact h

theorem aggregateSignatures_eq :
    a.aggregateSignatures shares =
      .ok ⟨a.parties, a.message, a.aggregateKey, a.combined shares⟩ := by
  have hne : shares ≠ [] := by
    rintro rfl
    rw [inv.parties_eq] at hl
    exact absurd hl (Nat.ne_of_lt inv.parties_pos)
  have hcombine := Signature.combine_of_commitment hne (commitment_of_accepted inv hl hall)
    inv.nonces.not_isSmallOrder
  rw [aggregateSignatures, expectCount_eq_ok_iff.2 hl, walk_eq_firstBad? inv hl,
    firstBad?_eq_none_iff.2 hall]
  show Except.bind _ _ = _
  rw [hcombine]
  rfl

end Accepted

/-- The third round succeeds exactly on accepted shares, one for each party. -/
theorem aggregateSignatures_eq_ok_iff (inv : a.Invariant n m) {b : Finalized} :
    a.aggregateSignatures shares = .ok b ↔ shares.length = a.parties ∧
      (∀ e ∈ a.entries shares, a.context.accepts e.1.1 e.1.2 e.2 = true) ∧
      b = ⟨a.parties, a.message, a.aggregateKey, a.combined shares⟩ := by
  constructor
  · intro h
    have hl : shares.length = a.parties := by
      by_contra hne
      simp [aggregateSignatures, expectCount, hne, bind, Except.bind] at h
    have hall : a.firstBad? shares = none := by
      cases hbad : a.firstBad? shares with
      | none => rfl
      | some i =>
        rw [aggregateSignatures_of_firstBad? inv hl hbad] at h
        cases h
    rw [firstBad?_eq_none_iff] at hall
    rw [aggregateSignatures_eq inv hl hall] at h
    exact ⟨hl, hall, (Except.ok.inj h).symm⟩
  · rintro ⟨hl, hall, rfl⟩
    exact aggregateSignatures_eq inv hl hall

/-- A response is valid with the aggregate nonce exactly when it satisfies the equation of the
aggregates. -/
theorem verify_iff (inv : a.Invariant n m) {σ : Signature} (hr : σ.r = a.aggregateNonce.encode) :
    a.aggregateKey.verify a.message σ = true ↔
      σ.s • Point.base =
        a.aggregateNonce.point + a.context.challenge • a.aggregateKey.point := by
  have h := PublicKey.verify_iff_of_commitment (X := a.aggregateKey) (m := a.message) hr
    inv.nonces.not_isSmallOrder
  rw [hr] at h
  exact h

theorem invariant_aggregateSignatures (inv : a.Invariant n m) {b : Finalized}
    (h : a.aggregateSignatures shares = .ok b) : b.Invariant n m := by
  obtain ⟨hl, hall, rfl⟩ := (aggregateSignatures_eq_ok_iff inv).1 h
  have hverify := (verify_iff inv rfl).2 (sum_response inv hl hall)
  exact ⟨inv.parties_eq, inv.message_eq, hverify⟩

end AwaitingShares

/-- Every state of an aggregator satisfies the invariant. -/
theorem Reached.invariant {a : Aggregator} (h : Reached n m a) : a.Invariant n m := by
  induction h with
  | start h => exact start_eq_ok_iff.1 h
  | keys _ h ih => exact AwaitingKeys.invariant_aggregateKeys ih h
  | nonces _ h ih => exact AwaitingNonces.invariant_aggregateNonces ih h
  | signatures _ h ih => exact AwaitingShares.invariant_aggregateSignatures ih h

end JointSchnorr.Aggregator
