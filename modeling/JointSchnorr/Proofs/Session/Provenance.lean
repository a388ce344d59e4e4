import Mathlib
import JointSchnorr.Proofs.KeyMaterial
import JointSchnorr.Proofs.Session.Soundness
import JointSchnorr.Proofs.Session.Steps

/-!
# Where the values of a session come from

A session keeps and answers only values that the operations on keys, nonces and states give: this
holds of the empty session and is kept by each step (`Sourced.step`), whatever its arguments are, so
it holds of each run (`Sourced.run`). With the soundness of such values no run ever shows, publishes
or keeps a public key of small order (`key_material_sound`).
-/

namespace JointSchnorr

open KeyMaterial (Obtained)

/-- All that a seat keeps is obtained. -/
structure Seat.Sourced (seat : Seat) : Prop where
  occupant : ∀ p, seat.occupant = .party p → Obtained (.signatory p)
  key : ∀ X ∈ seat.key, Obtained (.publicKey X)
  nonce : ∀ R ∈ seat.nonce, Obtained (.publicKey R)

namespace Seat.Sourced

variable {seat : Seat} (hseat : seat.Sourced)

include hseat

theorem party {p : Signatory} (hp : Obtained (.signatory p)) :
    Sourced { seat with occupant := .party p } :=
  ⟨by simpa using hp, hseat.key, hseat.nonce⟩

theorem spent : Sourced { seat with occupant := .spent } :=
  ⟨by simp, hseat.key, hseat.nonce⟩

theorem withKey {X : PublicKey} (hX : Obtained (.publicKey X)) :
    Sourced { seat with key := some X } :=
  ⟨hseat.occupant, by simpa using hX, hseat.nonce⟩

theorem withNonce {R : PublicKey} (hR : Obtained (.publicKey R)) :
    Sourced { seat with nonce := some R } :=
  ⟨hseat.occupant, hseat.key, by simpa using hR⟩

theorem withShare (σ : Signature) : Sourced { seat with share := some σ } :=
  ⟨hseat.occupant, hseat.key, hseat.nonce⟩

end Seat.Sourced

namespace Session

/-- All that a session keeps is obtained. -/
structure Sourced (s : Session) : Prop where
  seats : ∀ id, (s.seats id).Sourced
  aggregator : ∀ a ∈ s.aggregator, Obtained (.aggregator a)
  aggregateKey : ∀ X ∈ s.aggregateKey, Obtained (.publicKey X)
  aggregateNonce : ∀ R ∈ s.aggregateNonce, Obtained (.publicKey R)

/-- The values with keys or nonces in an answer. -/
def Answer.keyMaterial : Answer → List KeyMaterial
  | publicKey X => [.publicKey X]
  | publicNonce R _ => [.publicKey R]
  | accepted _ X => [.publicKey X]
  | signatory p => [.signatory p]
  | aggregateKey X => [.publicKey X]
  | aggregateNonce R => [.publicKey R]
  | aggregator a => [.aggregator a]
  | _ => []

def Answer.Sourced (a : Answer) : Prop := ∀ v ∈ a.keyMaterial, Obtained v

/-- All that a session after a step and the step's answer hold is obtained. -/
def SourcedResult (r : Session × Except Failure Answer) : Prop :=
  r.1.Sourced ∧ ∀ a, r.2 = .ok a → a.Sourced

theorem sourced_empty : empty.Sourced where
  seats id := by constructor <;> simp [empty, Seat.vacant]
  aggregator := by simp [empty]
  aggregateKey := by simp [empty]
  aggregateNonce := by simp [empty]

section Results

variable {s : Session} (hs : s.Sourced)

include hs

theorem Sourced.refuse (f : Failure) : SourcedResult (s, .error f) :=
  ⟨hs, by simp⟩

theorem Sourced.setSeat {id : String} {seat : Seat} (hseat : seat.Sourced) :
    (s.setSeat id seat).Sourced := by
  refine ⟨?_, hs.aggregator, hs.aggregateKey, hs.aggregateNonce⟩
  intro other
  by_cases h : other = id
  · rw [h, setSeat_seats_self]
    exact hseat
  · rw [s.setSeat_seats_of_ne seat h]
    exact hs.seats other

theorem Sourced.spend (id : String) (f : Failure) : SourcedResult (s.spend id, .error f) :=
  (hs.setSeat (hs.seats id).spent).refuse f

theorem Sourced.answer {a : Answer} (ha : a.Sourced) : SourcedResult (s, .ok a) :=
  ⟨hs, by simpa using ha⟩

theorem Sourced.dropAggregator : Sourced { s with aggregator := none } :=
  ⟨hs.seats, by simp, hs.aggregateKey, hs.aggregateNonce⟩

theorem Sourced.withAggregator {a : Aggregator} (ha : Obtained (.aggregator a)) :
    Sourced { s with aggregator := some a } :=
  ⟨hs.seats, by simpa using ha, hs.aggregateKey, hs.aggregateNonce⟩

theorem Sourced.withAggregateKey {X : PublicKey} (hX : Obtained (.publicKey X)) :
    Sourced { s with aggregateKey := some X } :=
  ⟨hs.seats, hs.aggregator, by simpa using hX, hs.aggregateNonce⟩

theorem Sourced.withAggregateNonce {R : PublicKey} (hR : Obtained (.publicKey R)) :
    Sourced { s with aggregateNonce := some R } :=
  ⟨hs.seats, hs.aggregator, hs.aggregateKey, by simpa using hR⟩

theorem Sourced.withJointSignature (σ : Signature) :
    Sourced { s with jointSignature := some σ } :=
  ⟨hs.seats, hs.aggregator, hs.aggregateKey, hs.aggregateNonce⟩

end Results

/-! ## Arguments -/

theorem forall_mem_of_resolveAll {α β : Type} {resolve : α → Except Failure β} {P : β → Prop}
    (hresolve : ∀ a b, resolve a = .ok b → P b) {as : List α} {bs : List β}
    (h : resolveAll resolve as = .ok bs) : ∀ b ∈ bs, P b := by
  induction as generalizing bs with
  | nil =>
    obtain rfl := Except.ok.inj h
    simp
  | cons a as ih =>
    obtain ⟨b, hb, h⟩ := bind_eq_ok_iff.1 h
    obtain ⟨bs', hbs, h⟩ := bind_eq_ok_iff.1 h
    obtain rfl := Except.ok.inj h
    exact List.forall_mem_cons.2 ⟨hresolve a b hb, ih hbs⟩

theorem resolveAll_encoded {s : Session} {kept : Seat → Option PublicKey} {Xs : List PublicKey}
    (h : ∀ X ∈ Xs, ¬ X.point.IsSmallOrder) :
    resolveAll (s.resolvePoint kept) (Xs.map fun X => .encoded X.encode.toList) = .ok Xs := by
  induction Xs with
  | nil => rfl
  | cons X Xs ih =>
    obtain ⟨hX, hXs⟩ := List.forall_mem_cons.1 h
    rw [List.map_cons, resolveAll, resolvePoint, PublicKey.decode_encode hX, ih hXs]
    rfl

theorem obtained_of_resolveAggregate {last : Option PublicKey} {given : Option Bytes}
    {X : PublicKey} (hlast : ∀ Y ∈ last, Obtained (.publicKey Y))
    (h : resolveAggregate last given = .ok X) : Obtained (.publicKey X) := by
  cases given with
  | some bs => exact .decodedKey (mapError_eq_ok_iff.1 h)
  | none =>
    cases last with
    | none => exact absurd h (by simp [resolveAggregate])
    | some Y =>
      obtain rfl := Except.ok.inj h
      exact hlast Y rfl

theorem obtained_of_resolvePoint {s : Session} {kept : Seat → Option PublicKey}
    {source : PointSource} {X : PublicKey}
    (hkept : ∀ id, ∀ Y ∈ kept (s.seats id), Obtained (.publicKey Y))
    (h : s.resolvePoint kept source = .ok X) : Obtained (.publicKey X) := by
  cases source with
  | encoded bs => exact .decodedKey (mapError_eq_ok_iff.1 h)
  | published id =>
    simp only [resolvePoint] at h
    cases hX : kept (s.seats id) with
    | none => exact absurd h (by simp [resolveReference, hX])
    | some Y =>
      rw [hX] at h
      obtain rfl := Except.ok.inj h
      exact hkept id Y hX

theorem obtained_of_newSignatory {m : Bytes} {key : KeySource} {p : Signatory.AwaitingKey}
    (h : newSignatory m key = .ok p) : Obtained (.signatory (.awaitingKey p)) := by
  cases key with
  | encoded bs =>
    obtain ⟨x, hx, rfl⟩ := exists_of_map_eq_ok h
    exact .newSignatory m (.decodedPrivateKey hx)
  | drawn script =>
    obtain ⟨⟨q, rest⟩, hq, rfl⟩ := exists_of_map_eq_ok h
    exact .drawnSignatory hq

/-! ## Steps -/

section Steps

variable {s : Session} (hs : s.Sourced)

include hs

theorem Sourced.create (id : String) (m : Bytes) (key : KeySource) :
    SourcedResult (s.create id m key) := by
  rcases s.create_cases id m key with ⟨e, h⟩ | ⟨p, hp, h⟩
  · rw [h]
    exact hs.refuse _
  · have hparty := obtained_of_newSignatory hp
    have hkey : Obtained (.publicKey p.key.publicKey) :=
      .keptKey hparty (List.mem_singleton_self _)
    rw [h]
    exact (hs.setSeat (((hs.seats id).party hparty).withKey hkey)).answer
      (List.forall_mem_singleton.2 hkey)

theorem Sourced.generateNonce (id : String) (script : Bytes) (given : Option Bytes) :
    SourcedResult (s.generateNonce id script given) := by
  rcases s.generateNonce_cases id script given with
    ⟨f, -, h⟩ | ⟨X, p, hX, hp, ⟨-, h⟩ | ⟨k, rest, hk, h⟩⟩
  · rw [h]
    exact hs.refuse _
  · rw [h]
    exact hs.spend id _
  · have hparty := Obtained.nonceDrawn ((hs.seats id).occupant _ hp)
      (obtained_of_resolveAggregate hs.aggregateKey hX)
      (Signatory.AwaitingKey.generateNonce_eq_ok_iff.2 ⟨k, hk, rfl⟩)
    have hnonce : Obtained (.publicKey k.publicNonce) :=
      .keptKey (.drawnNonce hk) (List.mem_singleton_self _)
    rw [h]
    exact (hs.setSeat (((hs.seats id).party hparty).withNonce hnonce)).answer
      (List.forall_mem_singleton.2 hnonce)

theorem Sourced.partialSign (id : String) (given : Option Bytes) :
    SourcedResult (s.partialSign id given) := by
  rcases s.partialSign_cases id given with ⟨f, h⟩ | ⟨R, p, hR, hp, h⟩
  · rw [h]
    exact hs.refuse _
  · have hparty := Obtained.shareIssued ((hs.seats id).occupant _ hp)
      (obtained_of_resolveAggregate hs.aggregateNonce hR)
    rw [h]
    exact (hs.setSeat (((hs.seats id).party hparty).withShare _)).answer (List.forall_mem_nil _)

theorem Sourced.accept (id : String) (given : Option SignatureSource) :
    SourcedResult (s.accept id given) := by
  rcases s.accept_cases id given with ⟨f, -, h⟩ | ⟨σ, p, -, hp, ⟨-, h⟩ | ⟨hq, h⟩⟩
  · rw [h]
    exact hs.refuse _
  · rw [h]
    exact hs.spend id _
  · have hparty := Obtained.signatureAccepted ((hs.seats id).occupant _ hp) hq
    have hkey : Obtained (.publicKey p.aggregateKey) :=
      .keptKey hparty (List.mem_cons_of_mem _ (List.mem_singleton_self _))
    rw [h]
    exact (hs.setSeat ((hs.seats id).party hparty)).answer (List.forall_mem_singleton.2 hkey)

theorem Sourced.showSignatory (id : String) : SourcedResult (s, s.showSignatory id) := by
  unfold Session.showSignatory
  split
  · exact hs.refuse _
  · exact hs.answer (List.forall_mem_nil _)
  · next p hp => exact hs.answer (List.forall_mem_singleton.2 ((hs.seats id).occupant p hp))

theorem Sourced.openAggregator (n : Nat) (m : Bytes) : SourcedResult (s.openAggregator n m) := by
  rcases s.openAggregator_cases n m with ⟨e, -, h⟩ | ⟨a, ha, h⟩
  · rw [h]
    exact hs.dropAggregator.refuse _
  · rw [h]
    exact (hs.withAggregator (.aggregatorStarted ha)).answer (List.forall_mem_nil _)

theorem Sourced.aggregateKeys (keys : List PointSource) : SourcedResult (s.aggregateKeys keys) := by
  rcases s.aggregateKeys_cases keys with ⟨f, h⟩ | ⟨Xs, a, hXs, ha, ⟨e, -, h⟩ | ⟨b, hb, h⟩⟩
  · rw [h]
    exact hs.refuse _
  · rw [h]
    exact hs.dropAggregator.refuse _
  · have hkeys : ∀ X ∈ Xs, Obtained (.publicKey X) :=
      forall_mem_of_resolveAll
        (fun _ _ => obtained_of_resolvePoint fun id => (hs.seats id).key) hXs
    have hstate := Obtained.keysSummed (hs.aggregator _ ha) hkeys hb
    have hkey : Obtained (.publicKey b.aggregateKey) := .keptKey hstate List.mem_cons_self
    rw [h]
    exact ((hs.withAggregator hstate).withAggregateKey hkey).answer
      (List.forall_mem_singleton.2 hkey)

theorem Sourced.aggregateNonces (nonces : List PointSource) :
    SourcedResult (s.aggregateNonces nonces) := by
  rcases s.aggregateNonces_cases nonces with ⟨f, h⟩ | ⟨Rs, a, hRs, ha, ⟨e, -, h⟩ | ⟨b, hb, h⟩⟩
  · rw [h]
    exact hs.refuse _
  · rw [h]
    exact hs.dropAggregator.refuse _
  · have hnonces : ∀ R ∈ Rs, Obtained (.publicKey R) :=
      forall_mem_of_resolveAll
        (fun _ _ => obtained_of_resolvePoint fun id => (hs.seats id).nonce) hRs
    have hstate := Obtained.noncesSummed (hs.aggregator _ ha) hnonces hb
    have hnonce : Obtained (.publicKey b.aggregateNonce) :=
      .keptKey hstate (List.mem_cons_of_mem _ List.mem_cons_self)
    rw [h]
    exact ((hs.withAggregator hstate).withAggregateNonce hnonce).answer
      (List.forall_mem_singleton.2 hnonce)

theorem Sourced.aggregateSignatures (shares : List SignatureSource) :
    SourcedResult (s.aggregateSignatures shares) := by
  rcases s.aggregateSignatures_cases shares with
    ⟨f, h⟩ | ⟨σs, a, -, ha, ⟨e, -, h⟩ | ⟨b, hb, h⟩⟩
  · rw [h]
    exact hs.refuse _
  · rw [h]
    exact hs.dropAggregator.refuse _
  · have hstate := Obtained.sharesCombined (hs.aggregator _ ha) hb
    rw [h]
    exact ((hs.withAggregator hstate).withJointSignature _).answer (List.forall_mem_nil _)

theorem Sourced.showAggregator : s.showAggregator.Sourced := by
  unfold Session.showAggregator
  split
  · next a ha => exact List.forall_mem_singleton.2 (hs.aggregator a ha)
  · exact List.forall_mem_nil _

/-- A step leads to what is obtained and answers it. -/
theorem Sourced.step (t : Step) : SourcedResult (s.step t) := by
  cases t with
  | create id m key => exact hs.create id m key
  | generateNonce id script given => exact hs.generateNonce id script given
  | partialSign id given => exact hs.partialSign id given
  | accept id given => exact hs.accept id given
  | showSignatory id => exact hs.showSignatory id
  | openAggregator n m => exact hs.openAggregator n m
  | aggregateKeys keys => exact hs.aggregateKeys keys
  | aggregateNonces nonces => exact hs.aggregateNonces nonces
  | aggregateSignatures shares => exact hs.aggregateSignatures shares
  | showAggregator => exact hs.answer hs.showAggregator

theorem Sourced.run (ts : List Step) :
    (s.run ts).1.Sourced ∧ ∀ a, .ok a ∈ (s.run ts).2 → a.Sourced := by
  induction ts generalizing s with
  | nil => exact ⟨hs, fun a h => absurd h List.not_mem_nil⟩
  | cons t ts ih =>
    obtain ⟨hnext, hanswer⟩ := hs.step t
    obtain ⟨hlast, hanswers⟩ := ih hnext
    refine ⟨hlast, ?_⟩
    intro a ha
    rcases List.mem_cons.1 ha with h | h
    · exact hanswer a h.symm
    · exact hanswers a h

end Steps

end Session

open KeyMaterial

/-- **Key material.** Whatever the operations on keys, nonces and states give in any order, and
whatever a session answers in any run, is sound: no public key, public nonce or aggregate in it is
of small order, and each secret in it is a scalar from `1` to `N - 1` with its multiple of the base
point as public part. -/
theorem key_material_sound :
    (∀ v, Obtained v → v.Sound) ∧
      ∀ ts a, .ok a ∈ (Session.empty.run ts).2 → ∀ v ∈ a.keyMaterial, v.Sound := by
  refine ⟨fun v => sound_of_obtained, ?_⟩
  intro ts a ha v hv
  have hsourced := (Session.sourced_empty.run ts).2 a ha
  exact sound_of_obtained (hsourced v hv)

/-! Two keys with a part of order two, read from their encodings and summed up in a session. -/

open Aggregator

theorem not_isSmallOrder_mixedKeys : ∀ X ∈ mixedKeys, ¬ X.point.IsSmallOrder := by decide +kernel

/-- A first round on encoded keys. -/
def mixedSteps : List Session.Step :=
  [.openAggregator 2 [104, 105],
    .aggregateKeys (mixedKeys.map fun X => .encoded X.encode.toList)]

theorem run_mixedSteps :
    (Session.empty.run mixedSteps).2 = [.ok .opened, .ok (.aggregateKey mixedContext.key)] := by
  simp only [mixedSteps, Session.run, Session.step, Session.openAggregator, start_mixed,
    Session.aggregateKeys, Session.resolveAll_encoded not_isSmallOrder_mixedKeys,
    aggregateKeys_mixed]

theorem obtained_mixedKeys : ∀ X ∈ mixedKeys, Obtained (.publicKey X) :=
  fun X hX => .decodedKey (PublicKey.decode_encode (not_isSmallOrder_mixedKeys X hX))

theorem obtained_mixedRound :
    Obtained (.aggregator (.awaitingNonces ⟨2, [104, 105], mixedKeys, mixedContext.key⟩)) :=
  .keysSummed (.aggregatorStarted start_mixed) obtained_mixedKeys aggregateKeys_mixed

theorem key_material_sound_mixed :
    Obtained (.aggregator (.awaitingNonces ⟨2, [104, 105], mixedKeys, mixedContext.key⟩)) ∧
    (∀ X ∈ mixedContext.key :: mixedKeys, 8 • X.point ≠ 0) ∧
    .ok (.aggregateKey mixedContext.key) ∈ (Session.empty.run mixedSteps).2 ∧
    8 • mixedContext.key.point ≠ 0 := by
  obtain ⟨hvalues, hanswers⟩ := key_material_sound
  have hanswer : .ok (.aggregateKey mixedContext.key) ∈ (Session.empty.run mixedSteps).2 := by
    rw [run_mixedSteps]
    exact List.mem_cons_of_mem _ (List.mem_singleton_self _)
  have hkey := hanswers mixedSteps _ hanswer _ (List.mem_singleton_self _)
  exact ⟨obtained_mixedRound, (hvalues _ obtained_mixedRound).publicKeys, hanswer,
    hkey.publicKeys _ (List.mem_singleton_self _)⟩

end JointSchnorr
