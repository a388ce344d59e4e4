import Mathlib
import JointSchnorr.Aggregator
import JointSchnorr.Signatory
import JointSchnorr.Proofs.Session.Rounds
import JointSchnorr.Proofs.Session.Signatories
import JointSchnorr.Proofs.Wire.Format

/-!
# Key material

Keys, nonces and the states that hold them come from byte strings, JSON texts and scripts of random
bytes, and from one another through sums, aggregates and the rounds of signatories and aggregators.
`Obtained` is closed under all of these. Whatever is obtained is sound (`sound_of_obtained`): each
public key in it, nonces and aggregates included, keeps off the points of small order, and each
secret in it is a scalar from `1` to `N - 1` whose public part is that multiple of the base point.
-/

namespace JointSchnorr

theorem Secret.val_bounds (k : Secret) : 1 ≤ k.scalar.val ∧ k.scalar.val ≤ N - 1 := by
  have hlt : k.scalar.val < N := k.scalar.isLt
  have hne : k.scalar.val ≠ 0 := fun h => k.scalar_ne_zero (Fin.ext h)
  omega

/-- The public keys, nonces and aggregates that a signatory keeps. -/
def Signatory.publicKeys : Signatory → List PublicKey
  | awaitingKey p => [p.key.publicKey]
  | awaitingNonce p => [p.key.publicKey, p.aggregateKey, p.nonce.publicNonce]
  | awaitingSignature p => [p.key.publicKey, p.aggregateKey, p.aggregateNonce]
  | finalized p => [p.key.publicKey, p.aggregateKey]

/-- The nonce that a signatory keeps between its draw and its share. -/
def Signatory.nonces : Signatory → List Nonce
  | awaitingNonce p => [p.nonce]
  | _ => []

/-- The public keys, nonces and aggregates that an aggregator keeps. -/
def Aggregator.publicKeys : Aggregator → List PublicKey
  | awaitingKeys _ => []
  | awaitingNonces a => a.aggregateKey :: a.keys
  | awaitingShares a => a.aggregateKey :: a.aggregateNonce :: (a.keys ++ a.nonces)
  | finalized a => [a.aggregateKey]

/-- A value with keys or nonces in it. Aggregates and public nonces are public keys. -/
inductive KeyMaterial where
  | publicKey (X : PublicKey)
  | privateKey (x : PrivateKey)
  | nonce (k : Nonce)
  | signatory (p : Signatory)
  | aggregator (a : Aggregator)

namespace KeyMaterial

def publicKeys : KeyMaterial → List PublicKey
  | publicKey X => [X]
  | privateKey x => [x.publicKey]
  | nonce k => [k.publicNonce]
  | signatory p => p.publicKeys
  | aggregator a => a.publicKeys

def privateKeys : KeyMaterial → List PrivateKey
  | privateKey x => [x]
  | signatory p => [p.key]
  | _ => []

def nonces : KeyMaterial → List Nonce
  | nonce k => [k]
  | signatory p => p.nonces
  | _ => []

/-! ## Soundness -/

structure Sound (v : KeyMaterial) : Prop where
  publicKeys : ∀ X ∈ v.publicKeys, 8 • X.point ≠ 0
  privateKeys : ∀ x ∈ v.privateKeys,
    (1 ≤ x.scalar.val ∧ x.scalar.val ≤ N - 1) ∧ x.publicKey.point = x.scalar • Point.base
  nonces : ∀ k ∈ v.nonces,
    (1 ≤ k.scalar.val ∧ k.scalar.val ≤ N - 1) ∧ k.publicNonce.point = k.scalar • Point.base

/-- Secrets are sound by their type, so what may be amiss is a public key. -/
theorem sound_iff {v : KeyMaterial} : v.Sound ↔ ∀ X ∈ v.publicKeys, ¬ X.point.IsSmallOrder := by
  constructor
  · intro h
    exact h.publicKeys
  · intro h
    exact ⟨h, fun x _ => ⟨x.secret.val_bounds, rfl⟩, fun k _ => ⟨k.secret.val_bounds, rfl⟩⟩

section States

variable {X : PublicKey}

theorem sound_publicKey_iff : (publicKey X).Sound ↔ ¬ X.point.IsSmallOrder := by
  simp [sound_iff, publicKeys]

theorem sound_privateKey (x : PrivateKey) : (privateKey x).Sound := by
  simp [sound_iff, publicKeys, x.not_isSmallOrder]

theorem sound_nonce (k : Nonce) : (nonce k).Sound := by
  simp [sound_iff, publicKeys, k.not_isSmallOrder]

theorem sound_awaitingKey (p : Signatory.AwaitingKey) : (signatory (.awaitingKey p)).Sound := by
  simp [sound_iff, publicKeys, Signatory.publicKeys, p.key.not_isSmallOrder]

theorem sound_awaitingNonce_iff {p : Signatory.AwaitingNonce} :
    (signatory (.awaitingNonce p)).Sound ↔ ¬ p.aggregateKey.point.IsSmallOrder := by
  simp [sound_iff, publicKeys, Signatory.publicKeys, p.key.not_isSmallOrder,
    p.nonce.not_isSmallOrder]

theorem sound_awaitingSignature_iff {p : Signatory.AwaitingSignature} :
    (signatory (.awaitingSignature p)).Sound ↔
      ¬ p.aggregateKey.point.IsSmallOrder ∧ ¬ p.aggregateNonce.point.IsSmallOrder := by
  simp [sound_iff, publicKeys, Signatory.publicKeys, p.key.not_isSmallOrder]

theorem sound_signatory_finalized_iff {p : Signatory.Finalized} :
    (signatory (.finalized p)).Sound ↔ ¬ p.aggregateKey.point.IsSmallOrder := by
  simp [sound_iff, publicKeys, Signatory.publicKeys, p.key.not_isSmallOrder]

theorem sound_awaitingKeys (a : Aggregator.AwaitingKeys) : (aggregator (.awaitingKeys a)).Sound := by
  simp [sound_iff, publicKeys, Aggregator.publicKeys]

theorem sound_awaitingNonces_iff {a : Aggregator.AwaitingNonces} :
    (aggregator (.awaitingNonces a)).Sound ↔
      ¬ a.aggregateKey.point.IsSmallOrder ∧ ∀ X ∈ a.keys, ¬ X.point.IsSmallOrder := by
  simp [sound_iff, publicKeys, Aggregator.publicKeys]

theorem sound_awaitingShares_iff {a : Aggregator.AwaitingShares} :
    (aggregator (.awaitingShares a)).Sound ↔
      ¬ a.aggregateKey.point.IsSmallOrder ∧ ¬ a.aggregateNonce.point.IsSmallOrder ∧
        (∀ X ∈ a.keys, ¬ X.point.IsSmallOrder) ∧ ∀ R ∈ a.nonces, ¬ R.point.IsSmallOrder := by
  simp [sound_iff, publicKeys, Aggregator.publicKeys, or_imp, forall_and]

theorem sound_aggregator_finalized_iff {a : Aggregator.Finalized} :
    (aggregator (.finalized a)).Sound ↔ ¬ a.aggregateKey.point.IsSmallOrder := by
  simp [sound_iff, publicKeys, Aggregator.publicKeys]

end States

/-! ## Provenance -/

/-- What the operations give, in any order and on any bytes. -/
inductive Obtained : KeyMaterial → Prop where
  | decodedKey {bs : Bytes} {X : PublicKey} (h : PublicKey.decode bs = .ok X) :
      Obtained (.publicKey X)
  | readKey {f : Wire.Format PublicKey} {text : List Char} {X : PublicKey}
      (hf : f ∈ Wire.Format.keyFormats) (h : f.decode text = .ok X) : Obtained (.publicKey X)
  | decodedAggregate {what : Encoded} {bs : Bytes} {X : PublicKey}
      (h : JointSchnorr.decodeAggregate what bs = .ok X) : Obtained (.publicKey X)
  | decodedPrivateKey {bs : Bytes} {x : PrivateKey} (h : PrivateKey.decode bs = .ok x) :
      Obtained (.privateKey x)
  | drawnPrivateKey {script rest : Bytes} {x : PrivateKey}
      (h : PrivateKey.generate script = .ok (x, rest)) : Obtained (.privateKey x)
  | decodedNonce {bs : Bytes} {k : Nonce} (h : Nonce.decode bs = .ok k) : Obtained (.nonce k)
  | drawnNonce {script rest : Bytes} {k : Nonce} (h : Nonce.generate script = .ok (k, rest)) :
      Obtained (.nonce k)
  | keptKey {v : KeyMaterial} {X : PublicKey} (hv : Obtained v) (h : X ∈ v.publicKeys) :
      Obtained (.publicKey X)
  | keptPrivateKey {v : KeyMaterial} {x : PrivateKey} (hv : Obtained v) (h : x ∈ v.privateKeys) :
      Obtained (.privateKey x)
  | keptNonce {v : KeyMaterial} {k : Nonce} (hv : Obtained v) (h : k ∈ v.nonces) :
      Obtained (.nonce k)
  | sum {X Y Z : PublicKey} (hX : Obtained (.publicKey X)) (hY : Obtained (.publicKey Y))
      (h : X.add Y = .ok Z) : Obtained (.publicKey Z)
  | aggregateKey {Xs : List PublicKey} {X : PublicKey} (hXs : ∀ Y ∈ Xs, Obtained (.publicKey Y))
      (h : PublicKey.aggregate Xs = .ok X) : Obtained (.publicKey X)
  | aggregateNonce {Rs : List PublicKey} {R : PublicKey} (hRs : ∀ S ∈ Rs, Obtained (.publicKey S))
      (h : PublicKey.aggregateNonces Rs = .ok R) : Obtained (.publicKey R)
  | newSignatory {x : PrivateKey} (m : Bytes) (hx : Obtained (.privateKey x)) :
      Obtained (.signatory (.awaitingKey ⟨x, m⟩))
  | drawnSignatory {m script rest : Bytes} {p : Signatory.AwaitingKey}
      (h : Signatory.generate m script = .ok (p, rest)) : Obtained (.signatory (.awaitingKey p))
  | nonceDrawn {p : Signatory.AwaitingKey} {X : PublicKey} {q : Signatory.AwaitingNonce}
      {script rest : Bytes} (hp : Obtained (.signatory (.awaitingKey p)))
      (hX : Obtained (.publicKey X)) (h : p.generateNonce X script = .ok (q, rest)) :
      Obtained (.signatory (.awaitingNonce q))
  | shareIssued {p : Signatory.AwaitingNonce} {R : PublicKey}
      (hp : Obtained (.signatory (.awaitingNonce p))) (hR : Obtained (.publicKey R)) :
      Obtained (.signatory (.awaitingSignature (p.partialSign R).1))
  | signatureAccepted {p : Signatory.AwaitingSignature} {σ : Signature} {q : Signatory.Finalized}
      (hp : Obtained (.signatory (.awaitingSignature p))) (h : p.accept σ = .ok q) :
      Obtained (.signatory (.finalized q))
  | aggregatorStarted {n : Nat} {m : Bytes} {a : Aggregator.AwaitingKeys}
      (h : Aggregator.start n m = .ok a) : Obtained (.aggregator (.awaitingKeys a))
  | keysSummed {a : Aggregator.AwaitingKeys} {b : Aggregator.AwaitingNonces} {Xs : List PublicKey}
      (ha : Obtained (.aggregator (.awaitingKeys a))) (hXs : ∀ X ∈ Xs, Obtained (.publicKey X))
      (h : a.aggregateKeys Xs = .ok b) : Obtained (.aggregator (.awaitingNonces b))
  | noncesSummed {a : Aggregator.AwaitingNonces} {b : Aggregator.AwaitingShares}
      {Rs : List PublicKey} (ha : Obtained (.aggregator (.awaitingNonces a)))
      (hRs : ∀ R ∈ Rs, Obtained (.publicKey R)) (h : a.aggregateNonces Rs = .ok b) :
      Obtained (.aggregator (.awaitingShares b))
  | sharesCombined {a : Aggregator.AwaitingShares} {b : Aggregator.Finalized}
      {σs : List Signature} (ha : Obtained (.aggregator (.awaitingShares a)))
      (h : a.aggregateSignatures σs = .ok b) : Obtained (.aggregator (.finalized b))

/-! ## What each operation keeps -/

section Operations

variable {X : PublicKey} {Xs Rs : List PublicKey}

theorem sound_of_decode {bs : Bytes} (h : PublicKey.decode bs = .ok X) : (publicKey X).Sound :=
  sound_publicKey_iff.2 (PublicKey.decode_eq_ok_iff.1 h).2

theorem sound_of_aggregate (h : PublicKey.aggregate Xs = .ok X) : (publicKey X).Sound :=
  sound_publicKey_iff.2 (PublicKey.aggregate_eq_ok_iff.1 h).2.2

theorem sound_of_nonceDrawn {p : Signatory.AwaitingKey} {q : Signatory.AwaitingNonce}
    {script rest : Bytes} (hX : (publicKey X).Sound)
    (h : p.generateNonce X script = .ok (q, rest)) : (signatory (.awaitingNonce q)).Sound := by
  obtain ⟨k, -, rfl⟩ := Signatory.AwaitingKey.generateNonce_eq_ok_iff.1 h
  exact sound_awaitingNonce_iff.2 (sound_publicKey_iff.1 hX)

theorem sound_of_shareIssued {p : Signatory.AwaitingNonce} {R : PublicKey}
    (hp : (signatory (.awaitingNonce p)).Sound) (hR : (publicKey R).Sound) :
    (signatory (.awaitingSignature (p.partialSign R).1)).Sound :=
  sound_awaitingSignature_iff.2 ⟨sound_awaitingNonce_iff.1 hp, sound_publicKey_iff.1 hR⟩

theorem sound_of_signatureAccepted {p : Signatory.AwaitingSignature} {σ : Signature}
    {q : Signatory.Finalized} (hp : (signatory (.awaitingSignature p)).Sound)
    (h : p.accept σ = .ok q) : (signatory (.finalized q)).Sound := by
  obtain ⟨-, -, rfl⟩ := Signatory.AwaitingSignature.accept_eq_ok_iff.1 h
  exact sound_signatory_finalized_iff.2 (sound_awaitingSignature_iff.1 hp).1

theorem sound_of_keysSummed {a : Aggregator.AwaitingKeys} {b : Aggregator.AwaitingNonces}
    (hXs : ∀ X ∈ Xs, (publicKey X).Sound) (h : a.aggregateKeys Xs = .ok b) :
    (aggregator (.awaitingNonces b)).Sound := by
  obtain ⟨-, X, hX, rfl⟩ := Aggregator.AwaitingKeys.aggregateKeys_eq_ok_iff.1 h
  rw [sound_awaitingNonces_iff]
  refine ⟨sound_publicKey_iff.1 (sound_of_aggregate hX), ?_⟩
  intro Y hY
  exact sound_publicKey_iff.1 (hXs Y hY)

theorem sound_of_noncesSummed {a : Aggregator.AwaitingNonces} {b : Aggregator.AwaitingShares}
    (ha : (aggregator (.awaitingNonces a)).Sound) (hRs : ∀ R ∈ Rs, (publicKey R).Sound)
    (h : a.aggregateNonces Rs = .ok b) : (aggregator (.awaitingShares b)).Sound := by
  obtain ⟨-, R, hR, rfl⟩ := Aggregator.AwaitingNonces.aggregateNonces_eq_ok_iff.1 h
  obtain ⟨haggregate, hkeys⟩ := sound_awaitingNonces_iff.1 ha
  have htotal := sound_of_aggregate (PublicKey.aggregateNonces_eq_ok_iff.1 hR)
  rw [sound_awaitingShares_iff]
  refine ⟨haggregate, sound_publicKey_iff.1 htotal, hkeys, ?_⟩
  intro S hS
  exact sound_publicKey_iff.1 (hRs S hS)

theorem sound_of_sharesCombined {a : Aggregator.AwaitingShares} {b : Aggregator.Finalized}
    {σs : List Signature} (ha : (aggregator (.awaitingShares a)).Sound)
    (h : a.aggregateSignatures σs = .ok b) : (aggregator (.finalized b)).Sound := by
  have hkey : b.aggregateKey = a.aggregateKey := by
    obtain ⟨-, -, h⟩ := bind_eq_ok_iff.1 h
    cases hwalk : a.walk 0 σs with
    | passed =>
      rw [hwalk] at h
      obtain ⟨σ, -, h⟩ := bind_eq_ok_iff.1 h
      rw [← Except.ok.inj h]
    | refused i =>
      rw [hwalk] at h
      cases h
    | outOfRange i =>
      rw [hwalk] at h
      cases h
  rw [sound_aggregator_finalized_iff, hkey]
  exact (sound_awaitingShares_iff.1 ha).1

end Operations

theorem sound_of_obtained {v : KeyMaterial} (h : Obtained v) : v.Sound := by
  induction h with
  | decodedKey h => exact sound_of_decode h
  | readKey hf h =>
    obtain ⟨bs, hX⟩ := Wire.Format.exists_decode_of_mem_keyFormats hf h
    exact sound_of_decode hX
  | decodedAggregate h => exact sound_of_decode (mapError_eq_ok_iff.1 h)
  | @decodedPrivateKey bs x h => exact sound_privateKey x
  | @drawnPrivateKey script rest x h => exact sound_privateKey x
  | @decodedNonce bs k h => exact sound_nonce k
  | @drawnNonce script rest k h => exact sound_nonce k
  | keptKey hv h ih => exact sound_publicKey_iff.2 (ih.publicKeys _ h)
  | @keptPrivateKey v x hv h ih => exact sound_privateKey x
  | @keptNonce v k hv h ih => exact sound_nonce k
  | sum hX hY h ihX ihY =>
    -- two sound keys may add up to a point of small order, so only the check of the sum helps
    obtain ⟨hZ, hsmall⟩ := PublicKey.ofPoint_eq_ok_iff.1 h
    exact sound_publicKey_iff.2 (hZ ▸ hsmall)
  | aggregateKey hXs h ih => exact sound_of_aggregate h
  | aggregateNonce hRs h ih => exact sound_of_aggregate (PublicKey.aggregateNonces_eq_ok_iff.1 h)
  | @newSignatory x m hx ih => exact sound_awaitingKey ⟨x, m⟩
  | @drawnSignatory m script rest p h => exact sound_awaitingKey p
  | nonceDrawn hp hX h ihp ihX => exact sound_of_nonceDrawn ihX h
  | shareIssued hp hR ihp ihR => exact sound_of_shareIssued ihp ihR
  | signatureAccepted hp h ih => exact sound_of_signatureAccepted ih h
  | @aggregatorStarted n m a h => exact sound_awaitingKeys a
  | keysSummed ha hXs h iha ihXs => exact sound_of_keysSummed ihXs h
  | noncesSummed ha hRs h iha ihRs => exact sound_of_noncesSummed iha ihRs h
  | sharesCombined ha h ih => exact sound_of_sharesCombined ih h

end KeyMaterial

end JointSchnorr
