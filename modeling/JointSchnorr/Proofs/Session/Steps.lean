import Mathlib
import JointSchnorr.Session
import JointSchnorr.Proofs.Outcome
import JointSchnorr.Proofs.Encoding.Draw
import JointSchnorr.Proofs.Encoding.Signature
import JointSchnorr.Proofs.Session.Signatories

/-!
# The steps of a session

For each kind of step that changes a session one lemma tells what it can do, each outcome with its
guards, its answer and the whole session after it: nothing happens, or the signatory or aggregator
moves to its next stage, or its transition fails and uses it up (`create_cases`,
`generateNonce_cases`, `aggregateKeys_cases` and so on). From a signatory's answer its outcome can
be told, as no argument is refused for the cause that makes a transition fail. A step leaves the
seats that it does not name as they are (`seats_step_of_subject_ne`).
-/

namespace JointSchnorr

theorem Signatory.AwaitingKey.eq_randomness_of_generateNonce {p : AwaitingKey} {X : PublicKey}
    {script : Bytes} {e : Error} (h : p.generateNonce X script = .error e) : e = .randomness :=
  Nonce.eq_randomness_of_generate (map_eq_error_iff.1 h)

theorem Signatory.AwaitingSignature.eq_invalidSignature_of_accept {p : AwaitingSignature}
    {σ : Signature} {e : Error} (h : p.accept σ = .error e) : e = .invalidSignature := by
  unfold accept at h
  split at h
  · exact absurd h (by simp)
  · exact (Except.error.inj h).symm

namespace Session

/-- The signatory that a step creates or moves on. -/
def Step.subject : Step → Option String
  | .create id _ _ => some id
  | .generateNonce id _ _ => some id
  | .partialSign id _ => some id
  | .accept id _ => some id
  | _ => none

variable {s : Session} {id : String}

/-! ## Refused arguments -/

theorem eq_missing_of_resolveReference {α : Type} {kept : Option α} {f : Failure}
    (h : resolveReference kept = .error f) : f = .missing .reference := by
  cases kept with
  | none => exact (Except.error.inj h).symm
  | some a => exact absurd h (by simp [resolveReference])

theorem ne_randomness_of_resolveAggregate {last : Option PublicKey} {given : Option Bytes}
    {f : Failure} (h : resolveAggregate last given = .error f) : f ≠ .refused .randomness := by
  cases given with
  | some bs =>
    obtain ⟨e, he, rfl⟩ := mapError_eq_error h
    rcases PublicKey.eq_of_decode_error he with rfl | rfl <;> simp
  | none =>
    cases last with
    | none =>
      obtain rfl := Except.error.inj h
      simp
    | some X => exact absurd h (by simp [resolveAggregate])

theorem eq_of_resolveSignature_error {source : SignatureSource} {f : Failure}
    (h : s.resolveSignature source = .error f) :
    f = .refused .malformedSignature ∨ f = .missing .reference := by
  cases source with
  | encoded bs =>
    obtain ⟨e, he, rfl⟩ := mapError_eq_error h
    rw [Signature.eq_malformedSignature_of_decode he]
    exact .inl rfl
  | given σ => exact absurd h (by simp [resolveSignature])
  | published name => exact .inr (eq_missing_of_resolveReference h)
  | shiftedShare name t => exact .inr (eq_missing_of_resolveReference (map_eq_error_iff.1 h))
  | shiftedJoint t => exact .inr (eq_missing_of_resolveReference (map_eq_error_iff.1 h))

theorem ne_invalidSignature_of_resolveAccepted {given : Option SignatureSource} {f : Failure}
    (h : s.resolveAccepted given = .error f) : f ≠ .refused .invalidSignature := by
  cases given with
  | some source => rcases eq_of_resolveSignature_error h with rfl | rfl <;> simp
  | none =>
    cases hσ : s.jointSignature with
    | some σ => exact absurd h (by simp [resolveAccepted, hσ])
    | none =>
      simp only [resolveAccepted, hσ] at h
      obtain rfl := Except.error.inj h
      simp

/-! ## Outcomes -/

section Outcomes

variable (s id)

theorem create_cases (m : Bytes) (key : KeySource) :
    (∃ e, s.create id m key = (s, .error (.refused e))) ∨
    ∃ p, newSignatory m key = .ok p ∧
      s.create id m key =
        (s.setSeat id { s.seats id with
          occupant := .party (.awaitingKey p)
          key := some p.key.publicKey },
        .ok (.publicKey p.key.publicKey)) := by
  unfold create
  cases newSignatory m key with
  | error e => exact .inl ⟨e, rfl⟩
  | ok p => exact .inr ⟨p, rfl, rfl⟩

theorem generateNonce_cases (script : Bytes) (given : Option Bytes) :
    (∃ f, f ≠ .refused .randomness ∧ s.generateNonce id script given = (s, .error f)) ∨
    ∃ X p, resolveAggregate s.aggregateKey given = .ok X ∧
      (s.seats id).occupant = .party (.awaitingKey p) ∧
      (p.generateNonce X script = .error .randomness ∧
          s.generateNonce id script given = (s.spend id, .error (.refused .randomness)) ∨
        ∃ k rest, Nonce.generate script = .ok (k, rest) ∧
          s.generateNonce id script given =
            (s.setSeat id { s.seats id with
              occupant := .party (.awaitingNonce ⟨p.key, p.message, X, k⟩)
              nonce := some k.publicNonce },
            .ok (.publicNonce k.publicNonce (script.length - rest.length)))) := by
  unfold generateNonce
  cases hX : resolveAggregate s.aggregateKey given with
  | error f => exact .inl ⟨f, ne_randomness_of_resolveAggregate hX, rfl⟩
  | ok X =>
    dsimp only
    split
    · exact .inl ⟨_, by simp, rfl⟩
    · next p hp =>
      refine .inr ⟨X, p, rfl, hp, ?_⟩
      split
      · next e he =>
        obtain rfl := p.eq_randomness_of_generateNonce he
        exact .inl ⟨he, rfl⟩
      · next q rest hq =>
        obtain ⟨k, hk, rfl⟩ := Signatory.AwaitingKey.generateNonce_eq_ok_iff.1 hq
        exact .inr ⟨k, rest, hk, rfl⟩
    · exact .inl ⟨_, by simp, rfl⟩

theorem partialSign_cases (given : Option Bytes) :
    (∃ f, s.partialSign id given = (s, .error f)) ∨
    ∃ R p, resolveAggregate s.aggregateNonce given = .ok R ∧
      (s.seats id).occupant = .party (.awaitingNonce p) ∧
      s.partialSign id given =
        (s.setSeat id { s.seats id with
          occupant := .party (.awaitingSignature (p.partialSign R).1)
          share := some (p.partialSign R).2 },
        .ok (.share (p.partialSign R).2)) := by
  unfold partialSign
  cases resolveAggregate s.aggregateNonce given with
  | error f => exact .inl ⟨f, rfl⟩
  | ok R =>
    dsimp only
    split
    · exact .inl ⟨_, rfl⟩
    · next p hp => exact .inr ⟨R, p, rfl, hp, rfl⟩
    · exact .inl ⟨_, rfl⟩

theorem accept_cases (given : Option SignatureSource) :
    (∃ f, f ≠ .refused .invalidSignature ∧ s.accept id given = (s, .error f)) ∨
    ∃ σ p, s.resolveAccepted given = .ok σ ∧
      (s.seats id).occupant = .party (.awaitingSignature p) ∧
      (p.accept σ = .error .invalidSignature ∧
          s.accept id given = (s.spend id, .error (.refused .invalidSignature)) ∨
        p.accept σ = .ok ⟨p.key, p.message, p.aggregateKey, σ⟩ ∧
          s.accept id given =
            (s.setSeat id { s.seats id with
              occupant := .party (.finalized ⟨p.key, p.message, p.aggregateKey, σ⟩) },
            .ok (.accepted σ p.aggregateKey))) := by
  unfold accept
  cases hσ : s.resolveAccepted given with
  | error f => exact .inl ⟨f, ne_invalidSignature_of_resolveAccepted hσ, rfl⟩
  | ok σ =>
    dsimp only
    split
    · exact .inl ⟨_, by simp, rfl⟩
    · next p hp =>
      refine .inr ⟨σ, p, rfl, hp, ?_⟩
      split
      · next e he =>
        obtain rfl := p.eq_invalidSignature_of_accept he
        exact .inl ⟨he, rfl⟩
      · next q hq =>
        obtain ⟨-, -, rfl⟩ := Signatory.AwaitingSignature.accept_eq_ok_iff.1 hq
        exact .inr ⟨hq, rfl⟩
    · exact .inl ⟨_, by simp, rfl⟩

theorem openAggregator_cases (n : Nat) (m : Bytes) :
    (∃ e, Aggregator.start n m = .error e ∧
      s.openAggregator n m = ({ s with aggregator := none }, .error (.refused e))) ∨
    ∃ a, Aggregator.start n m = .ok a ∧
      s.openAggregator n m = ({ s with aggregator := some (.awaitingKeys a) }, .ok .opened) := by
  unfold openAggregator
  cases Aggregator.start n m with
  | error e => exact .inl ⟨e, rfl, rfl⟩
  | ok a => exact .inr ⟨a, rfl, rfl⟩

theorem aggregateKeys_cases (keys : List PointSource) :
    (∃ f, s.aggregateKeys keys = (s, .error f)) ∨
    ∃ Xs a, resolveAll (s.resolvePoint Seat.key) keys = .ok Xs ∧
      s.aggregator = some (.awaitingKeys a) ∧
      ((∃ e, a.aggregateKeys Xs = .error e ∧
          s.aggregateKeys keys = ({ s with aggregator := none }, .error (.refused e))) ∨
        ∃ b, a.aggregateKeys Xs = .ok b ∧
          s.aggregateKeys keys =
            ({ s with
                aggregator := some (.awaitingNonces b)
                aggregateKey := some b.aggregateKey },
              .ok (.aggregateKey b.aggregateKey))) := by
  unfold aggregateKeys
  cases resolveAll (s.resolvePoint Seat.key) keys with
  | error f => exact .inl ⟨f, rfl⟩
  | ok Xs =>
    dsimp only
    split
    · next a ha =>
      refine .inr ⟨Xs, a, rfl, ha, ?_⟩
      cases a.aggregateKeys Xs with
      | error e => exact .inl ⟨e, rfl, rfl⟩
      | ok b => exact .inr ⟨b, rfl, rfl⟩
    · exact .inl ⟨_, rfl⟩

theorem aggregateNonces_cases (nonces : List PointSource) :
    (∃ f, s.aggregateNonces nonces = (s, .error f)) ∨
    ∃ Rs a, resolveAll (s.resolvePoint Seat.nonce) nonces = .ok Rs ∧
      s.aggregator = some (.awaitingNonces a) ∧
      ((∃ e, a.aggregateNonces Rs = .error e ∧
          s.aggregateNonces nonces = ({ s with aggregator := none }, .error (.refused e))) ∨
        ∃ b, a.aggregateNonces Rs = .ok b ∧
          s.aggregateNonces nonces =
            ({ s with
                aggregator := some (.awaitingShares b)
                aggregateNonce := some b.aggregateNonce },
              .ok (.aggregateNonce b.aggregateNonce))) := by
  unfold aggregateNonces
  cases resolveAll (s.resolvePoint Seat.nonce) nonces with
  | error f => exact .inl ⟨f, rfl⟩
  | ok Rs =>
    dsimp only
    split
    · next a ha =>
      refine .inr ⟨Rs, a, rfl, ha, ?_⟩
      cases a.aggregateNonces Rs with
      | error e => exact .inl ⟨e, rfl, rfl⟩
      | ok b => exact .inr ⟨b, rfl, rfl⟩
    · exact .inl ⟨_, rfl⟩

theorem aggregateSignatures_cases (shares : List SignatureSource) :
    (∃ f, s.aggregateSignatures shares = (s, .error f)) ∨
    ∃ σs a, resolveAll s.resolveSignature shares = .ok σs ∧
      s.aggregator = some (.awaitingShares a) ∧
      ((∃ e, a.aggregateSignatures σs = .error e ∧
          s.aggregateSignatures shares = ({ s with aggregator := none }, .error (.refused e))) ∨
        ∃ b, a.aggregateSignatures σs = .ok b ∧
          s.aggregateSignatures shares =
            ({ s with
                aggregator := some (.finalized b)
                jointSignature := some b.signature },
              .ok (.jointSignature b.signature))) := by
  unfold aggregateSignatures
  cases resolveAll s.resolveSignature shares with
  | error f => exact .inl ⟨f, rfl⟩
  | ok σs =>
    dsimp only
    split
    · next a ha =>
      refine .inr ⟨σs, a, rfl, ha, ?_⟩
      cases a.aggregateSignatures σs with
      | error e => exact .inl ⟨e, rfl, rfl⟩
      | ok b => exact .inr ⟨b, rfl, rfl⟩
    · exact .inl ⟨_, rfl⟩

end Outcomes

/-! ## The other seats -/

theorem setSeat_self (s : Session) (id : String) : s.setSeat id (s.seats id) = s := by
  have hseats : (fun other => if other = id then s.seats id else s.seats other) = s.seats := by
    funext other
    split
    · next h => rw [h]
    · rfl
  rw [setSeat, hseats]

/-- A step that names a signatory replaces its seat at most. -/
theorem exists_setSeat_of_subject {t : Step} (h : t.subject = some id) :
    ∃ seat, (s.step t).1 = s.setSeat id seat := by
  have hself : ∃ seat, s = s.setSeat id seat := ⟨_, (s.setSeat_self id).symm⟩
  cases t with
  | create name m key =>
    obtain rfl := Option.some.inj h
    rcases s.create_cases name m key with ⟨e, hs⟩ | ⟨p, -, hs⟩
    · rw [step, hs]
      exact hself
    · rw [step, hs]
      exact ⟨_, rfl⟩
  | generateNonce name script given =>
    obtain rfl := Option.some.inj h
    rcases s.generateNonce_cases name script given with
      ⟨f, -, hs⟩ | ⟨X, p, -, -, ⟨-, hs⟩ | ⟨k, rest, -, hs⟩⟩
    · rw [step, hs]
      exact hself
    · rw [step, hs]
      exact ⟨_, rfl⟩
    · rw [step, hs]
      exact ⟨_, rfl⟩
  | partialSign name given =>
    obtain rfl := Option.some.inj h
    rcases s.partialSign_cases name given with ⟨f, hs⟩ | ⟨R, p, -, -, hs⟩
    · rw [step, hs]
      exact hself
    · rw [step, hs]
      exact ⟨_, rfl⟩
  | accept name given =>
    obtain rfl := Option.some.inj h
    rcases s.accept_cases name given with
      ⟨f, -, hs⟩ | ⟨σ, p, -, -, ⟨-, hs⟩ | ⟨-, hs⟩⟩
    · rw [step, hs]
      exact hself
    · rw [step, hs]
      exact ⟨_, rfl⟩
    · rw [step, hs]
      exact ⟨_, rfl⟩
  | _ => exact absurd h (by simp [Step.subject])

theorem seats_openAggregator (n : Nat) (m : Bytes) : (s.openAggregator n m).1.seats = s.seats := by
  rcases s.openAggregator_cases n m with ⟨e, -, hs⟩ | ⟨a, -, hs⟩ <;> rw [hs]

theorem seats_aggregateKeys (keys : List PointSource) :
    (s.aggregateKeys keys).1.seats = s.seats := by
  rcases s.aggregateKeys_cases keys with
    ⟨f, hs⟩ | ⟨Xs, a, -, -, ⟨e, -, hs⟩ | ⟨b, -, hs⟩⟩ <;> rw [hs]

theorem seats_aggregateNonces (nonces : List PointSource) :
    (s.aggregateNonces nonces).1.seats = s.seats := by
  rcases s.aggregateNonces_cases nonces with
    ⟨f, hs⟩ | ⟨Rs, a, -, -, ⟨e, -, hs⟩ | ⟨b, -, hs⟩⟩ <;> rw [hs]

theorem seats_aggregateSignatures (shares : List SignatureSource) :
    (s.aggregateSignatures shares).1.seats = s.seats := by
  rcases s.aggregateSignatures_cases shares with
    ⟨f, hs⟩ | ⟨σs, a, -, -, ⟨e, -, hs⟩ | ⟨b, -, hs⟩⟩ <;> rw [hs]

/-- A step that names no signatory leaves all seats as they are. -/
theorem seats_step_of_subject_eq_none {t : Step} (h : t.subject = none) :
    (s.step t).1.seats = s.seats := by
  cases t with
  | showSignatory name => rfl
  | openAggregator n m => exact seats_openAggregator n m
  | aggregateKeys Xs => exact seats_aggregateKeys Xs
  | aggregateNonces Rs => exact seats_aggregateNonces Rs
  | aggregateSignatures σs => exact seats_aggregateSignatures σs
  | showAggregator => rfl
  | _ => exact absurd h (by simp [Step.subject])

theorem seats_step_of_subject_ne {t : Step} (h : t.subject ≠ some id) :
    (s.step t).1.seats id = s.seats id := by
  cases ht : t.subject with
  | none => rw [seats_step_of_subject_eq_none ht]
  | some name =>
    obtain ⟨seat, hs⟩ := exists_setSeat_of_subject (s := s) ht
    have hne : id ≠ name := fun e => h (ht.trans (congrArg some e.symm))
    rw [hs, s.setSeat_seats_of_ne seat hne]

end Session

end JointSchnorr
