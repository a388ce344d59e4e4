import Mathlib
import JointSchnorr.Journal.Operation
import JointSchnorr.Proofs.Combination
import JointSchnorr.Proofs.Encoding.Secret
import JointSchnorr.Proofs.Journal.Records
import JointSchnorr.Proofs.Session.Outcomes
import JointSchnorr.Proofs.Session.Steps

/-!
# What operations leave in their journals

The journal of each operation is well nested, and so is that of any run of a session
(`wellNested_run`), whose records are therefore those of its steps in order (`records_run`). A
secret that can be read leaves nothing of itself, whether it is read alone or signed with
(`decodePrivateKey_of_readable`, `signFromScalar_of_readable`, `partialSign_of_readable`). Drawing
one leaves an event for each turn of the loop but the last (`drawSecret_of_endsAt`). An aggregator
warns of just that share or commitment for which it fails (`events_aggregateShares`), and no other
step of a session warns of anything (`refused_of_warning`).
-/

namespace JointSchnorr.Journal

variable {e : Event} {marks rest : List Mark}

/-! ## Events -/

/-- The events of a journal. -/
def events (marks : List Mark) : List Event :=
  marks.filterMap fun
    | .event e => some e
    | _ => none

theorem mem_events_iff : e ∈ events marks ↔ .event e ∈ marks := by
  induction marks with
  | nil => simp [events]
  | cons mark marks ih =>
    rw [List.mem_cons, ← ih]
    cases mark <;> simp [events]

theorem events_within (s : Span) (marks : List Mark) : events (within s marks) = events marks := by
  simp [events, within, List.filterMap_append]

/-! ## Secrets -/

section Secrets

variable {what : Encoded} {zero : Error} {bs : Bytes}

theorem decodeSecret_of_readable {k : Secret} (h : Secret.decode what zero bs = .ok k) :
    decodeSecret what bs = [] := by
  obtain ⟨-, hk⟩ := Secret.decode_eq_ok_iff.1 h
  rw [decodeSecret, hk]
  exact if_neg fun hzero => k.scalar_ne_zero hzero.2

/-- A secret is entered only if it is refused for being zero. -/
theorem decodeSecret_eq_iff (hzero : ∀ w, zero ≠ .malformedInput w) :
    decodeSecret what bs = [.event (.zeroSecret what)] ↔
      Secret.decode what zero bs = .error zero := by
  rw [Secret.decode_eq_zero_iff hzero, ← Scalar.ofBytes_eq_zero_iff, decodeSecret]
  split
  · next h => simp [h]
  · next h => simp [h]

theorem decodePrivateKey_of_readable {x : PrivateKey} (h : PrivateKey.decode bs = .ok x) :
    decodePrivateKey bs = [] := by
  obtain ⟨k, hk, -⟩ := exists_of_map_eq_ok h
  exact decodeSecret_of_readable hk

theorem decodeNonce_of_readable {k : Nonce} (h : Nonce.decode bs = .ok k) :
    decodeNonce bs = [] := by
  obtain ⟨k, hk, -⟩ := exists_of_map_eq_ok h
  exact decodeSecret_of_readable hk

/-- All nonces that can be read leave the same. -/
theorem signFromScalar_of_readable {k : Nonce} (h : Nonce.decode bs = .ok k) :
    signFromScalar bs = within .signFromScalar [] := by
  rw [signFromScalar, decodeNonce_of_readable h]

/-- All private keys and nonces that can be read leave the same. -/
theorem partialSign_of_readable {x : PrivateKey} {k : Nonce} {key nonce : Bytes}
    (hx : PrivateKey.decode key = .ok x) (hk : Nonce.decode nonce = .ok k) (aggregateKey : Bytes) :
    partialSign key aggregateKey nonce = within .partialSign [] := by
  rw [partialSign, hx, decodeNonce_of_readable hk]
  cases PublicKey.decode aggregateKey <;> rfl

end Secrets

/-- Each turn of the loop but the last one leaves an event. -/
theorem drawSecret_of_endsAt {script : Bytes} {n : Nat} {answer : Except Error (Secret × Bytes)}
    (h : Secret.EndsAt script n answer) :
    drawSecret script = List.replicate (n - 1) (.event .zeroDraw) := by
  rw [drawSecret, h.draw_eq]
  cases answer with
  | ok drawn =>
    have hlength := h.length_eq
    congr 1
    show (script.length - drawn.2.length) / 64 - 1 = n - 1
    omega
  | error e =>
    have hlength := h.length_div_eq
    congr 1
    show script.length / 64 = n - 1
    omega

/-! ## Nesting -/

theorem wellNested_decodeSecret (what : Encoded) (bs : Bytes) :
    WellNested (decodeSecret what bs) := by
  unfold decodeSecret
  split
  · exact .single _
  · exact .nil

theorem wellNested_drawSecret (script : Bytes) : WellNested (drawSecret script) :=
  .replicate _ _

theorem wellNested_signFromScalar (nonce : Bytes) : WellNested (signFromScalar nonce) :=
  .span _ (wellNested_decodeSecret _ _)

theorem wellNested_sign (script : Bytes) : WellNested (sign script) :=
  .span _ (wellNested_drawSecret script)

theorem wellNested_verify (σ : Signature) : WellNested (verify σ) := by
  refine .span _ ?_
  split
  · exact .single _
  · exact .nil

theorem wellNested_verifyBytes (key signature : Bytes) :
    WellNested (verifyBytes key signature) := by
  unfold verifyBytes
  split
  · exact wellNested_verify _
  · exact .nil

theorem wellNested_partialSign (key aggregateKey nonce : Bytes) :
    WellNested (partialSign key aggregateKey nonce) := by
  refine .span _ ?_
  split
  · exact wellNested_decodeSecret _ _
  · exact .nil
  · exact wellNested_decodeSecret _ _

theorem wellNested_combine (σs : List Signature) : WellNested (combine σs) := by
  refine .span _ ?_
  split
  · exact .single _
  · exact .single _
  · exact .nil

theorem wellNested_aggregateShares (a : Aggregator.AwaitingShares) (σs : List Signature) :
    WellNested (aggregateShares a σs) := by
  refine .span _ ?_
  split
  · split
    · exact wellNested_combine σs
    · exact .single _
    · exact .single _
  · exact .nil

/-! ## Steps of a session -/

/-- What a step of a session can leave. -/
theorem step_cases (s : Session) (t : Session.Step) :
    step s t = [] ∨ (∃ what bs, step s t = decodeSecret what bs) ∨
      (∃ script, step s t = drawSecret script) ∨ (∃ span, step s t = within span []) ∨
      (∃ σ, step s t = verify σ) ∨
      ∃ shares σs a, t = .aggregateSignatures shares ∧
        Session.resolveAll s.resolveSignature shares = .ok σs ∧
        s.aggregator = some (.awaitingShares a) ∧ step s t = aggregateShares a σs := by
  cases t with
  | create id message key =>
    cases key with
    | encoded bs => exact .inr (.inl ⟨.privateKey, bs, rfl⟩)
    | drawn script => exact .inr (.inr (.inl ⟨script, rfl⟩))
  | generateNonce id script X =>
    simp only [step]
    split
    · exact .inr (.inr (.inl ⟨script, rfl⟩))
    · exact .inl rfl
  | partialSign id R =>
    simp only [step]
    split
    · exact .inr (.inr (.inr (.inl ⟨_, rfl⟩)))
    · exact .inl rfl
  | accept id source =>
    simp only [step, accept]
    split
    · split
      · exact .inr (.inr (.inr (.inr (.inl ⟨_, rfl⟩))))
      · exact .inl rfl
    · exact .inl rfl
  | showSignatory id => exact .inl rfl
  | openAggregator parties message => exact .inl rfl
  | aggregateKeys keys =>
    simp only [step]
    split
    · exact .inr (.inr (.inr (.inl ⟨_, rfl⟩)))
    · exact .inl rfl
  | aggregateNonces nonces =>
    simp only [step]
    split
    · exact .inr (.inr (.inr (.inl ⟨_, rfl⟩)))
    · exact .inl rfl
  | aggregateSignatures shares =>
    simp only [step]
    split
    · next σs a hσs ha =>
      exact .inr (.inr (.inr (.inr (.inr ⟨shares, σs, a, rfl, hσs, ha, rfl⟩))))
    · exact .inl rfl
  | showAggregator =>
    simp only [step]
    split
    · exact .inr (.inr (.inr (.inr (.inl ⟨_, rfl⟩))))
    · exact .inl rfl

theorem wellNested_step (s : Session) (t : Session.Step) : WellNested (step s t) := by
  rcases step_cases s t with h | ⟨what, bs, h⟩ | ⟨script, h⟩ | ⟨span, h⟩ | ⟨σ, h⟩ |
    ⟨-, σs, a, -, -, -, h⟩
  · exact h ▸ .nil
  · exact h ▸ wellNested_decodeSecret what bs
  · exact h ▸ wellNested_drawSecret script
  · exact h ▸ .span span .nil
  · exact h ▸ wellNested_verify σ
  · exact h ▸ wellNested_aggregateShares a σs

/-- The journal of a list of steps. -/
def run (s : Session) : List Session.Step → List Mark
  | [] => []
  | t :: ts => step s t ++ run (s.step t).1 ts

/-- Whatever the steps, every span is left that has been entered. -/
theorem wellNested_run (s : Session) (ts : List Session.Step) : WellNested (run s ts) := by
  induction ts generalizing s with
  | nil => exact .nil
  | cons t ts ih => exact (wellNested_step s t).append (ih (s.step t).1)

/-- No record depends on what was entered before the step, for all spans are left by then. -/
theorem records_run (logger : String) (f : Filter) (s : Session) (t : Session.Step)
    (ts : List Session.Step) :
    records logger f (run s (t :: ts)) =
      records logger f (step s t) ++ records logger f (run (s.step t).1 ts) :=
  recordsWithin_append (wellNested_step s t) _

/-! ## Warnings -/

/-- What a failure is entered as if a party is to blame for it. -/
def warningsFor : Error → List Event
  | .inconsistentCommitment i => [.foreignCommitment i]
  | .malformedInput .commitment => [.invalidCommonCommitment]
  | .invalidPartialSignature i => [.invalidShare i]
  | _ => []

/-- What an outcome is entered as. -/
def warnings {α : Type} : Except Error α → List Event
  | .error e => warningsFor e
  | .ok _ => []

theorem events_combine (σs : List Signature) :
    events (combine σs) = warnings (Signature.combine σs) := by
  rw [combine, events_within]
  rcases Signature.combine_cases σs with h | ⟨i, h⟩ | h | ⟨τ, h⟩ <;> rw [h] <;> rfl

/-- The aggregator enters what its third round fails for, and nothing else. -/
theorem events_aggregateShares (a : Aggregator.AwaitingShares) (σs : List Signature) :
    events (aggregateShares a σs) = warnings (a.aggregateSignatures σs) := by
  rw [aggregateShares, events_within]
  by_cases hl : σs.length = a.parties
  · rw [if_pos hl, Aggregator.AwaitingShares.aggregateSignatures,
      Aggregator.expectCount_eq_ok_iff.2 hl]
    cases a.walk 0 σs with
    | passed =>
      show events (combine σs) = warnings (Signature.combine σs >>= _)
      rw [events_combine]
      cases Signature.combine σs <;> rfl
    | refused i => rfl
    | outOfRange i => rfl
  · rw [if_neg hl, Aggregator.AwaitingShares.aggregateSignatures_of_length_ne hl]
    rfl

/-- Journals that warn of nothing. -/
def IsCalm (marks : List Mark) : Prop := ∀ e ∈ events marks, e.level ≠ .warn

theorem isCalm_nil : IsCalm [] := fun _ h => absurd h List.not_mem_nil

theorem isCalm_single (h : e.level ≠ .warn) : IsCalm [.event e] := by
  intro e' he
  rwa [List.mem_singleton.1 he]

theorem IsCalm.span (s : Span) (h : IsCalm marks) : IsCalm (within s marks) := by
  rwa [IsCalm, events_within]

theorem isCalm_decodeSecret (what : Encoded) (bs : Bytes) : IsCalm (decodeSecret what bs) := by
  unfold decodeSecret
  split
  · exact isCalm_single (by simp [Event.level])
  · exact isCalm_nil

theorem isCalm_drawSecret (script : Bytes) : IsCalm (drawSecret script) := by
  intro e he
  rw [Mark.event.inj (List.eq_of_mem_replicate (mem_events_iff.1 he))]
  simp [Event.level]

theorem isCalm_verify (σ : Signature) : IsCalm (verify σ) := by
  refine .span _ ?_
  split
  · exact isCalm_single (by simp [Event.level])
  · exact isCalm_nil

/-- **Warnings.** A step of a session that warns is refused for what it warns of. -/
theorem refused_of_warning (s : Session) (t : Session.Step) (he : e ∈ events (step s t))
    (hlevel : e.level = .warn) :
    ∃ err, (s.step t).2 = .error (.refused err) ∧ e ∈ warningsFor err := by
  have hcalm (h : IsCalm (step s t)) : False := h e he hlevel
  rcases step_cases s t with h | ⟨what, bs, h⟩ | ⟨script, h⟩ | ⟨span, h⟩ | ⟨σ, h⟩ |
    ⟨shares, σs, a, rfl, hσs, ha, h⟩
  · exact (hcalm (h ▸ isCalm_nil)).elim
  · exact (hcalm (h ▸ isCalm_decodeSecret what bs)).elim
  · exact (hcalm (h ▸ isCalm_drawSecret script)).elim
  · exact (hcalm (h ▸ isCalm_nil.span span)).elim
  · exact (hcalm (h ▸ isCalm_verify σ)).elim
  · rw [h, events_aggregateShares] at he
    cases hround : a.aggregateSignatures σs with
    | ok b =>
      rw [hround] at he
      cases he
    | error err =>
      rw [hround] at he
      refine ⟨err, ?_, he⟩
      simp only [Session.step, Session.aggregateSignatures, hσs, ha, hround]

/-! ## Failures without a mark -/

/-- A step that fails for something missing, or at another stage than it needs, leaves no mark. -/
theorem step_eq_nil {s : Session} {t : Session.Step} {f : Session.Failure}
    (h : (s.step t).2 = .error f) (hf : ∀ err, f ≠ .refused err) : step s t = [] := by
  cases t with
  | create id message key =>
    rcases s.create_cases id message key with ⟨err, hanswer⟩ | ⟨p, -, hanswer⟩
    · rw [Session.step, hanswer] at h
      exact absurd (Except.error.inj h).symm (hf err)
    · rw [Session.step, hanswer] at h
      cases h
  | generateNonce id script X =>
    simp only [step]
    split
    · next X p hX hp =>
      simp only [Session.step, Session.generateNonce, hX, hp] at h
      split at h
      · exact absurd (Except.error.inj h).symm (hf _)
      · cases h
    · rfl
  | partialSign id R =>
    simp only [step]
    split
    · next R p hR hp =>
      simp only [Session.step, Session.partialSign, hR, hp] at h
      cases h
    · rfl
  | accept id source =>
    simp only [step]
    split
    · next σ p hσ hp =>
      simp only [Session.step, Session.accept, hσ, hp] at h
      split at h
      · exact absurd (Except.error.inj h).symm (hf _)
      · cases h
    · rfl
  | showSignatory id => rfl
  | openAggregator parties message => rfl
  | aggregateKeys keys =>
    simp only [step]
    split
    · next Xs a hXs ha =>
      simp only [Session.step, Session.aggregateKeys, hXs, ha] at h
      split at h
      · exact absurd (Except.error.inj h).symm (hf _)
      · cases h
    · rfl
  | aggregateNonces nonces =>
    simp only [step]
    split
    · next Rs a hRs ha =>
      simp only [Session.step, Session.aggregateNonces, hRs, ha] at h
      split at h
      · exact absurd (Except.error.inj h).symm (hf _)
      · cases h
    · rfl
  | aggregateSignatures shares =>
    simp only [step]
    split
    · next σs a hσs ha =>
      simp only [Session.step, Session.aggregateSignatures, hσs, ha] at h
      split at h
      · exact absurd (Except.error.inj h).symm (hf _)
      · cases h
    · rfl
  | showAggregator => cases h

end JointSchnorr.Journal
