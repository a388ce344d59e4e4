import Mathlib
import JointSchnorr.Proofs.Session.Interleaving

/-!
# Independence of signatories

What a signatory does when it accepts a signature is seen by nobody else, and so are the steps of a
signatory that has issued its share. Sessions that differ in that only are `Alike`, and no step that
publishes something tells them apart (`Alike.step`). So a run can be cut down to its public steps,
and what is published in a run and answered by the aggregator is the same in all its interleavings
(`signatories_independent`).

Two steps of different signatories can be exchanged without a trace, with one exception: one step
publishes a share and the other one is to accept it. A signatory finds the share of another one only
after it was published (`share_found_after_publication`).
-/

namespace JointSchnorr

/-- Whether nothing more is published by the signatory in a seat. -/
def Occupant.isDone : Occupant → Bool
  | .spent => true
  | .party (.awaitingSignature _) => true
  | .party (.finalized _) => true
  | _ => false

namespace Session

variable {s s' : Session} {id : String} {t u : Step} {ts us : List Step}

/-! ## Sessions up to what signatories accept -/

/-- Two sessions differ at most in signatories that publish nothing more. -/
structure Alike (s s' : Session) : Prop where
  cells : ∀ c, (∀ id, c ≠ .occupant id) → AgreeAt s s' c
  occupants : ∀ id, (s.seats id).occupant = (s'.seats id).occupant ∨
    (s.seats id).occupant.isDone ∧ (s'.seats id).occupant.isDone

theorem Alike.refl (s : Session) : Alike s s :=
  ⟨fun c _ => .refl s c, fun _ => .inl rfl⟩

theorem Alike.symm (h : Alike s s') : Alike s' s :=
  ⟨fun c hc => (h.cells c hc).symm, fun id => (h.occupants id).imp Eq.symm And.symm⟩

theorem Alike.trans {s'' : Session} (h : Alike s s') (h' : Alike s' s'') : Alike s s'' := by
  refine ⟨fun c hc => (h.cells c hc).trans (h'.cells c hc), fun id => ?_⟩
  rcases h.occupants id with heq | ⟨hs, hs'⟩
  · rw [heq]
    exact h'.occupants id
  · rcases h'.occupants id with heq' | ⟨-, hs''⟩
    · exact .inr ⟨hs, heq' ▸ hs'⟩
    · exact .inr ⟨hs, hs''⟩

/-- A step in alike sessions that agree on its footprint. -/
theorem Alike.step_of_agree (h : Alike s s') (hf : ∀ c ∈ t.footprint, AgreeAt s s' c) :
    (s.step t).2 = (s'.step t).2 ∧ Alike (s.step t).1 (s'.step t).1 := by
  obtain ⟨hanswer, hwrites⟩ := step_local hf
  refine ⟨hanswer, fun c hc => ?_, fun id => ?_⟩
  · by_cases hw : c ∈ t.writes
    · exact hwrites c hw
    · exact (agreeAt_step s hw).trans ((h.cells c hc).trans (agreeAt_step s' hw).symm)
  · by_cases hw : .occupant id ∈ t.writes
    · exact .inl (hwrites _ hw)
    · have hs : ((s.step t).1.seats id).occupant = (s.seats id).occupant := agreeAt_step s hw
      have hs' : ((s'.step t).1.seats id).occupant = (s'.seats id).occupant := agreeAt_step s' hw
      rw [hs, hs']
      exact h.occupants id

/-- A public step of a signatory in alike sessions that agree on who sits in its seat. -/
theorem Alike.step_of_occupant_eq (h : Alike s s') (ht : t.isPublic) (hid : t.subject = some id)
    (ho : (s.seats id).occupant = (s'.seats id).occupant) :
    (s.step t).2 = (s'.step t).2 ∧ Alike (s.step t).1 (s'.step t).1 := by
  refine h.step_of_agree fun c hc => ?_
  by_cases hname : c = .occupant id
  · rw [hname]
    exact ho
  · refine h.cells c fun other => ?_
    rintro rfl
    rcases seat_of_mem_footprint hid hc rfl with rfl | ⟨href, -⟩
    · exact hname rfl
    · exact absurd href (by simp [Step.reference?_of_isPublic ht])

theorem Alike.setSeat (h : Alike s s') {seat seat' : Seat} (hk : seat.key = seat'.key)
    (hn : seat.nonce = seat'.nonce) (hσ : seat.share = seat'.share)
    (ho : seat.occupant = seat'.occupant) :
    Alike (s.setSeat id seat) (s'.setSeat id seat') := by
  refine ⟨fun c hc => ?_, fun name => ?_⟩
  · have hcell := h.cells c hc
    cases c with
    | occupant name => exact absurd rfl (hc name)
    | key name =>
      simp only [AgreeAt, Session.setSeat] at hcell ⊢
      split
      · exact hk
      · exact hcell
    | nonce name =>
      simp only [AgreeAt, Session.setSeat] at hcell ⊢
      split
      · exact hn
      · exact hcell
    | share name =>
      simp only [AgreeAt, Session.setSeat] at hcell ⊢
      split
      · exact hσ
      · exact hcell
    | _ => exact hcell
  · simp only [Session.setSeat]
    split
    · exact .inl ho
    · exact h.occupants name

theorem Alike.create (h : Alike s s') (m : Bytes) (key : KeySource) :
    (s.create id m key).2 = (s'.create id m key).2 ∧
      Alike (s.create id m key).1 (s'.create id m key).1 := by
  unfold Session.create
  cases newSignatory m key with
  | error e => exact ⟨rfl, h⟩
  | ok p =>
    exact ⟨rfl, h.setSeat rfl (h.cells (.nonce id) (by simp)) (h.cells (.share id) (by simp)) rfl⟩

/-- A signatory that publishes nothing more is at no stage to draw a nonce. -/
theorem generateNonce_of_isDone (h : (s.seats id).occupant.isDone) (script : Bytes)
    (given : Option Bytes) :
    s.generateNonce id script given =
      (s, (resolveAggregate s.aggregateKey given).bind fun _ => .error .unavailable) := by
  unfold generateNonce
  cases resolveAggregate s.aggregateKey given with
  | error f => rfl
  | ok X =>
    dsimp only
    split
    · next ho => exact absurd h (by simp [ho, Occupant.isDone])
    · next p ho => exact absurd h (by simp [ho, Occupant.isDone])
    · rfl

/-- A signatory that publishes nothing more is at no stage to compute a share. -/
theorem partialSign_of_isDone (h : (s.seats id).occupant.isDone) (given : Option Bytes) :
    s.partialSign id given =
      (s, (resolveAggregate s.aggregateNonce given).bind fun _ => .error .unavailable) := by
  unfold partialSign
  cases resolveAggregate s.aggregateNonce given with
  | error f => rfl
  | ok R =>
    dsimp only
    split
    · next ho => exact absurd h (by simp [ho, Occupant.isDone])
    · next p ho => exact absurd h (by simp [ho, Occupant.isDone])
    · rfl

/-- A public step does not tell alike sessions apart. -/
theorem Alike.step (h : Alike s s') (ht : t.isPublic) :
    (s.step t).2 = (s'.step t).2 ∧ Alike (s.step t).1 (s'.step t).1 := by
  cases t with
  | create name m key => exact h.create m key
  | generateNonce name script given =>
    rcases h.occupants name with ho | ⟨hs, hs'⟩
    · exact h.step_of_occupant_eq ht rfl ho
    · have hlast : s.aggregateKey = s'.aggregateKey := h.cells .aggregateKey (by simp)
      simp only [Session.step]
      rw [generateNonce_of_isDone hs, generateNonce_of_isDone hs', hlast]
      exact ⟨rfl, h⟩
  | partialSign name given =>
    rcases h.occupants name with ho | ⟨hs, hs'⟩
    · exact h.step_of_occupant_eq ht rfl ho
    · have hlast : s.aggregateNonce = s'.aggregateNonce := h.cells .aggregateNonce (by simp)
      simp only [Session.step]
      rw [partialSign_of_isDone hs, partialSign_of_isDone hs', hlast]
      exact ⟨rfl, h⟩
  | accept name given => exact absurd ht (by simp [Step.isPublic])
  | showSignatory name => exact absurd ht (by simp [Step.isPublic])
  | _ =>
    refine h.step_of_agree fun c hc => h.cells c fun name => ?_
    rintro rfl
    simp [Step.footprint, Step.reads, Step.writes] at hc

theorem alike_step_of_not_isPublic (s : Session) (ht : ¬ t.isPublic) : Alike (s.step t).1 s := by
  cases t with
  | accept name given =>
    refine ⟨fun c hc => agreeAt_step s (by simp [Step.writes, hc name]), fun other => ?_⟩
    by_cases hother : other = name
    · subst hother
      rcases s.accept_cases other given with
        ⟨f, -, hs⟩ | ⟨σ, p, -, hp, ⟨-, hs⟩ | ⟨-, hs⟩⟩
      · exact .inl (by rw [Session.step, hs])
      · exact .inr (by simp [Session.step, hs, hp, spend, Occupant.isDone])
      · exact .inr (by simp [Session.step, hs, hp, Occupant.isDone])
    · exact .inl (agreeAt_step s (c := .occupant other) (by simp [Step.writes, hother]))
  | showSignatory name => exact .refl s
  | _ => exact absurd rfl ht

/-- A run without the steps that publish nothing leads to an alike session. -/
theorem Alike.run_filter (h : Alike s s') (ts : List Step) :
    Alike (s.run ts).1 (s'.run (ts.filter Step.isPublic)).1 ∧
      ∀ p : Step → Bool, s.answersTo (fun t => t.isPublic && p t) ts =
        s'.answersTo p (ts.filter Step.isPublic) := by
  -- the sessions drift apart at each step that is left out, but stay alike
  induction ts generalizing s s' with
  | nil => exact ⟨h, fun p => rfl⟩
  | cons t ts ih =>
    by_cases ht : t.isPublic
    · obtain ⟨hanswer, hstep⟩ := h.step ht
      obtain ⟨hrun, hanswers⟩ := ih hstep
      rw [List.filter_cons_of_pos ht]
      refine ⟨hrun, fun p => ?_⟩
      simp only [answersTo, hanswers, hanswer, ht, Bool.true_and]
    · obtain ⟨hrun, hanswers⟩ := ih ((alike_step_of_not_isPublic s ht).trans h)
      rw [List.filter_cons_of_neg ht]
      refine ⟨hrun, fun p => ?_⟩
      rw [answersTo, hanswers p, if_neg (by simp [ht])]

theorem Interleaved.filter (h : Interleaved ts us) (p : Step → Bool) :
    Interleaved (ts.filter p) (us.filter p) := by
  intro strand
  rw [List.filter_comm, h strand, List.filter_comm]

/-- What is published in a run and answered to the steps on a strand depends on the order of the
steps on each strand only. -/
theorem Interleaved.alike_run (s : Session) (h : Interleaved ts us) :
    Alike (s.run ts).1 (s.run us).1 ∧ ∀ strand,
      s.answersTo (fun t => t.isPublic && t.on strand) ts =
        s.answersTo (fun t => t.isPublic && t.on strand) us := by
  obtain ⟨hts, hanswersts⟩ := (Alike.refl s).run_filter ts
  obtain ⟨hus, hanswersus⟩ := (Alike.refl s).run_filter us
  have hsame : SameRun s (ts.filter Step.isPublic) (us.filter Step.isPublic) :=
    (h.filter Step.isPublic).sameRun s (fun t ht => (List.mem_filter.1 ht).2)
      fun u hu => (List.mem_filter.1 hu).2
  refine ⟨hts.trans (hsame.session_eq ▸ hus.symm), fun strand => ?_⟩
  rw [hanswersts, hanswersus, hsame.answers_eq strand]

/-! ## Signatories in any order -/

/-- **Signatories are independent.** From any session, two steps of different signatories can be
taken in either order, with the same answers and the same session after them, whether they succeed
or fail, unless one of them is to accept the share that the other one publishes. And in any two
interleavings of a run, which keep each signatory's own order, the aggregator's and the barriers of
the rounds, the same keys, nonces and shares are published and the aggregator forms the same
aggregates and the same signature, with the same answer to every step that can publish something or
is the aggregator's. -/
theorem signatories_independent :
    (∀ (s : Session) (t u : Step) (id other : String),
      t.subject = some id → u.subject = some other → id ≠ other →
      ¬ s.AcceptsShareOf t u → ¬ s.AcceptsShareOf u t →
      s.run [u, t] = ((s.run [t, u]).1, (s.run [t, u]).2.reverse)) ∧
    ∀ (s : Session) (ts us : List Step), Interleaved ts us →
      Alike (s.run ts).1 (s.run us).1 ∧ ∀ strand,
        s.answersTo (fun t => t.isPublic && t.on strand) ts =
          s.answersTo (fun t => t.isPublic && t.on strand) us := by
  constructor
  · intro s t u id other ht hu hne htu hut
    exact (apart_of_subject_ne ht hu hne htu hut).run_pair_comm
  · intro s ts us h
    exact h.alike_run s

/-- Two signatories sign jointly, "a" always ahead of "b". -/
def jointSteps : List Step :=
  [.openAggregator 2 [1],
    .create "a" [1] (.drawn (List.replicate 64 1)),
    .create "b" [1] (.drawn (List.replicate 64 2)),
    .aggregateKeys [.published "a", .published "b"],
    .generateNonce "a" (List.replicate 64 3) none,
    .generateNonce "b" (List.replicate 64 4) none,
    .aggregateNonces [.published "a", .published "b"],
    .partialSign "a" none,
    .partialSign "b" none,
    .aggregateSignatures [.published "a", .published "b"],
    .accept "a" none,
    .accept "b" none]

/-- The same steps, in which "b" is ahead and the aggregator is opened late. -/
def interleavedSteps : List Step :=
  [.create "b" [1] (.drawn (List.replicate 64 2)),
    .create "a" [1] (.drawn (List.replicate 64 1)),
    .openAggregator 2 [1],
    .aggregateKeys [.published "a", .published "b"],
    .generateNonce "b" (List.replicate 64 4) none,
    .generateNonce "a" (List.replicate 64 3) none,
    .aggregateNonces [.published "a", .published "b"],
    .partialSign "b" none,
    .partialSign "a" none,
    .aggregateSignatures [.published "a", .published "b"],
    .accept "b" none,
    .accept "a" none]

theorem interleaved_jointSteps : Interleaved jointSteps interleavedSteps := by
  refine interleaved_of_barriers (fun id => ?_) rfl (by decide) (by decide)
  by_cases ha : "a" = id
  · subst ha
    rfl
  · by_cases hb : "b" = id
    · subst hb
      rfl
    · simp [jointSteps, interleavedSteps, Step.on, Step.subject, ha, hb]

/-- Whether each of some answers is a failure, and which one. -/
def failures (answers : List (Except Failure Answer)) : List (Option Failure) :=
  answers.map fun
    | .ok _ => none
    | .error f => some f

/-- Two signatories that were given the base point as both aggregates, "b" one step ahead. -/
def crossedSteps : List Step :=
  [.create "a" [1] (.drawn (List.replicate 64 1)),
    .create "b" [1] (.drawn (List.replicate 64 2)),
    .generateNonce "a" (List.replicate 64 3) (some Point.base.encode.toList),
    .generateNonce "b" (List.replicate 64 4) (some Point.base.encode.toList),
    .partialSign "b" (some Point.base.encode.toList)]

/-- The signatory "b" misses the share of "a" before and after "a" is created anew, and before and
after "a" fails to sign for want of an aggregate. And the two parties publish the same in both of
their runs. -/
theorem signatories_independent_pair :
    let s := (empty.run crossedSteps).1
    let t := Step.create "a" [1] (.drawn (List.replicate 64 1))
    let t' := Step.partialSign "a" none
    let u := Step.accept "b" (some (.published "a"))
    s.run [u, t] = ((s.run [t, u]).1, (s.run [t, u]).2.reverse) ∧
    failures (s.run [t, u]).2 = [none, some (.missing .reference)] ∧
    s.run [u, t'] = ((s.run [t', u]).1, (s.run [t', u]).2.reverse) ∧
    failures (s.run [t', u]).2 = [some (.missing .aggregate), some (.missing .reference)] ∧
    Interleaved jointSteps interleavedSteps ∧
    Alike (empty.run jointSteps).1 (empty.run interleavedSteps).1 ∧
    ∀ strand, empty.answersTo (fun t => t.isPublic && t.on strand) jointSteps =
      empty.answersTo (fun t => t.isPublic && t.on strand) interleavedSteps := by
  intro s t t' u
  have hcreates : ¬ s.AcceptsShareOf u t := by
    intro ⟨id, given, σ, _, hsign, _⟩
    simp [t] at hsign
  have hfails : ¬ s.AcceptsShareOf u t' := by
    intro ⟨id, given, σ, _, _, hσ⟩
    have hnone : s.aggregateNonce = none := by decide +kernel
    have hanswer : (s.step t').2 = .error (.missing .aggregate) := by
      show (s.partialSign "a" none).2 = _
      rw [partialSign, hnone]
      rfl
    rw [hanswer] at hσ
    cases hσ
  have hrefers : ∀ v, v.reference? = none → ¬ s.AcceptsShareOf v u := by
    intro v hv ⟨id, given, σ, href, _, _⟩
    rw [hv] at href
    cases href
  have hpair := signatories_independent.1 s t u "a" "b" rfl rfl (by decide) (hrefers t rfl) hcreates
  have hpair' :=
    signatories_independent.1 s t' u "a" "b" rfl rfl (by decide) (hrefers t' rfl) hfails
  have hruns := signatories_independent.2 empty jointSteps interleavedSteps interleaved_jointSteps
  exact ⟨hpair, by decide +kernel, hpair', by decide +kernel, interleaved_jointSteps, hruns⟩

/-- The signatory "b" refuses the share of "a" once it was published, and misses it before. -/
theorem share_found_after_publication :
    let s := (empty.run crossedSteps).1
    let t := Step.partialSign "a" (some Point.base.encode.toList)
    let u := Step.accept "b" (some (.published "a"))
    t.subject = some "a" ∧ u.subject = some "b" ∧
    failures (s.run [t, u]).2 = [none, some (.refused .invalidSignature)] ∧
    failures (s.run [u, t]).2 = [some (.missing .reference), none] ∧
    s.run [u, t] ≠ ((s.run [t, u]).1, (s.run [t, u]).2.reverse) := by
  intro s t u
  have hafter : failures (s.run [t, u]).2 = [none, some (.refused .invalidSignature)] := by
    decide +kernel
  have hbefore : failures (s.run [u, t]).2 = [some (.missing .reference), none] := by
    decide +kernel
  refine ⟨rfl, rfl, hafter, hbefore, fun h => ?_⟩
  have heq : failures (s.run [u, t]).2 = (failures (s.run [t, u]).2).reverse := by
    rw [h, failures, failures, List.map_reverse]
  rw [hbefore, hafter] at heq
  exact absurd heq (by decide)

end Session

end JointSchnorr
