import Mathlib
import JointSchnorr.Proofs.Session.Footprints

/-!
# Interleavings

Signatories take their steps independently of each other: only the rounds of the aggregator hold
them together. A run falls into strands, one for each signatory, one for the aggregator and one for
each barrier, where a signatory meets a round: a round takes what is published before it, and a step
that is given no aggregate takes the one of the last round. Runs with the same strands are
interleavings of each other (`Interleaved`); those of the protocol, in which every round has all its
items before it, are such as soon as each party's own order is kept (`interleaved_of_barriers`).

Steps without a common strand are independent (`independent_of_strands`), and in an interleaving the
first step of a run shares no strand with what comes before it (`exists_split`). So it can be moved
to the front, and by induction on the run all interleavings of public steps are the same run
(`Interleaved.sameRun`).
-/

namespace JointSchnorr.Session

variable {s : Session} {id : String} {t u : Step} {ts us : List Step}

/-! ## Strands -/

/-- Where the signatories and the aggregator wait for each other: a round. -/
inductive Barrier where
  | keys
  | nonces
  | shares
deriving DecidableEq

/-- What must not change its order in a run. -/
inductive Strand where
  /-- The steps of a signatory. -/
  | signatory (id : String)
  /-- The steps of the aggregator. -/
  | aggregator
  /-- A round and the steps of a signatory that must not cross it. -/
  | barrier (b : Barrier) (id : String)
deriving DecidableEq

/-- Whether a step belongs to the aggregator. -/
def Step.isAggregators : Step → Bool
  | .openAggregator _ _ => true
  | .aggregateKeys _ => true
  | .aggregateNonces _ => true
  | .aggregateSignatures _ => true
  | .showAggregator => true
  | _ => false

/-- Whether a step is the round, publishes from the seat `id` what the round takes, or uses in this
seat the aggregate that the round has formed last. -/
def Step.meets (id : String) : Barrier → Step → Bool
  | .keys, .create name _ _ => name = id
  | .keys, .generateNonce name _ given => given.isNone && name = id
  | .keys, .aggregateKeys _ => true
  | .nonces, .generateNonce name _ _ => name = id
  | .nonces, .partialSign name given => given.isNone && name = id
  | .nonces, .aggregateNonces _ => true
  | .shares, .partialSign name _ => name = id
  | .shares, .aggregateSignatures _ => true
  | _, _ => false

/-- Whether a step is on a strand. -/
def Step.on : Strand → Step → Bool
  | .signatory id, t => t.subject = some id
  | .aggregator, t => t.isAggregators
  | .barrier b id, t => t.meets id b

/-- Two lists have the same steps in the same order on each strand: each signatory keeps its own
order, the aggregator too, and no step changes the side of a round that it meets. -/
def Interleaved (ts us : List Step) : Prop :=
  ∀ strand, ts.filter (·.on strand) = us.filter (·.on strand)

/-- Whether the first step belongs before the second one: what a signatory publishes comes before
the round that takes it, and a step that uses the last aggregate after the round that forms it. -/
def Step.belongsBefore : Step → Step → Bool
  | .create _ _ _, .aggregateKeys _ => true
  | .aggregateKeys _, .generateNonce _ _ given => given.isNone
  | .generateNonce _ _ _, .aggregateNonces _ => true
  | .aggregateNonces _, .partialSign _ given => given.isNone
  | .partialSign _ _, .aggregateSignatures _ => true
  | _, _ => false

/-- All keys come before the aggregate key and its uses after it, and so on for the nonces and the
shares. -/
def KeepsBarriers (ts : List Step) : Prop :=
  ts.Pairwise fun t u => ¬ u.belongsBefore t

instance (ts : List Step) : Decidable (KeepsBarriers ts) :=
  inferInstanceAs (Decidable (ts.Pairwise fun t u => ¬ u.belongsBefore t))

theorem mem_iff_of_filter_eq {α : Type} {p : α → Bool} {xs ys : List α}
    (hp : xs.filter p = ys.filter p) (hn : xs.filter (!p ·) = ys.filter (!p ·)) (a : α) :
    a ∈ xs ↔ a ∈ ys := by
  by_cases ha : p a
  · simpa [ha] using congrArg (a ∈ ·) hp
  · simpa [ha] using congrArg (a ∈ ·) hn

/-- A list is determined by its two parts if every two items of different parts have their order. -/
theorem eq_of_filter_eq {α : Type} {p : α → Bool} {r : α → α → Prop} {xs ys : List α}
    (hp : xs.filter p = ys.filter p) (hn : xs.filter (!p ·) = ys.filter (!p ·))
    (hxs : xs.Pairwise fun a b => ¬ r b a) (hys : ys.Pairwise fun a b => ¬ r b a)
    (h : ∀ a ∈ xs, ∀ b ∈ xs, p a → ¬ p b → r a b ∨ r b a) : xs = ys := by
  induction xs generalizing ys with
  | nil =>
    exact (List.eq_nil_iff_forall_not_mem.2 fun a ha =>
      List.not_mem_nil ((mem_iff_of_filter_eq hp hn a).2 ha)).symm
  | cons x xs ih =>
    have hmem := mem_iff_of_filter_eq hp hn
    cases ys with
    | nil => exact absurd ((hmem x).1 List.mem_cons_self) List.not_mem_nil
    | cons y ys =>
      rw [List.pairwise_cons] at hxs hys
      by_cases hxy : x = y
      · subst hxy
        have hp' : xs.filter p = ys.filter p := by
          by_cases hpx : p x <;> simpa [hpx] using hp
        have hn' : xs.filter (!p ·) = ys.filter (!p ·) := by
          by_cases hpx : p x <;> simpa [hpx] using hn
        rw [ih hp' hn' hxs.2 hys.2 fun a ha b hb =>
          h a (List.mem_cons_of_mem x ha) b (List.mem_cons_of_mem x hb)]
      · have hx : x ∈ ys := List.mem_of_ne_of_mem hxy ((hmem x).1 List.mem_cons_self)
        have hy : y ∈ xs := List.mem_of_ne_of_mem (Ne.symm hxy) ((hmem y).2 List.mem_cons_self)
        by_cases hpx : p x <;> by_cases hpy : p y
        · simp [hpx, hpy, hxy] at hp
        · rcases h x List.mem_cons_self y (List.mem_cons_of_mem x hy) hpx hpy with hr | hr
          · exact absurd hr (hys.1 x hx)
          · exact absurd hr (hxs.1 y hy)
        · rcases h y (List.mem_cons_of_mem x hy) x List.mem_cons_self hpy hpx with hr | hr
          · exact absurd hr (hxs.1 y hy)
          · exact absurd hr (hys.1 x hx)
        · simp [hpx, hpy, hxy] at hn

/-- A round and a step that meets it have their order. -/
theorem Step.belongsBefore_or {b : Barrier} (ht : t.meets id b) (hu : u.meets id b)
    (hta : t.isAggregators) (hua : ¬ u.isAggregators) : t.belongsBefore u ∨ u.belongsBefore t := by
  cases b <;> cases u <;> simp [meets] at hu <;> cases t <;>
    simp_all [meets, isAggregators, belongsBefore]

/-- On a barrier, the steps that are not the aggregator's are those of one signatory. -/
theorem Step.on_signatory_of_meets {b : Barrier} (ht : t.meets id b)
    (hta : ¬ t.isAggregators) : t.on (.signatory id) := by
  cases b <;> cases t <;> simp_all [meets, isAggregators, on, subject]

/-- In runs that keep the barriers, nothing but the order of each party's own steps counts. -/
theorem interleaved_of_barriers
    (hown : ∀ id, ts.filter (·.on (.signatory id)) = us.filter (·.on (.signatory id)))
    (hrounds : ts.filter (·.on .aggregator) = us.filter (·.on .aggregator))
    (hts : KeepsBarriers ts) (hus : KeepsBarriers us) : Interleaved ts us := by
  intro strand
  cases strand with
  | signatory id => exact hown id
  | aggregator => exact hrounds
  | barrier b id =>
    refine eq_of_filter_eq (p := Step.isAggregators) (r := fun t u => t.belongsBefore u) ?_ ?_
      (hts.filter _) (hus.filter _) ?_
    · have hrounds' : ts.filter Step.isAggregators = us.filter Step.isAggregators := hrounds
      rw [List.filter_comm, hrounds', List.filter_comm]
    · have hsplit : ∀ vs : List Step,
          (vs.filter (·.on (.barrier b id))).filter (!·.isAggregators) =
            ((vs.filter (·.on (.signatory id))).filter (·.on (.barrier b id))).filter
              (!·.isAggregators) := by
        intro vs
        simp only [List.filter_filter]
        refine List.filter_congr fun t _ => ?_
        by_cases hta : t.isAggregators
        · simp [hta]
        · by_cases hon : t.on (.barrier b id)
          · simp [hta, hon, Step.on_signatory_of_meets hon hta]
          · simp [hon]
      rw [hsplit ts, hsplit us, hown id]
    · intro t ht u hu hta hua
      exact Step.belongsBefore_or (List.mem_filter.1 ht).2 (List.mem_filter.1 hu).2 hta hua

/-- Whether a step is the aggregator's or can publish a key, a nonce or a share. -/
def Step.isPublic : Step → Bool
  | .accept _ _ => false
  | .showSignatory _ => false
  | _ => true

theorem Step.isAggregators_or_subject (h : t.isPublic) :
    t.isAggregators ∨ ∃ id, t.subject = some id := by
  cases t with
  | create name m key => exact .inr ⟨name, rfl⟩
  | generateNonce name script given => exact .inr ⟨name, rfl⟩
  | partialSign name given => exact .inr ⟨name, rfl⟩
  | accept name given => exact absurd h (by simp [isPublic])
  | showSignatory name => exact absurd h (by simp [isPublic])
  | _ => exact .inl rfl

theorem Step.exists_strand (h : t.isPublic) : ∃ strand, t.on strand := by
  rcases isAggregators_or_subject h with ha | ⟨id, hid⟩
  · exact ⟨.aggregator, ha⟩
  · exact ⟨.signatory id, by simp [on, hid]⟩

theorem Step.reference?_of_isPublic (h : t.isPublic) : t.reference? = none := by
  cases t with
  | accept name given => exact absurd h (by simp [isPublic])
  | _ => rfl

/-- A signatory's step and a step of the aggregator are independent unless one is a round that the
other one meets. -/
theorem independent_of_barriers (ht : t.subject = some id) (hp : t.isPublic)
    (hu : u.isAggregators) (h : ∀ b, ¬ (t.meets id b ∧ u.meets id b)) :
    t.Independent u := by
  cases t with
  | create name m key =>
    obtain rfl := Option.some.inj ht
    cases u with
    | aggregateKeys keys => exact absurd ⟨by simp [Step.meets], rfl⟩ (h .keys)
    | _ =>
      simp [Step.Independent, Step.footprint, Step.reads, Step.writes, Step.isAggregators] at hu ⊢
  | generateNonce name script given =>
    obtain rfl := Option.some.inj ht
    cases u with
    | aggregateKeys keys =>
      have hgiven : ¬ given.isNone := fun hnone => h .keys ⟨by simp [Step.meets, hnone], rfl⟩
      simp [Step.Independent, Step.footprint, Step.reads, Step.writes, hgiven]
    | aggregateNonces nonces => exact absurd ⟨by simp [Step.meets], rfl⟩ (h .nonces)
    | _ =>
      cases given <;>
        simp [Step.Independent, Step.footprint, Step.reads, Step.writes, Step.isAggregators] at hu ⊢
  | partialSign name given =>
    obtain rfl := Option.some.inj ht
    cases u with
    | aggregateNonces nonces =>
      have hgiven : ¬ given.isNone := fun hnone => h .nonces ⟨by simp [Step.meets, hnone], rfl⟩
      simp [Step.Independent, Step.footprint, Step.reads, Step.writes, hgiven]
    | aggregateSignatures shares => exact absurd ⟨by simp [Step.meets], rfl⟩ (h .shares)
    | _ =>
      cases given <;>
        simp [Step.Independent, Step.footprint, Step.reads, Step.writes, Step.isAggregators] at hu ⊢
  | accept name given => exact absurd hp (by simp [Step.isPublic])
  | _ => exact absurd ht (by simp [Step.subject])

/-- Steps without a common strand are independent. -/
theorem independent_of_strands (ht : t.isPublic) (hu : u.isPublic)
    (h : ∀ strand, ¬ (t.on strand ∧ u.on strand)) : t.Independent u := by
  rcases Step.isAggregators_or_subject ht with hta | ⟨id, hti⟩ <;>
    rcases Step.isAggregators_or_subject hu with hua | ⟨other, huo⟩
  · exact absurd ⟨hta, hua⟩ (h .aggregator)
  · exact (independent_of_barriers huo hu hta fun b hm => h (.barrier b other) hm.symm).symm
  · exact independent_of_barriers hti ht hua fun b => h (.barrier b id)
  · have hne : id ≠ other := by
      rintro rfl
      exact h (.signatory id) ⟨by simp [Step.on, hti], by simp [Step.on, huo]⟩
    exact independent_of_subject_ne hti huo hne (by simp [Step.reference?_of_isPublic ht])
      (by simp [Step.reference?_of_isPublic hu])

/-- The first step of a run shares no strand with what comes before it in an interleaving. -/
theorem Interleaved.exists_split (ht : t.isPublic) (h : Interleaved (t :: ts) us) :
    ∃ before after, us = before ++ t :: after ∧
      (∀ u ∈ before, ∀ strand, ¬ (u.on strand ∧ t.on strand)) ∧
      Interleaved ts (before ++ after) := by
  obtain ⟨own, hown⟩ := Step.exists_strand ht
  have hfirst : us.filter (·.on own) = t :: ts.filter (·.on own) := by
    rw [← h own, List.filter_cons_of_pos hown]
  obtain ⟨before, after, rfl, hbefore, -, -⟩ := List.filter_eq_cons_iff.1 hfirst
  -- otherwise the first common step would be equal to `t`, but `t` is on the strand `own`
  have hnone : ∀ strand, t.on strand → before.filter (·.on strand) = [] := by
    intro strand hon
    have heq := h strand
    rw [List.filter_cons_of_pos hon, List.filter_append] at heq
    cases hb : before.filter (·.on strand) with
    | nil => rfl
    | cons u rest =>
      rw [hb] at heq
      obtain rfl := List.head_eq_of_cons_eq heq
      have hmem : t ∈ before := List.mem_of_mem_filter (hb ▸ List.mem_cons_self)
      exact absurd hown (hbefore t hmem)
  refine ⟨before, after, rfl, fun u hu strand ⟨hon, hont⟩ => ?_, fun strand => ?_⟩
  · exact absurd hon (List.filter_eq_nil_iff.1 (hnone strand hont) u hu)
  · have heq := h strand
    rw [List.filter_append] at heq ⊢
    by_cases hon : t.on strand
    · rw [hnone strand hon, List.filter_cons_of_pos hon, List.filter_cons_of_pos hon] at heq
      rw [hnone strand hon]
      exact List.tail_eq_of_cons_eq heq
    · rwa [List.filter_cons_of_neg hon, List.filter_cons_of_neg hon] at heq

/-! ## Runs on the strands -/

/-- The answers to some of the steps of a run. -/
def answersTo (s : Session) (p : Step → Bool) : List Step → List (Except Failure Answer)
  | [] => []
  | t :: ts =>
    let rest := (s.step t).1.answersTo p ts
    if p t then (s.step t).2 :: rest else rest

/-- Two runs lead to the same session and answer the same on every strand. -/
structure SameRun (s : Session) (ts us : List Step) : Prop where
  session_eq : (s.run ts).1 = (s.run us).1
  answers_eq : ∀ strand, s.answersTo (·.on strand) ts = s.answersTo (·.on strand) us

theorem SameRun.cons (h : SameRun (s.step t).1 ts us) : SameRun s (t :: ts) (t :: us) :=
  ⟨h.session_eq, fun strand => by rw [answersTo, answersTo, h.answers_eq strand]⟩

theorem SameRun.trans {vs : List Step} (h : SameRun s ts us) (h' : SameRun s us vs) :
    SameRun s ts vs :=
  ⟨h.session_eq.trans h'.session_eq, fun strand =>
    (h.answers_eq strand).trans (h'.answers_eq strand)⟩

/-- Adjacent steps without a common strand can be exchanged. -/
theorem sameRun_swap (s : Session) (ts : List Step) (ht : t.isPublic) (hu : u.isPublic)
    (h : ∀ strand, ¬ (t.on strand ∧ u.on strand)) :
    SameRun s (t :: u :: ts) (u :: t :: ts) := by
  have hapart := (independent_of_strands ht hu h).apart s
  have hsession := hapart.step_comm
  have hanswer : ((s.step u).1.step t).2 = (s.step t).2 := hapart.step_after.1
  have hanswer' : ((s.step t).1.step u).2 = (s.step u).2 := hapart.symm.step_after.1
  refine ⟨congrArg (fun s' => (run s' ts).1) hsession, fun strand => ?_⟩
  simp only [answersTo]
  rw [hsession, hanswer, hanswer']
  by_cases hont : t.on strand
  · rw [if_neg fun honu => h strand ⟨hont, honu⟩, if_neg fun honu => h strand ⟨hont, honu⟩]
  · rw [if_neg hont, if_neg hont]

theorem sameRun_move (s : Session) {before : List Step} (after : List Step) (ht : t.isPublic)
    (hp : ∀ u ∈ before, u.isPublic)
    (h : ∀ u ∈ before, ∀ strand, ¬ (u.on strand ∧ t.on strand)) :
    SameRun s (before ++ t :: after) (t :: (before ++ after)) := by
  -- the session varies: the last step before `t` is exchanged with it first
  induction before generalizing s with
  | nil => exact ⟨rfl, fun strand => rfl⟩
  | cons u before ih =>
    have hrest : SameRun s (u :: (before ++ t :: after)) (u :: t :: (before ++ after)) :=
      (ih (s.step u).1 (fun v hv => hp v (List.mem_cons_of_mem u hv))
        fun v hv => h v (List.mem_cons_of_mem u hv)).cons
    exact hrest.trans (sameRun_swap s _ (hp u List.mem_cons_self) ht (h u List.mem_cons_self))

/-- Interleavings of public steps lead to the same session and answer the same on every strand. -/
theorem Interleaved.sameRun (s : Session) (h : Interleaved ts us) (hts : ∀ t ∈ ts, t.isPublic)
    (hus : ∀ u ∈ us, u.isPublic) : SameRun s ts us := by
  -- the first step of `ts` is moved to the front of `us`, what is left are interleavings again
  induction ts generalizing s us with
  | nil =>
    have hnil : us = [] := List.eq_nil_iff_forall_not_mem.2 fun u hu => by
      obtain ⟨strand, hon⟩ := Step.exists_strand (hus u hu)
      exact List.filter_eq_nil_iff.1 (h strand).symm u hu hon
    rw [hnil]
    exact ⟨rfl, fun strand => rfl⟩
  | cons t ts ih =>
    obtain ⟨ht, hts⟩ := List.forall_mem_cons.1 hts
    obtain ⟨before, after, rfl, hbefore, hrest⟩ := h.exists_split ht
    obtain ⟨hpbefore, hpafter⟩ := List.forall_mem_append.1 hus
    have hpafter := (List.forall_mem_cons.1 hpafter).2
    have hfirst : SameRun s (t :: ts) (t :: (before ++ after)) :=
      (ih (s.step t).1 hrest hts (List.forall_mem_append.2 ⟨hpbefore, hpafter⟩)).cons
    have hmove := sameRun_move s after ht hpbefore hbefore
    exact hfirst.trans ⟨hmove.session_eq.symm, fun strand => (hmove.answers_eq strand).symm⟩

end JointSchnorr.Session
