import Mathlib
import JointSchnorr.Journal.Record
import JointSchnorr.Proofs.Journal.Filter

/-!
# What is recorded of a journal

In a well nested journal every span that is entered is left again. Its records are those of its
parts one after the other (`recordsWithin_append`), and a span that passes stands around the records
of what happens in it (`recordsWithin_within_of_passes`). One that does not pass leaves them as they
would be without it (`recordsWithin_within_of_not_passes`). All records are of what has been
entered, at levels that some directive of the filter reaches (`recorded_of_mem_records`), and show
no values but counts of parties and indices of shares (`fields_of_mem_records`). Raising the filter
from the level of spans on adds records between those there were and takes none away
(`records_everywhere_eq_filter`).
-/

namespace JointSchnorr.Journal

/-- Journals in which each span that is entered is left, behind all spans that are entered in it. -/
inductive WellNested : List Mark → Prop where
  | nil : WellNested []
  | event (e : Event) {marks : List Mark} (h : WellNested marks) : WellNested (.event e :: marks)
  | within (s : Span) {inner marks : List Mark} (hinner : WellNested inner)
      (h : WellNested marks) : WellNested (within s inner ++ marks)

namespace WellNested

variable {marks rest : List Mark}

theorem append (h : WellNested marks) (hrest : WellNested rest) : WellNested (marks ++ rest) := by
  induction h with
  | nil => exact hrest
  | event e _ ih => exact .event e ih
  | within s hinner _ _ ih =>
    rw [List.append_assoc]
    exact .within s hinner ih

theorem single (e : Event) : WellNested [.event e] := .event e .nil

/-- What happens within a span, and nothing behind it. -/
theorem span (s : Span) (h : WellNested marks) : WellNested (Journal.within s marks) := by
  rw [← List.append_nil (Journal.within s marks)]
  exact .within s h .nil

theorem replicate (e : Event) (k : Nat) : WellNested (List.replicate k (.event e)) := by
  induction k with
  | zero => exact .nil
  | succ k ih =>
    rw [List.replicate_succ]
    exact .event e ih

end WellNested

variable {logger : String} {f g : Filter} {spans spans' : List (Option Span)} {s : Span}
  {marks inner rest : List Mark} {r : Record}

/-! ## Nesting -/

theorem within_append (s : Span) (inner rest : List Mark) :
    within s inner ++ rest = .enter s :: (inner ++ .leave :: rest) := by
  simp [within]

theorem recordsWithin_event (e : Event) (marks : List Mark) :
    recordsWithin logger f spans (.event e :: marks) =
      recordsWithin logger f spans [.event e] ++ recordsWithin logger f spans marks := by
  simp only [recordsWithin]
  split <;> rfl

/-- What stands behind a well nested journal is recorded within the same spans as the journal. -/
theorem recordsWithin_append (h : WellNested marks) (rest : List Mark) :
    recordsWithin logger f spans (marks ++ rest) =
      recordsWithin logger f spans marks ++ recordsWithin logger f spans rest := by
  -- within a span the marks go on up to where it is left, so what follows is left open
  induction h generalizing spans rest with
  | nil => rfl
  | event e _ ih =>
    rw [List.cons_append, recordsWithin_event, ih, ← List.append_assoc, ← recordsWithin_event]
  | within s _ _ ihinner ih =>
    rw [List.append_assoc, within_append, within_append]
    simp only [recordsWithin, ihinner]
    split
    · simp only [ih, List.cons_append, List.append_assoc]
    · simp only [ih, List.append_assoc]

/-- The records of a span and of what stands behind it. -/
theorem recordsWithin_within_append (h : WellNested inner) (rest : List Mark) :
    recordsWithin logger f spans (within s inner ++ rest) =
      if f.passesSpan (spans.filterMap id) s then
        spanRecord logger s (spans.filterMap id) "START" ::
          (recordsWithin logger f (some s :: spans) inner ++
            spanRecord logger s (spans.filterMap id) "END" :: recordsWithin logger f spans rest)
      else recordsWithin logger f (none :: spans) inner ++ recordsWithin logger f spans rest := by
  rw [within_append, recordsWithin, recordsWithin_append h, recordsWithin_append h]
  rfl

/-- The spans that have not passed make no difference to the records within them. -/
theorem recordsWithin_congr (h : WellNested marks)
    (hspans : spans.filterMap id = spans'.filterMap id) :
    recordsWithin logger f spans marks = recordsWithin logger f spans' marks := by
  induction h generalizing spans spans' with
  | nil => rfl
  | event e _ ih =>
    simp only [recordsWithin, hspans]
    rw [ih hspans]
  | @within s inner marks hinner _ ihinner ih =>
    have hpassed : (some s :: spans).filterMap id = (some s :: spans').filterMap id :=
      congrArg (s :: ·) hspans
    have hnot : (none :: spans).filterMap id = (none :: spans').filterMap id := hspans
    rw [recordsWithin_within_append hinner, recordsWithin_within_append hinner, hspans,
      ihinner hpassed, ihinner hnot, ih hspans]

/-- A span that passes has a record before and one behind those of what happens in it. -/
theorem recordsWithin_within_of_passes (hs : f.passesSpan (spans.filterMap id) s = true)
    (h : WellNested inner) :
    recordsWithin logger f spans (within s inner) =
      spanRecord logger s (spans.filterMap id) "START" ::
        (recordsWithin logger f (some s :: spans) inner ++
          [spanRecord logger s (spans.filterMap id) "END"]) := by
  rw [← List.append_nil (within s inner), recordsWithin_within_append h, if_pos hs]
  rfl

/-- A span that does not pass is as if it were not there. -/
theorem recordsWithin_within_of_not_passes
    (hs : f.passesSpan (spans.filterMap id) s = false) (h : WellNested inner) :
    recordsWithin logger f spans (within s inner) = recordsWithin logger f spans inner := by
  have hnot : (none :: spans).filterMap id = spans.filterMap id := rfl
  rw [← List.append_nil (within s inner), recordsWithin_within_append h, hs,
    if_neg Bool.false_ne_true, recordsWithin_congr h hnot]
  exact List.append_nil _

/-! ## What a filter lets through -/

/-- Filters that let the same pass give the same records. -/
theorem records_congr (hspan : f.passesSpan = g.passesSpan)
    (hevent : f.passesEvent = g.passesEvent) :
    records logger f marks = records logger g marks := by
  have hwithin : ∀ spans,
      recordsWithin logger f spans marks = recordsWithin logger g spans marks := by
    induction marks with
    | nil => exact fun _ => rfl
    | cons mark marks ih =>
      intro spans
      cases mark with
      | enter s => simp only [recordsWithin, hspan, ih]
      | leave => rcases spans with _ | ⟨_ | s, spans⟩ <;> simp only [recordsWithin, ih]
      | event e => simp only [recordsWithin, hevent, ih]
  exact hwithin []

/-- **The order of directives.** A filter that gives no scope twice leaves the same records in
whatever order its directives stand. -/
theorem records_perm (hperm : f.Perm g) (hscopes : (f.map Directive.scope).Nodup) :
    records logger f marks = records logger g marks := by
  obtain ⟨hspan, hevent⟩ := Filter.passes_perm hperm hscopes
  exact records_congr hspan hevent

/-- Records of spans that have been entered, before the marks or in them, and of events in the
marks, of levels that some directive reaches. -/
inductive Recorded (logger : String) (f : Filter) (spans : List (Option Span))
    (marks : List Mark) : Record → Prop where
  | span {s : Span} (outer : List Span) (what : String)
      (hs : some s ∈ spans ∨ .enter s ∈ marks ∧ f.reaches .info = true) :
      Recorded logger f spans marks (spanRecord logger s outer what)
  | event {e : Event} (outer : List Span) (he : .event e ∈ marks)
      (hlevel : f.reaches e.level = true) :
      Recorded logger f spans marks (eventRecord logger outer e)

/-- What is recorded of the rest of a journal is recorded of all of it, if the spans around the rest
have been entered. -/
theorem Recorded.cons {mark : Mark} (h : Recorded logger f spans' marks r)
    (hspans : ∀ s, some s ∈ spans' →
      some s ∈ spans ∨ .enter s ∈ mark :: marks ∧ f.reaches .info = true) :
    Recorded logger f spans (mark :: marks) r := by
  cases h with
  | @span s outer what hs =>
    rcases hs with hs | ⟨hs, hinfo⟩
    · exact .span outer what (hspans s hs)
    · exact .span outer what (.inr ⟨List.mem_cons_of_mem mark hs, hinfo⟩)
  | event outer he hlevel => exact .event outer (List.mem_cons_of_mem mark he) hlevel

theorem recorded_of_mem_recordsWithin (h : r ∈ recordsWithin logger f spans marks) :
    Recorded logger f spans marks r := by
  induction marks generalizing spans with
  | nil => cases h
  | cons mark marks ih =>
    cases mark with
    | enter s =>
      simp only [recordsWithin] at h
      split at h
      · next hs =>
        have hentered : .enter s ∈ .enter s :: marks ∧ f.reaches .info = true :=
          ⟨List.mem_cons_self, Filter.reaches_of_passesSpan hs⟩
        rcases List.mem_cons.1 h with rfl | h
        · exact .span _ _ (.inr hentered)
        · refine (ih h).cons fun s' hs' => ?_
          rcases List.mem_cons.1 hs' with hs' | hs'
          · exact .inr (Option.some.inj hs' ▸ hentered)
          · exact .inl hs'
      · exact (ih h).cons fun s' hs' =>
          .inl (List.mem_of_ne_of_mem (Option.some_ne_none s') hs')
    | leave =>
      rcases spans with _ | ⟨_ | s, spans⟩
      · exact (ih h).cons fun s' hs' => .inl hs'
      · exact (ih h).cons fun s' hs' => .inl (List.mem_cons_of_mem none hs')
      · rcases List.mem_cons.1 h with rfl | h
        · exact .span _ _ (.inl List.mem_cons_self)
        · exact (ih h).cons fun s' hs' => .inl (List.mem_cons_of_mem (some s) hs')
    | event e =>
      simp only [recordsWithin] at h
      split at h
      · next he =>
        rcases List.mem_cons.1 h with rfl | h
        · exact .event _ List.mem_cons_self (Filter.reaches_of_passesEvent he)
        · exact (ih h).cons fun s' hs' => .inl hs'
      · exact (ih h).cons fun s' hs' => .inl hs'

/-- Every record is of a span or an event in the journal. -/
theorem recorded_of_mem_records (h : r ∈ records logger f marks) :
    Recorded logger f [] marks r :=
  recorded_of_mem_recordsWithin h

/-- No level is recorded that is less urgent than all those of the filter. -/
theorem reaches_of_mem_records (h : r ∈ records logger f marks) : f.reaches r.level = true := by
  cases recorded_of_mem_records h with
  | span outer what hs => exact (hs.resolve_left List.not_mem_nil).2
  | event outer he hlevel => exact hlevel

theorem mem_spanFields {spans : List Span} {field : String × Nat} (h : field ∈ spanFields spans) :
    field.1 = "parties" := by
  have hspan (s : Span) (h : field ∈ s.fields) : field.1 = "parties" := by
    cases s <;> simp [Span.fields] at h <;> rw [h]
  induction spans with
  | nil => cases h
  | cons s spans ih =>
    rcases List.mem_append.1 h with h | h
    · exact hspan s h
    · exact ih (List.mem_of_mem_filter h)

/-- **What records show.** Nothing but counts of parties and indices of shares is shown in the
fields of a record. -/
theorem fields_of_mem_records (h : r ∈ records logger f marks) :
    ∀ field ∈ r.fields, ∃ n, field = ("parties", .number n) ∨ field = ("index", .number n) := by
  intro field hfield
  have hevent (e : Event) {name : String} {n : Nat} (h : (name, n) ∈ e.fields) :
      name = "index" := by
    cases e <;> simp [Event.fields] at h <;> exact h.1
  cases recorded_of_mem_records h with
  | @span s outer what hs =>
    obtain ⟨⟨name, n⟩, hname, rfl⟩ := List.mem_map.1 hfield
    have hspan : (name, n) ∈ spanFields (s :: outer) := hname
    obtain rfl : name = "parties" := mem_spanFields hspan
    exact ⟨n, .inl rfl⟩
  | @event e outer he hlevel =>
    obtain ⟨⟨name, n⟩, hname, rfl⟩ := List.mem_map.1 hfield
    rcases List.mem_append.1 hname with hname | hname
    · obtain rfl := hevent e hname
      exact ⟨n, .inr rfl⟩
    · obtain rfl : name = "parties" := mem_spanFields (List.mem_of_mem_filter hname)
      exact ⟨n, .inl rfl⟩

/-- A filter that is off leaves no record. -/
theorem records_ofString_off : records logger (Filter.ofString "off") marks = [] := by
  rw [List.eq_nil_iff_forall_not_mem]
  intro r hr
  have hreaches := reaches_of_mem_records hr
  rw [Filter.ofString_off, Filter.reaches_everywhere] at hreaches
  cases hlevel : r.level <;> rw [hlevel] at hreaches <;> cases hreaches

/-! ## Levels -/

theorem passesSpan_everywhere_of_le {depth : Nat} (h : Level.info.rank ≤ depth)
    (spans : List Span) (s : Span) : (Filter.everywhere depth).passesSpan spans s = true := by
  rw [Filter.passesSpan_everywhere]
  exact decide_eq_true h

/-- From the level of spans on, a filter that reaches further only adds records. -/
theorem records_everywhere_eq_filter {depth further : Nat} (hdepth : Level.info.rank ≤ depth)
    (hfurther : depth ≤ further) :
    records logger (Filter.everywhere depth) marks =
      (records logger (Filter.everywhere further) marks).filter
        fun r => r.level.rank ≤ depth := by
  -- all spans pass either filter, so the records are within the same ones
  have hspan (spans : List Span) (s : Span) :=
    And.intro (passesSpan_everywhere_of_le hdepth spans s)
      (passesSpan_everywhere_of_le (hdepth.trans hfurther) spans s)
  have hinfo {s : Span} {spans : List Span} (what : String) :
      (spanRecord logger s spans what).level.rank ≤ depth := hdepth
  have hwithin : ∀ spans, recordsWithin logger (Filter.everywhere depth) spans marks =
      (recordsWithin logger (Filter.everywhere further) spans marks).filter
        fun r => r.level.rank ≤ depth := by
    induction marks with
    | nil => exact fun _ => rfl
    | cons mark marks ih =>
      intro spans
      cases mark with
      | enter s => simp [recordsWithin, hspan, hinfo, ih]
      | leave =>
        rcases spans with _ | ⟨_ | s, spans⟩
        · exact ih []
        · exact ih spans
        · simp [recordsWithin, hinfo, ih]
      | event e =>
        simp only [recordsWithin, Filter.passesEvent_everywhere, decide_eq_true_eq]
        have hevent : (eventRecord logger (spans.filterMap id) e).level = e.level := rfl
        by_cases he : e.level.rank ≤ depth
        · rw [if_pos he, if_pos (he.trans hfurther), List.filter_cons, hevent,
            decide_eq_true he, ih]
          rfl
        · rw [if_neg he, ih]
          split
          · rw [List.filter_cons, hevent, decide_eq_false he, if_neg Bool.false_ne_true]
          · rfl
  exact hwithin []

end JointSchnorr.Journal
