import Mathlib
import JointSchnorr.Journal.Filter

/-!
# What a filter lets pass

A text of directives is parted at its commas, so two texts with a comma between them are one filter
behind the other (`ofString_append`). Of the plain directives that apply, the one with the greatest
`specificity` decides, and the last of those that have it (`deciding?_eq_some_iff`). Two plain
scopes that open one target have the same specificity only if they are the same
(`eq_of_specificity_eq`). So as long as no scope is given twice, the order of the directives makes
no difference (`passes_perm`). What passes at a level passes at all levels that are more urgent
(`passesEvent_of_rank_le`), and a filter that is one level lets pass what is as urgent as that level
(`passesEvent_everywhere`).
-/

namespace JointSchnorr.Journal

/-! ## Specificity -/

namespace Scope

variable {scope other : Scope} {target : String}

/-- How specific a scope is: the length of its opening, then whether it has a field, and then the
name of that. -/
def specificity (scope : Scope) : ℕ ×ₗ Bool ×ₗ String :=
  toLex (scope.opening.length, toLex (scope.field.isSome, String.ofList scope.fieldName))

theorem isVaguer_iff : scope.isVaguer other = true ↔ scope.specificity < other.specificity := by
  simp only [specificity, Prod.Lex.toLex_lt_toLex, isVaguer]
  by_cases hl : scope.opening.length = other.opening.length
  · by_cases hf : scope.field.isSome = other.field.isSome
    · simp [hl, hf, compare_lt_iff_lt]
    · cases hs : scope.field.isSome <;> cases ho : other.field.isSome <;> simp_all
  · simp [hl]

/-- Two plain scopes that open one target differ in how specific they are. -/
theorem eq_of_specificity_eq (hs : scope.isPlain = true) (ho : other.isPlain = true)
    (hst : scope.opens target = true) (hot : other.opens target = true)
    (h : scope.specificity = other.specificity) : scope = other := by
  simp only [specificity, toLex_inj, Prod.mk.injEq, String.ofList_inj] at h
  obtain ⟨hlength, hsome, hname⟩ := h
  have hopening : scope.opening = other.opening := by
    have hprefix := List.isPrefixOf_iff_prefix.1 hst
    have hprefix' := List.isPrefixOf_iff_prefix.1 hot
    exact (List.prefix_of_prefix_length_le hprefix hprefix' hlength.le).eq_of_length hlength
  obtain ⟨opening, title, field⟩ := scope
  obtain ⟨opening', title', field'⟩ := other
  simp only [isPlain, Bool.and_eq_true, Option.isNone_iff_eq_none, Bool.not_eq_true'] at hs ho
  obtain ⟨rfl, hvalue⟩ := hs
  obtain ⟨rfl, hvalue'⟩ := ho
  have hfield : field = field' := by
    rcases field with _ | ⟨name, _ | _ | _⟩ <;> rcases field' with _ | ⟨name', _ | _ | _⟩ <;>
      simp_all [hasValue, fieldName]
  rw [show opening = opening' from hopening, hfield]

end Scope

namespace Filter

/-! ## Parts of a text -/

theorem parts_ne_nil (text : List Char) : parts text ≠ [] := by
  cases text with
  | nil => exact List.cons_ne_nil _ _
  | cons c text =>
    rw [parts]
    split
    · exact List.cons_ne_nil _ _
    · split <;> exact List.cons_ne_nil _ _

theorem parts_cons_comma (text : List Char) : parts (',' :: text) = [] :: parts text := by
  rw [parts]
  split
  · next h => exact absurd h (parts_ne_nil text)
  · next part rest h => rw [if_pos rfl, h]

/-- A comma parts a text from what stands behind it. -/
theorem parts_append (text rest : List Char) :
    parts (text ++ ',' :: rest) = parts text ++ parts rest := by
  induction text with
  | nil => exact parts_cons_comma rest
  | cons c text ih =>
    obtain ⟨part, others, h⟩ := List.exists_cons_of_ne_nil (parts_ne_nil text)
    rw [List.cons_append, parts, parts, ih, h]
    by_cases hc : c = ','
    · simp [hc]
    · simp [hc]

theorem parts_of_not_mem {text : List Char} (h : ',' ∉ text) : parts text = [text] := by
  induction text with
  | nil => rfl
  | cons c text ih =>
    rw [List.mem_cons, not_or] at h
    rw [parts, ih h.2]
    exact if_neg (Ne.symm h.1)

/-- The parts of texts with commas between them are those texts. -/
theorem parts_intercalate {texts : List (List Char)} (h : ∀ text ∈ texts, ',' ∉ text)
    (hne : texts ≠ []) : parts ([','].intercalate texts) = texts := by
  induction texts with
  | nil => exact absurd rfl hne
  | cons text texts ih =>
    obtain ⟨htext, hrest⟩ := List.forall_mem_cons.1 h
    cases texts with
    | nil => rw [List.intercalate_singleton, parts_of_not_mem htext]
    | cons next texts =>
      rw [List.intercalate_cons_cons, List.append_assoc, List.singleton_append, parts_append,
        parts_of_not_mem htext, ih hrest (List.cons_ne_nil next texts)]
      rfl

/-- Two filters in one text, with a comma between them. -/
theorem ofString_append (text rest : String) :
    ofString (text ++ "," ++ rest) = ofString text ++ ofString rest := by
  have hcomma : (text ++ "," ++ rest).toList = text.toList ++ ',' :: rest.toList := by
    rw [String.toList_append, String.toList_append, List.append_assoc]
    rfl
  rw [ofString, hcomma, parts_append, List.filterMap_append]
  rfl

/-! ## The directive that decides -/

variable {f g : Filter} {d : Directive} {applies : Scope → Bool}

/-- Whether a directive can decide. -/
def fits (applies : Scope → Bool) (d : Directive) : Bool := d.scope.isPlain && applies d.scope

theorem deciding?_cons_of_none (h : deciding? applies f = none) :
    deciding? applies (d :: f) = if fits applies d then some d else none := by
  rw [deciding?, h]
  rfl

theorem deciding?_cons_of_some {best : Directive} (h : deciding? applies f = some best) :
    deciding? applies (d :: f) =
      if fits applies d ∧ best.scope.specificity < d.scope.specificity then some d
      else some best := by
  rw [deciding?, h]
  simp only [← Scope.isVaguer_iff, ← Bool.and_eq_true]
  rfl

theorem deciding?_eq_none_iff :
    deciding? applies f = none ↔ ∀ d ∈ f, fits applies d = false := by
  induction f with
  | nil => simp [deciding?]
  | cons d f ih =>
    rw [List.forall_mem_cons, ← ih]
    cases hrest : deciding? applies f with
    | none => simp [deciding?_cons_of_none hrest]
    | some best =>
      rw [deciding?_cons_of_some hrest]
      split <;> simp

/-- Of the directives that can decide, the most specific one does, and the last of those that are as
specific. -/
theorem deciding?_eq_some_iff :
    deciding? applies f = some d ↔ ∃ before after, f = before ++ d :: after ∧
      fits applies d = true ∧
      (∀ e ∈ before, fits applies e = true → e.scope.specificity ≤ d.scope.specificity) ∧
      ∀ e ∈ after, fits applies e = true → e.scope.specificity < d.scope.specificity := by
  induction f generalizing d with
  | nil => simp [deciding?]
  | cons first f ih =>
    constructor
    · intro h
      cases hrest : deciding? applies f with
      | none =>
        have hnone := deciding?_eq_none_iff.1 hrest
        rw [deciding?_cons_of_none hrest] at h
        split at h
        · next hfits =>
          obtain rfl := Option.some.inj h
          refine ⟨[], f, rfl, hfits, fun e he => absurd he List.not_mem_nil, ?_⟩
          intro e he hfits'
          exact absurd hfits' (by simp [hnone e he])
        · cases h
      | some best =>
        obtain ⟨before, after, rfl, hbest, hbefore, hafter⟩ := ih.1 hrest
        rw [deciding?_cons_of_some hrest] at h
        split at h
        · next hfirst =>
          obtain rfl := Option.some.inj h
          refine ⟨[], _, rfl, hfirst.1, fun e he => absurd he List.not_mem_nil, ?_⟩
          intro e he hfits
          rcases List.mem_append.1 he with he | he
          · exact (hbefore e he hfits).trans_lt hfirst.2
          · rcases List.mem_cons.1 he with rfl | he
            · exact hfirst.2
            · exact (hafter e he hfits).trans hfirst.2
        · next hfirst =>
          obtain rfl := Option.some.inj h
          refine ⟨first :: before, after, rfl, hbest, ?_, hafter⟩
          refine List.forall_mem_cons.2 ⟨fun hfits => ?_, hbefore⟩
          exact not_lt.1 fun hlt => hfirst ⟨hfits, hlt⟩
    · rintro ⟨before, after, hf, hfits, hbefore, hafter⟩
      cases before with
      | nil =>
        obtain ⟨rfl, rfl⟩ := List.cons_eq_cons.1 hf
        cases hrest : deciding? applies f with
        | none => rw [deciding?_cons_of_none hrest, if_pos hfits]
        | some best =>
          obtain ⟨before, after, rfl, hbest, -⟩ := ih.1 hrest
          have hlt := hafter best (by simp) hbest
          rw [deciding?_cons_of_some hrest, if_pos ⟨hfits, hlt⟩]
      | cons _ before =>
        obtain ⟨rfl, rfl⟩ := List.cons_eq_cons.1 hf
        obtain ⟨hfirst, hbefore⟩ := List.forall_mem_cons.1 hbefore
        have hrest := ih.2 ⟨before, after, rfl, hfits, hbefore, hafter⟩
        rw [deciding?_cons_of_some hrest, if_neg]
        intro ⟨hfits', hlt⟩
        exact absurd hlt (not_lt.2 (hfirst hfits'))

theorem of_deciding?_eq_some (h : deciding? applies f = some d) :
    d ∈ f ∧ fits applies d = true ∧
      ∀ e ∈ f, fits applies e = true → e.scope.specificity ≤ d.scope.specificity := by
  obtain ⟨before, after, rfl, hfits, hbefore, hafter⟩ := deciding?_eq_some_iff.1 h
  refine ⟨by simp, hfits, List.forall_mem_append.2 ⟨hbefore, ?_⟩⟩
  exact List.forall_mem_cons.2 ⟨fun _ => le_rfl, fun e he hfits => (hafter e he hfits).le⟩

/-! ## Directives in any order -/

section Perm

variable (hperm : f.Perm g) (hscopes : (f.map Directive.scope).Nodup)

include hperm hscopes

theorem deciding?_perm (target : String)
    (happlies : ∀ scope, applies scope = true → scope.opens target = true) :
    deciding? applies f = deciding? applies g := by
  cases hf : deciding? applies f with
  | none =>
    refine (deciding?_eq_none_iff.2 fun d hd => ?_).symm
    exact deciding?_eq_none_iff.1 hf d (hperm.mem_iff.2 hd)
  | some d =>
    obtain ⟨hd, hfits, hmost⟩ := of_deciding?_eq_some hf
    cases hg : deciding? applies g with
    | none =>
      have hnone := deciding?_eq_none_iff.1 hg d (hperm.mem_iff.1 hd)
      rw [hnone] at hfits
      cases hfits
    | some d' =>
      obtain ⟨hd', hfits', hmost'⟩ := of_deciding?_eq_some hg
      have hequal : d.scope.specificity = d'.scope.specificity :=
        le_antisymm (hmost' d (hperm.mem_iff.1 hd) hfits) (hmost d' (hperm.mem_iff.2 hd') hfits')
      obtain ⟨hplain, happly⟩ := Bool.and_eq_true_iff.1 hfits
      obtain ⟨hplain', happly'⟩ := Bool.and_eq_true_iff.1 hfits'
      have hscope : d.scope = d'.scope :=
        Scope.eq_of_specificity_eq hplain hplain' (happlies _ happly) (happlies _ happly') hequal
      rw [List.inj_on_of_nodup_map hscopes hd (hperm.mem_iff.2 hd') hscope]

omit hperm in
theorem narrow_eq_filter : narrow f = f.filter fun d => d.scope.isNarrow := by
  induction f with
  | nil => rfl
  | cons d f ih =>
    obtain ⟨hfirst, hrest⟩ := List.nodup_cons.1 hscopes
    have hlast : f.any (·.scope = d.scope) = false := by
      rw [List.any_eq_false]
      intro e he hscope
      exact hfirst (List.mem_map.2 ⟨e, he, by simpa using hscope⟩)
    rw [narrow, ih hrest, hlast, List.filter_cons]
    simp

theorem passesWithin_perm : passesWithin f = passesWithin g := by
  funext spans level
  have hscopes' := (hperm.map Directive.scope).nodup_iff.1 hscopes
  have hnarrow : (narrow f).Perm (narrow g) := by
    rw [narrow_eq_filter hscopes, narrow_eq_filter hscopes']
    exact hperm.filter _
  simp only [passesWithin]
  congr 1
  funext s
  exact hnarrow.any_eq

/-- **The order of directives.** In a filter that gives no scope twice the directives can stand in
any order: the same spans and events pass. -/
theorem passes_perm : passesSpan f = passesSpan g ∧ passesEvent f = passesEvent g := by
  have hwithin := passesWithin_perm hperm hscopes
  constructor
  · funext spans s
    have halone : passesAlone f (·.opens s.area.target) =
        passesAlone g (·.opens s.area.target) := by
      funext level
      rw [passesAlone, deciding?_perm hperm hscopes s.area.target fun scope h => h, ← passesAlone]
    rw [passesSpan, passesSpan, hwithin, halone, reaches, reaches, hperm.any_eq, hperm.any_eq]
  · funext spans target names level
    rw [passesEvent, passesEvent, hwithin, passesAlone, passesAlone,
      deciding?_perm hperm hscopes target]
    intro scope h
    exact (Bool.and_eq_true_iff.1 h).1

end Perm

/-! ## Levels -/

variable {spans : List Span} {target : String} {names : List String} {level level' : Level}

/-- What passes at a level passes at any that is more urgent. -/
theorem passesEvent_of_rank_le (hlevel : level'.rank ≤ level.rank)
    (h : passesEvent f spans target names level = true) :
    passesEvent f spans target names level' = true := by
  simp only [passesEvent, passesWithin, passesAlone, Bool.or_eq_true, List.any_eq_true,
    Bool.and_eq_true, decide_eq_true_eq] at h ⊢
  rcases h with ⟨s, hs, d, hd, hholds, hdepth⟩ | h
  · exact .inl ⟨s, hs, d, hd, hholds, hlevel.trans hdepth⟩
  · right
    split at h
    · exact decide_eq_true (hlevel.trans (of_decide_eq_true h))
    · cases h

theorem mem_of_mem_narrow (h : d ∈ narrow f) : d ∈ f := by
  induction f with
  | nil => exact h
  | cons first f ih =>
    rw [narrow] at h
    split at h
    · rcases List.mem_cons.1 h with rfl | h
      · exact List.mem_cons_self
      · exact List.mem_cons_of_mem first (ih h)
    · exact List.mem_cons_of_mem first (ih h)

theorem reaches_of_mem (hd : d ∈ f) (h : level.rank ≤ d.depth) : f.reaches level = true := by
  simp only [reaches, List.any_eq_true, Bool.or_eq_true, decide_eq_true_eq]
  exact ⟨d, hd, .inr h⟩

theorem reaches_of_passesWithin (h : passesWithin f spans level = true) :
    f.reaches level = true := by
  simp only [passesWithin, List.any_eq_true, Bool.and_eq_true, decide_eq_true_eq] at h
  obtain ⟨s, -, d, hd, -, hdepth⟩ := h
  exact reaches_of_mem (mem_of_mem_narrow hd) hdepth

theorem reaches_of_passesAlone (h : passesAlone f applies level = true) :
    f.reaches level = true := by
  unfold passesAlone at h
  split at h
  · next d hd => exact reaches_of_mem (of_deciding?_eq_some hd).1 (of_decide_eq_true h)
  · cases h

theorem reaches_of_passesEvent (h : passesEvent f spans target names level = true) :
    f.reaches level = true := by
  rcases Bool.or_eq_true_iff.1 h with h | h
  · exact reaches_of_passesWithin h
  · exact reaches_of_passesAlone h

/-- Spans are recorded at level `info`. -/
theorem reaches_of_passesSpan {s : Span} (h : passesSpan f spans s = true) :
    f.reaches .info = true := by
  simp only [passesSpan, Bool.or_eq_true, Bool.and_eq_true] at h
  rcases h with (⟨h, -⟩ | h) | h
  · exact h
  · exact reaches_of_passesWithin h
  · exact reaches_of_passesAlone h

/-- The filter of one level for all targets. -/
def everywhere (depth : Nat) : Filter := [⟨⟨[], none, none⟩, depth⟩]

theorem reaches_everywhere (depth : Nat) :
    (everywhere depth).reaches level = decide (level.rank ≤ depth) := by
  simp [reaches, everywhere, Scope.hasValue]

theorem passesEvent_everywhere (depth : Nat) :
    passesEvent (everywhere depth) spans target names level = decide (level.rank ≤ depth) := by
  simp [passesEvent, passesWithin, passesAlone, everywhere, narrow, deciding?, Scope.isNarrow,
    Scope.isPlain, Scope.hasValue, Scope.opens]

theorem passesSpan_everywhere (depth : Nat) (s : Span) :
    passesSpan (everywhere depth) spans s = decide (Level.info.rank ≤ depth) := by
  simp [passesSpan, passesWithin, passesAlone, everywhere, narrow, deciding?, Scope.isNarrow,
    Scope.isPlain, Scope.hasValue, Scope.opens]

theorem ofString_off : ofString "off" = everywhere 0 := by decide +kernel

theorem ofString_name (level : Level) : ofString level.name = everywhere level.rank := by
  cases level <;> decide +kernel

end Filter

end JointSchnorr.Journal
