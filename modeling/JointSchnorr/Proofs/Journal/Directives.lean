import Mathlib
import JointSchnorr.Proofs.Journal.Filter
import JointSchnorr.Proofs.Pattern.Depth
import JointSchnorr.Proofs.Text

/-!
# Directives in writing

A level is written as its rank or by its name, in letters of either case (`depth?_eq_some_iff`).
With no blank in front, the cuts that reading a directive makes are those of its parts, whatever
blanks stand behind it (`Cursor.behind`). So a directive is read from its wording to what the parts
of the wording say, or refused if a field or a level in it cannot be read (`ofChars?_text`), and a
filter from the wordings between its commas (`ofString_texts`).
-/

namespace JointSchnorr.Journal

/-! ## Openings and blanks -/

theorem isBlank_of_isOpening {c : Char} (h : Directive.isOpening c = true) :
    Text.isBlank c = false := by
  rcases Bool.or_eq_true_iff.1 h with h | h
  · simp only [List.contains_iff_mem, List.mem_cons, List.not_mem_nil, or_false] at h
    rcases h with rfl | rfl | rfl <;> decide
  · exact Text.isBlank_of_isLetterOrNumeral h

namespace Directive

/-! ## Levels and values -/

theorem exists_isDigit_of_number? {text : List Char} {n : Nat} (h : Text.number? text = some n) :
    ∃ c ∈ Text.lower text, c.isDigit = true := by
  obtain ⟨-, k, htext⟩ := Text.number?_eq_some_iff.1 h
  obtain ⟨c, hc⟩ := List.exists_mem_of_ne_nil _ (Nat.toDigits_ne_nil (b := 10) (n := n))
  have hdigit := Nat.isDigit_of_mem_toDigits (by decide) (by decide) hc
  have hlower : c.toLower = c := by
    obtain ⟨d, hd, rfl, -⟩ := Text.digitChar_of_isDigit hdigit
    interval_cases d <;> rfl
  have hmem : c ∈ text := by
    rcases htext with rfl | rfl <;> simp [hc]
  exact ⟨c, List.mem_map.2 ⟨c, hmem, hlower⟩, hdigit⟩

/-- A level is written as its rank or as its name in letters of either case. -/
theorem depth?_eq_some_iff {text : List Char} {depth : Nat} :
    depth? text = some depth ↔
      Text.number? text = some depth ∧ depth ≤ Level.trace.rank ∨
      Text.lower text = "off".toList ∧ depth = 0 ∨
      ∃ level : Level, Text.lower text = level.name.toList ∧ depth = level.rank := by
  have hnumber {name : String} (hn : name.toList.any Char.isDigit = false)
      (h : Text.lower text = name.toList) : Text.number? text = none := by
    by_contra hsome
    obtain ⟨n, hn'⟩ := Option.ne_none_iff_exists'.1 hsome
    obtain ⟨c, hc, hdigit⟩ := exists_isDigit_of_number? hn'
    rw [h] at hc
    exact List.any_eq_false.1 hn c hc hdigit
  unfold depth?
  constructor
  · intro h
    split at h
    · next n hn =>
      split at h
      · next hle =>
        obtain rfl := Option.some.inj h
        exact .inl ⟨hn, hle⟩
      · cases h
    · split at h
      · next hoff => exact .inr (.inl ⟨hoff, (Option.some.inj h).symm⟩)
      · obtain ⟨level, hfind, rfl⟩ := Option.map_eq_some_iff.1 h
        have hname := List.find?_some hfind
        exact .inr (.inr ⟨level, (eq_of_beq hname).symm, rfl⟩)
  · rintro (⟨hn, hle⟩ | ⟨hoff, rfl⟩ | ⟨level, hlevel, rfl⟩)
    · rw [hn]
      exact if_pos hle
    · rw [hnumber (by decide) hoff]
      exact if_pos hoff
    · rw [hnumber (by cases level <;> decide) hlevel, hlevel]
      cases level <;> rfl

/-- Any text of plain characters is a value that can be asked for. -/
theorem exists_value?_of_plain {text : List Char} (h : ∀ c ∈ text, Pattern.isPlain c = true) :
    ∃ test, value? text = some test := by
  unfold value?
  split
  · exact ⟨_, rfl⟩
  · refine ⟨.other, if_pos ?_⟩
    rw [Pattern.isPattern_of_plain h, Bool.or_true]

/-! ## Cutting behind what has been read -/

namespace Cursor

/-- The cursor that has read `front` and has `rest` to read before the blanks at the end. -/
def behind (front rest back : List Char) : Cursor :=
  ⟨front ++ (rest ++ back), Text.width front, rest⟩

variable {front part rest back : List Char} {c : Char}

theorem next_behind :
    (behind front (c :: rest) back).next = behind (front ++ [c]) rest back := by
  simp [behind, next, Text.width_append]

theorem remainder?_behind : (behind front rest back).remainder? = some (rest ++ back) :=
  Text.dropWidth?_append front (rest ++ back)

theorem part?_behind {isStop : Char → Bool} (hpart : ∀ d ∈ part, isStop d = false)
    (hstop : isStop c = true) :
    (behind front (part ++ c :: rest) back).part? isStop =
      some (part, behind (front ++ part) (c :: rest) back) := by
  have hneg (d : Char) (hd : d ∈ part) : (! isStop d) = true := by rw [hpart d hd]; rfl
  have htake : (part ++ c :: rest).takeWhile (! isStop ·) = part := by
    rw [List.takeWhile_append_of_pos hneg, List.takeWhile_cons, hstop]
    exact List.append_nil part
  have hdrop : (part ++ c :: rest).dropWhile (! isStop ·) = c :: rest := by
    rw [List.dropWhile_append_of_pos hneg, List.dropWhile_cons, hstop]
    rfl
  have hcut : Text.slice? (front ++ (part ++ c :: rest ++ back)) (Text.width front)
      (Text.width front + Text.width part) = some part := by
    rw [Text.slice?_eq_some_iff (by omega)]
    exact ⟨front, c :: rest ++ back, by simp, rfl, Text.width_append front part⟩
  simp only [part?, behind, htake, hdrop, hcut, Text.width_append]
  simp

theorem start_append {text : List Char} (hback : ∀ d ∈ back, Text.isBlank d = true)
    (hhead : ∀ d ∈ text.head?, Text.isBlank d = false)
    (hlast : ∀ d ∈ text.getLast?, Text.isBlank d = false) :
    start (text ++ back) = behind [] text back := by
  rw [start, ← List.nil_append (text ++ back),
    Text.trim_append (fun d hd => absurd hd List.not_mem_nil) hback hhead hlast]
  rfl

end Cursor

/-! ## Wordings -/

/-- A directive in writing: what its target begins with, what is in the brackets, if there are any,
and what stands behind the equals sign, if there is one. -/
structure Wording where
  opening : List Char
  /-- A title, and what is in the braces, if there are any. -/
  brackets : Option (List Char × Option (List Char))
  level : Option (List Char)

namespace Wording

/-- The text of a level, with its equals sign. -/
def levelText : Option (List Char) → List Char
  | none => []
  | some level => '=' :: level

/-- The rank that stands behind a scope. -/
def depth? : Option (List Char) → Option Nat
  | none => some Level.trace.rank
  | some level => depthOrAll? level

/-- The text of a pair of brackets. -/
def bracketsText : Option (List Char × Option (List Char)) → List Char
  | none => []
  | some (title, none) => '[' :: (title ++ [']'])
  | some (title, some field) => '[' :: (title ++ '\x7b' :: (field ++ ['\x7d', ']']))

/-- The text of a directive. -/
def text (w : Wording) : List Char :=
  w.opening ++ (bracketsText w.brackets ++ levelText w.level)

/-- The scope, if the field in it can be read. -/
def scope? (w : Wording) : Option Scope :=
  match w.brackets with
  | none => some ⟨w.opening, none, none⟩
  | some (title, none) => some ⟨w.opening, some title, none⟩
  | some (title, some field) => (fieldTest? field).map fun test =>
    ⟨w.opening, if title = [] then none else some title, some test⟩

/-- The directive, if its field and its level can be read. -/
def directive? (w : Wording) : Option Directive :=
  w.scope?.bind fun scope => (depth? w.level).map (⟨scope, ·⟩)

/-- Wordings whose parts can be told from one another, and from a level alone. -/
structure IsClear (w : Wording) : Prop where
  head : ∀ c more, w.opening = c :: more → isOpening c = true
  opening : ∀ c ∈ w.opening, c ≠ '=' ∧ c ≠ '['
  target : w.brackets = none → w.opening ≠ [] ∧ w.level ≠ none
  title : ∀ title field, w.brackets = some (title, field) → ∀ c ∈ title, c ≠ ']' ∧ c ≠ '\x7b'
  field : ∀ title field, w.brackets = some (title, some field) →
    field ≠ [] ∧ ∀ c ∈ field, c ≠ '\x7d'

end Wording

variable {front core back : List Char} {level : Option (List Char)}

/-- A level up to the blanks at its end, which still are to be read with it. -/
structure Ends (level : Option (List Char)) (core back : List Char) : Prop where
  cases : level = none ∧ core = [] ∨ ∃ more, core = '=' :: more
  append_eq : core ++ back = Wording.levelText level
  isBlank : ∀ c ∈ back, Text.isBlank c = true
  getLast : ∀ c ∈ core.getLast?, Text.isBlank c = false
  read : ∀ front scope, afterBrackets? scope (.behind front core back) =
    (Wording.depth? level).map (⟨scope, ·⟩)

theorem exists_ends (level : Option (List Char)) : ∃ core back, Ends level core back := by
  cases level with
  | none =>
    exact ⟨[], [], .inl ⟨rfl, rfl⟩, rfl, fun c hc => absurd hc List.not_mem_nil,
      fun c hc => absurd hc (by simp), fun front scope => rfl⟩
  | some level =>
    have happend : level.rdropWhile Text.isBlank ++ level.rtakeWhile Text.isBlank = level :=
      List.rdropWhile_append_rtakeWhile
    refine ⟨'=' :: level.rdropWhile Text.isBlank, level.rtakeWhile Text.isBlank,
      .inr ⟨_, rfl⟩, ?_, ?_, ?_, ?_⟩
    · rw [List.cons_append, happend]
      rfl
    · exact fun c hc => List.mem_rtakeWhile_imp hc
    · intro c hc
      obtain ⟨hne, rfl⟩ := List.mem_getLast?_eq_getLast hc
      by_cases hcore : level.rdropWhile Text.isBlank = []
      · simp only [hcore]
        rfl
      · rw [List.getLast_cons hcore]
        exact Bool.eq_false_iff.2 (List.rdropWhile_last_not _ _ hcore)
    · intro front scope
      show ((Cursor.behind front _ _).next.remainder?.bind depthOrAll?).map _ = _
      rw [Cursor.next_behind, Cursor.remainder?_behind, happend]
      rfl

theorem inBrackets?_title {opening title : List Char} (h : Ends level core back)
    (htitle : ∀ c ∈ title, c ≠ ']' ∧ c ≠ '\x7b') :
    inBrackets? opening (.behind front (title ++ ']' :: core) back) =
      (Wording.depth? level).map (⟨⟨opening, some title, none⟩, ·⟩) := by
  have hpart : ∀ c ∈ title, (c == ']' || c == '\x7b') = false := by
    intro c hc
    simp [htitle c hc]
  rw [inBrackets?, Cursor.part?_behind hpart (by decide)]
  show afterBrackets? _ (Cursor.behind _ _ _).next = _
  rw [Cursor.next_behind]
  exact h.read _ _

theorem inBrackets?_field {opening title field : List Char} (h : Ends level core back)
    (htitle : ∀ c ∈ title, c ≠ ']' ∧ c ≠ '\x7b') (hfield : ∀ c ∈ field, c ≠ '\x7d')
    (hne : field ≠ []) :
    inBrackets? opening
        (.behind front (title ++ '\x7b' :: (field ++ '\x7d' :: ']' :: core)) back) =
      (fieldTest? field).bind fun test => (Wording.depth? level).map
        (⟨⟨opening, if title = [] then none else some title, some test⟩, ·⟩) := by
  have hpart : ∀ c ∈ title, (c == ']' || c == '\x7b') = false := by
    intro c hc
    simp [htitle c hc]
  have hpart' : ∀ c ∈ field, (c == '\x7d') = false := by
    intro c hc
    simp [hfield c hc]
  rw [inBrackets?, Cursor.part?_behind hpart (by decide)]
  show (Cursor.part? (Cursor.next (.behind _ _ _)) _ >>= _) = _
  rw [Cursor.next_behind, Cursor.part?_behind hpart' (by decide)]
  show (fieldTest? field >>= _) = _
  congr 1
  funext test
  show (if field = [] then none else afterBrackets? _ (.next (.next (.behind _ _ _)))) = _
  rw [if_neg hne, Cursor.next_behind, Cursor.next_behind]
  exact h.read _ _

/-- Brackets end with the closing one. -/
theorem Wording.getLast?_bracketsText {brackets : Option (List Char × Option (List Char))}
    (h : brackets ≠ none) : (bracketsText brackets).getLast? = some ']' := by
  obtain _ | ⟨title, _ | field⟩ := brackets
  · exact absurd rfl h
  · rw [bracketsText, ← List.cons_append, List.getLast?_append]
    rfl
  · rw [bracketsText, ← List.cons_append, List.getLast?_append, ← List.cons_append,
      List.getLast?_append]
    rfl

/-- An opening is cut off at the first equals sign or bracket, and what follows is read by that. -/
theorem ofChars?_of_start {text opening rest : List Char} {stop : Char}
    (hstart : Cursor.start text = .behind [] (opening ++ stop :: rest) back)
    (hne : opening ≠ []) (hhead : ∀ c more, opening = c :: more → isOpening c = true)
    (hopening : ∀ c ∈ opening, c ≠ '=' ∧ c ≠ '[') (hstop : (stop == '=' || stop == '[') = true) :
    ofChars? text =
      if stop = '=' then
        ((Cursor.behind opening (stop :: rest) back).next.remainder?.bind depthOrAll?).map
          (⟨⟨opening, none, none⟩, ·⟩)
      else inBrackets? opening (Cursor.behind opening (stop :: rest) back).next := by
  obtain ⟨first, more, rfl⟩ := List.exists_cons_of_ne_nil hne
  have hfirst := hhead first more rfl
  have hpart : ∀ c ∈ first :: more, (c == '=' || c == '[') = false := by
    intro c hc
    simp [hopening c hc]
  have hany : (first :: more ++ stop :: rest).any (fun c => c == '=' || c == '[') = true :=
    List.any_eq_true.2 ⟨stop, by simp, hstop⟩
  have hrest : (Cursor.start text).rest = first :: more ++ stop :: rest := by
    rw [hstart]
    rfl
  unfold ofChars?
  dsimp only
  split
  · next h =>
    rw [hrest] at h
    cases h
  · next h =>
    rw [hrest] at h
    exact absurd (List.cons_eq_cons.1 h).1 (hopening first List.mem_cons_self).2
  · next h =>
    rw [hrest] at h ⊢
    obtain ⟨rfl, -⟩ := List.cons_eq_cons.1 h
    rw [hfirst, hany, hstart, Cursor.part?_behind hpart hstop]
    show (if some stop = some '=' then _ else _) = _
    simp only [Option.some.injEq]
    rfl

section Clear

variable {w : Wording} (hw : w.IsClear) (hends : Ends w.level core back)

include hw hends

/-- The reading of a clear wording begins at its first character and ends at its last one. -/
theorem start_text :
    Cursor.start w.text =
      .behind [] (w.opening ++ (Wording.bracketsText w.brackets ++ core)) back := by
  have htext : w.text = w.opening ++ (Wording.bracketsText w.brackets ++ core) ++ back := by
    rw [Wording.text, ← hends.append_eq, List.append_assoc, List.append_assoc]
  rw [htext]
  apply Cursor.start_append hends.isBlank
  · intro c hc
    cases hopening : w.opening with
    | nil =>
      cases hbrackets : w.brackets with
      | none => exact absurd hopening (hw.target hbrackets).1
      | some inner =>
        obtain ⟨title, _ | field⟩ := inner
        all_goals
          rw [hopening, hbrackets] at hc
          obtain rfl : '[' = c := Option.some.inj hc
          decide
    | cons first more =>
      rw [hopening] at hc
      obtain rfl : first = c := Option.some.inj hc
      exact isBlank_of_isOpening (hw.head first more hopening)
  · intro c hc
    rw [List.getLast?_append, List.getLast?_append] at hc
    rcases hends.cases with ⟨hlevel, rfl⟩ | ⟨more, rfl⟩
    · have hbrackets : w.brackets ≠ none := fun h => (hw.target h).2 hlevel
      rw [Wording.getLast?_bracketsText hbrackets] at hc
      obtain rfl : ']' = c := Option.some.inj hc
      decide
    · refine hends.getLast c ?_
      rw [List.getLast?_eq_some_getLast (List.cons_ne_nil '=' more)] at hc ⊢
      exact hc

/-- Behind the opening of a clear wording its brackets are read, and its level. -/
theorem inBrackets?_text (front : List Char) {inner : List Char × Option (List Char)}
    (hbrackets : w.brackets = some inner) :
    inBrackets? w.opening
        (Cursor.behind front (Wording.bracketsText w.brackets ++ core) back).next =
      w.directive? := by
  obtain ⟨title, _ | field⟩ := inner
  · have htitle := hw.title title none hbrackets
    rw [hbrackets, Wording.bracketsText, List.cons_append, Cursor.next_behind, List.append_assoc,
      Wording.directive?, Wording.scope?, hbrackets]
    exact inBrackets?_title hends htitle
  · have htitle := hw.title title (some field) hbrackets
    obtain ⟨hne, hfield⟩ := hw.field title field hbrackets
    rw [hbrackets, Wording.bracketsText, List.cons_append, Cursor.next_behind, List.append_assoc,
      List.cons_append, List.append_assoc, Wording.directive?, Wording.scope?, hbrackets]
    refine (inBrackets?_field hends htitle hfield hne).trans ?_
    show _ = ((fieldTest? field).map _).bind _
    rw [Option.bind_map]
    rfl

end Clear

/-- **Reading a wording.** A clear wording is read to what its parts say, or refused if its field or
its level cannot be read. -/
theorem ofChars?_text {w : Wording} (hw : w.IsClear) : ofChars? w.text = w.directive? := by
  obtain ⟨core, back, hends⟩ := exists_ends w.level
  have hstart := start_text hw hends
  cases hbrackets : w.brackets with
  | none =>
    obtain ⟨hne, hlevel⟩ := hw.target hbrackets
    obtain ⟨rest, rfl⟩ : ∃ rest, core = '=' :: rest :=
      hends.cases.resolve_left fun h => hlevel h.1
    rw [hbrackets] at hstart
    rw [ofChars?_of_start hstart hne hw.head hw.opening rfl, if_pos rfl, Wording.directive?,
      Wording.scope?, hbrackets]
    exact hends.read w.opening ⟨w.opening, none, none⟩
  | some inner =>
    obtain ⟨rest, hrest⟩ : ∃ rest, Wording.bracketsText w.brackets ++ core = '[' :: rest := by
      obtain ⟨title, _ | field⟩ := inner <;> rw [hbrackets] <;> exact ⟨_, rfl⟩
    have hread := inBrackets?_text hw hends w.opening hbrackets
    rw [hrest] at hstart hread
    by_cases hopening : w.opening = []
    · rw [hopening] at hstart hread
      rw [ofChars?, hstart]
      exact hread
    · rw [ofChars?_of_start hstart hopening hw.head hw.opening rfl]
      exact hread

example :
    ofChars? "library[Signing\x7bparties=3\x7d]=Warn".toList =
      some ⟨⟨"library".toList, some "Signing".toList, some ("parties".toList, .equals 3)⟩,
        Level.warn.rank⟩ := by
  decide +kernel

end Directive

/-- A filter is read from clear wordings with commas between them, less those that are refused. -/
theorem Filter.ofString_texts {ws : List Directive.Wording}
    (h : ∀ w ∈ ws, w.IsClear ∧ ',' ∉ w.text) :
    ofString (String.ofList ([','].intercalate (ws.map (·.text)))) =
      ws.filterMap (·.directive?) := by
  by_cases hne : ws = []
  · subst hne
    rfl
  · have hcomma : ∀ text ∈ ws.map (·.text), ',' ∉ text := by
      intro text htext
      obtain ⟨w, hw, rfl⟩ := List.mem_map.1 htext
      exact (h w hw).2
    rw [ofString, String.toList_ofList, parts_intercalate hcomma (by simpa using hne),
      List.filterMap_map]
    exact List.filterMap_congr fun w hw => Directive.ofChars?_text (h w hw).1

end JointSchnorr.Journal
