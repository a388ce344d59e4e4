import Mathlib
import JointSchnorr.Proofs.Pattern.Progress

/-!
# Patterns in writing

Rows of plain characters, groups and alternatives are read to the heights that their parts have by
themselves (`finish?_text`), so a row in writing is a pattern exactly if its height is within the
bound (`isPattern_text`). Plain characters alone always are one (`isPattern_of_plain`), and groups
one in the other are as long as there are at most 250 of them (`isPattern_nestedGroups`).
-/

namespace JointSchnorr.Pattern

/-- Whether a character stands for itself wherever it is in a row. -/
def isPlain (c : Char) : Bool :=
  ! ['(', ')', '|', '[', '\\', '.', '^', '$', '\x7b', '?', '*', '+'].contains c

/-- Rows in writing, with plain characters and groups that are repeated some times over. -/
inductive Writing where
  | empty
  | char (before : Writing) (c : Char) (repeats : Nat)
  | group (before inner : Writing) (repeats : Nat)
  | alternate (before : Writing)

namespace Writing

/-- The text of a row. -/
def text : Writing → List Char
  | empty => []
  | char before c repeats => before.text ++ c :: List.replicate repeats '*'
  | group before inner repeats =>
    before.text ++ '(' :: (inner.text ++ ')' :: List.replicate repeats '*')
  | alternate before => before.text ++ ['|']

/-- What a row is read to. -/
def row : Writing → Row
  | empty => Row.empty
  | char before _ repeats => before.row.add repeats true
  | group before inner repeats => before.row.add (repeats + (1 + inner.row.height)) true
  | alternate before => before.row.alternate

/-- Whether the characters of a row are plain. -/
def IsPlain : Writing → Prop
  | empty => True
  | char before c _ => before.IsPlain ∧ isPlain c = true
  | group before inner _ => before.IsPlain ∧ inner.IsPlain
  | alternate before => before.IsPlain

end Writing

/-! ## Steps -/

namespace Reading

variable {r : Reading} {c : Char} {text rest : List Char}

/-- Where every character counts, the reading goes on by steps. -/
theorem finish?_cons (hmodes : r.modes = Modes.initial) (c : Char) (text : List Char) :
    r.finish? (c :: text) = (r.step? (c :: text)).bind fun (r, rest) => r.finish? rest := by
  rw [finish?_eq, hmodes]
  rfl

theorem step?_plain (hmodes : r.modes = Modes.initial) (hc : isPlain c = true) :
    r.step? (c :: text) = some (r.add 0, text) := by
  have hallowed : r.addSign? (.literal c false) = some (r.add 0) := by
    rw [addSign?, hmodes]
    rfl
  unfold step?
  split
  case h_11 c' text' _ _ _ _ _ _ _ _ _ htext =>
    obtain ⟨rfl, rfl⟩ := List.cons_eq_cons.1 htext
    rw [if_neg, hallowed]
    · rfl
    · rintro (rfl | rfl | rfl) <;> exact absurd hc (by decide)
  case h_1 htext => cases htext
  -- no other character that a step looks for is plain
  all_goals
    next htext =>
    obtain ⟨rfl, rfl⟩ := List.cons_eq_cons.1 htext
    exact absurd hc (by decide)

theorem step?_group (hmodes : r.modes = Modes.initial) (htext : text.head? ≠ some '?') :
    r.step? ('(' :: text) = some (r.openGroup Modes.initial, text) := by
  have hskip : r.modes.skip text = text := by
    rw [hmodes]
    rfl
  show r.group? text = _
  unfold group?
  rw [hskip]
  split
  · exact absurd rfl htext
  · exact absurd rfl htext
  · exact absurd rfl htext
  · rw [hmodes]

theorem step?_repeat {height : Nat} (htext : text.head? ≠ some '?') :
    (r.add height).step? ('*' :: text) = some (r.add (1 + height), text) := by
  simp [step?, htext, add, Row.add, Row.repeat?]

/-! ## Rows -/

theorem finish?_repeats (hmodes : r.modes = Modes.initial) (hrest : rest.head? ≠ some '?')
    (repeats height : Nat) :
    (r.add height).finish? (List.replicate repeats '*' ++ rest) =
      (r.add (repeats + height)).finish? rest := by
  induction repeats generalizing height with
  | zero => rw [Nat.zero_add]; rfl
  | succ repeats ih =>
    have hhead : (List.replicate repeats '*' ++ rest).head? ≠ some '?' := by
      cases repeats with
      | zero => exact hrest
      | succ repeats => simp [List.replicate_succ]
    rw [List.replicate_succ, List.cons_append, finish?_cons (r := r.add height) hmodes,
      step?_repeat hhead]
    show (r.add (1 + height)).finish? _ = _
    rw [ih, Nat.add_assoc, Nat.add_comm 1, ← Nat.add_assoc]

end Reading

namespace Writing

open Reading

variable {w : Writing} {rest : List Char}

/-- No row begins with a question mark. -/
theorem head?_text_append (hw : w.IsPlain) (hrest : rest.head? ≠ some '?') :
    (w.text ++ rest).head? ≠ some '?' := by
  induction w generalizing rest with
  | empty => exact hrest
  | char before c repeats ih =>
    rw [text, List.append_assoc, List.cons_append]
    refine ih hw.1 fun hc => ?_
    obtain rfl : c = '?' := Option.some.inj hc
    exact absurd hw.2 (by decide)
  | group before inner repeats ih =>
    rw [text, List.append_assoc, List.cons_append]
    exact ih hw.1 (by simp)
  | alternate before ih =>
    rw [text, List.append_assoc, List.cons_append]
    exact ih hw (by simp)

/-- A row in writing is read to what it stands for, and the reading goes on behind it. -/
theorem finish?_text (hw : w.IsPlain) (hrest : rest.head? ≠ some '?') (r : Reading)
    (hmodes : r.modes = Modes.initial) (hrow : r.row = Row.empty) :
    r.finish? (w.text ++ rest) = { r with row := w.row }.finish? rest := by
  induction w generalizing rest r with
  | empty => rw [row, ← hrow]; rfl
  | char before c repeats ih =>
    have hnext : (c :: (List.replicate repeats '*' ++ rest)).head? ≠ some '?' := by
      intro hc
      obtain rfl : c = '?' := Option.some.inj hc
      exact absurd hw.2 (by decide)
    rw [text, List.append_assoc, List.cons_append, ih hw.1 hnext r hmodes hrow,
      finish?_cons (r := { r with row := before.row }) hmodes,
      step?_plain (r := { r with row := before.row }) hmodes hw.2]
    exact finish?_repeats (r := { r with row := before.row }) hmodes hrest repeats 0
  | group before inner repeats ih ihinner =>
    rw [text, List.append_assoc, List.cons_append, List.append_assoc, List.cons_append,
      ih hw.1 (by simp) r hmodes hrow, finish?_cons (r := { r with row := before.row }) hmodes,
      step?_group (r := { r with row := before.row }) hmodes
        (head?_text_append hw.2 (by simp))]
    show ((openGroup { r with row := before.row } Modes.initial).finish? _) = _
    rw [ihinner hw.2 (by simp) _ rfl rfl, finish?_cons rfl]
    exact finish?_repeats (r := { r with row := before.row }) hmodes hrest repeats _
  | alternate before ih =>
    rw [text, List.append_assoc, List.cons_append, ih hw (by simp) r hmodes hrow,
      finish?_cons (r := { r with row := before.row }) hmodes]
    rfl

/-- **Depth.** A row in writing is a pattern exactly if it is no higher than a pattern may be. -/
theorem isPattern_text (hw : w.IsPlain) :
    isPattern w.text = decide (w.row.height ≤ maxHeight) := by
  have hread : Reading.start.finish? w.text = some { Reading.start with row := w.row } := by
    rw [← List.append_nil w.text, finish?_text hw (by simp) Reading.start rfl rfl, finish?_eq]
    rfl
  rw [isPattern, hread]
  rfl

/-! ## Rows of plain characters, and groups in groups -/

/-- The row of some characters. -/
def ofChars (text : List Char) : Writing := text.foldl (fun w c => .char w c 0) .empty

theorem ofChars_concat (text : List Char) (c : Char) :
    ofChars (text ++ [c]) = .char (ofChars text) c 0 := by
  rw [ofChars, List.foldl_append]
  rfl

theorem text_ofChars (text : List Char) : (ofChars text).text = text := by
  induction text using List.reverseRecOn with
  | nil => rfl
  | append_singleton text c ih => rw [ofChars_concat, Writing.text, ih]; rfl

theorem isPlain_ofChars {text : List Char} (h : ∀ c ∈ text, isPlain c = true) :
    (ofChars text).IsPlain := by
  induction text using List.reverseRecOn with
  | nil => trivial
  | append_singleton text c ih =>
    obtain ⟨htext, hc⟩ := List.forall_mem_append.1 h
    rw [ofChars_concat]
    exact ⟨ih htext, hc c List.mem_cons_self⟩

theorem row_ofChars (text : List Char) :
    (ofChars text).row = ⟨none, List.replicate text.length ⟨0, true⟩⟩ := by
  induction text using List.reverseRecOn with
  | nil => rfl
  | append_singleton text c ih =>
    rw [ofChars_concat, row, ih, List.length_append, List.length_singleton, List.replicate_succ]
    rfl

theorem foldl_max_replicate_zero (k : Nat) : (List.replicate k 0).foldl Nat.max 0 = 0 := by
  induction k with
  | zero => rfl
  | succ k ih => exact ih

theorem rowHeight_replicate_zero_le (k : Nat) : rowHeight (List.replicate k 0) ≤ 1 := by
  match k with
  | 0 => exact Nat.zero_le 1
  | 1 => exact Nat.zero_le 1
  | k + 2 =>
    show 1 + (List.replicate (k + 2) 0).foldl Nat.max 0 ≤ 1
    rw [foldl_max_replicate_zero]

/-- Groups one in the other, with nothing in the innermost one. -/
def nestedGroups : Nat → Writing
  | 0 => .empty
  | n + 1 => .group .empty (nestedGroups n) 0

theorem text_nestedGroups (n : Nat) :
    (nestedGroups n).text = List.replicate n '(' ++ List.replicate n ')' := by
  induction n with
  | zero => rfl
  | succ n ih =>
    rw [nestedGroups, text, ih, List.replicate_succ, List.replicate_succ']
    simp [text]

theorem isPlain_nestedGroups (n : Nat) : (nestedGroups n).IsPlain := by
  induction n with
  | zero => trivial
  | succ n ih => exact ⟨trivial, ih⟩

theorem height_nestedGroups (n : Nat) : (nestedGroups n).row.height = n := by
  induction n with
  | zero => rfl
  | succ n ih =>
    rw [nestedGroups, row, ih]
    show Nat.max 0 (0 + (1 + n)) = n + 1
    rw [Nat.zero_add, Nat.add_comm]
    exact Nat.zero_max (n + 1)

end Writing

/-- Any text of plain characters is a pattern. -/
theorem isPattern_of_plain {text : List Char} (h : ∀ c ∈ text, isPlain c = true) :
    isPattern text = true := by
  have hheight : (Writing.ofChars text).row.height ≤ 1 := by
    have hparts : (List.replicate text.length (Part.mk 0 true)).map (·.height) =
        List.replicate text.length 0 := List.map_replicate
    rw [Writing.row_ofChars]
    show Nat.max 0 (rowHeight ((List.replicate text.length (Part.mk 0 true)).map (·.height))) ≤ 1
    rw [hparts]
    exact Nat.max_le.2 ⟨Nat.zero_le 1, Writing.rowHeight_replicate_zero_le _⟩
  rw [← Writing.text_ofChars text, Writing.isPattern_text (Writing.isPlain_ofChars h),
    decide_eq_true_eq]
  exact hheight.trans (by decide)

/-- Groups one in the other are a pattern as long as there are at most 250 of them. -/
theorem isPattern_nestedGroups (n : Nat) :
    isPattern (List.replicate n '(' ++ List.replicate n ')') = decide (n ≤ 250) := by
  rw [← Writing.text_nestedGroups, Writing.isPattern_text (Writing.isPlain_nestedGroups n),
    Writing.height_nestedGroups]
  rfl

end JointSchnorr.Pattern
