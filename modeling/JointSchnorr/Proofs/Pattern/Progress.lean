import Mathlib
import JointSchnorr.Pattern

/-!
# Reading a pattern from end to end

Whatever reads a part of a pattern leaves an end of what it was given, and each step by itself takes
at least one character (`Brackets.suffix_of_step?`, `Reading.suffix_of_step?`). So the readers that
go on to the end never stop for want of progress: they make one step, and what it has left is read
in the same way (`Brackets.read?_eq`, `Reading.finish?_eq`).
-/

namespace JointSchnorr.Pattern

variable {m : Modes} {text rest : List Char}

/-! ## Blanks and signs -/

theorem skipBlanks_suffix (inComment : Bool) (text : List Char) :
    Modes.skipBlanks inComment text <:+ text := by
  induction text generalizing inComment with
  | nil => cases inComment <;> exact List.suffix_rfl
  | cons c text ih =>
    cases inComment with
    | true => exact (ih _).trans (List.suffix_cons c text)
    | false =>
      rw [Modes.skipBlanks]
      split
      · exact (ih true).trans (List.suffix_cons c text)
      · split
        · exact (ih false).trans (List.suffix_cons c text)
        · exact List.suffix_rfl

theorem skip_suffix (m : Modes) (text : List Char) : m.skip text <:+ text := by
  unfold Modes.skip
  split
  · exact skipBlanks_suffix false text
  · exact List.suffix_rfl

theorem dropWhile_suffix_of_eq {p : Char → Bool} (front : List Char)
    (h : text.dropWhile p = front ++ rest) : rest <:+ text :=
  (h ▸ List.suffix_append front rest).trans (List.dropWhile_suffix p)

theorem suffix_of_some_eq {α : Type} {a b : α} (h : some (a, text) = some (b, rest)) :
    rest <:+ text := by
  obtain ⟨-, rfl⟩ := Prod.mk.inj (Option.some.inj h)
  exact List.suffix_rfl

/-- What is made of an answer takes nothing of the text. -/
theorem suffix_of_map_eq {α β : Type} {answer : Option α} {f : α → β} {b : β}
    (h : answer.map (fun a => (f a, text)) = some (b, rest)) : rest <:+ text := by
  obtain ⟨a, -, h⟩ := Option.map_eq_some_iff.1 h
  exact suffix_of_some_eq (congrArg some h)

namespace Sign

variable {s : Sign} {count n n' : Nat}

theorem suffix_of_hexNumber? (h : hexNumber? m count n text = some (n', rest)) :
    rest <:+ text := by
  induction count generalizing n text with
  | zero =>
    exact suffix_of_some_eq h
  | succ count ih =>
    cases text with
    | nil => cases h
    | cons c text =>
      obtain ⟨d, -, h⟩ := Option.bind_eq_some_iff.1 h
      exact (ih h).trans ((skip_suffix m text).trans (List.suffix_cons c text))

theorem suffix_of_hexLiteral? (h : hexLiteral? m count text = some (s, rest)) :
    rest <:+ text := by
  unfold hexLiteral? at h
  split at h
  · next n text' hnumber =>
    split at h
    · exact (suffix_of_some_eq h).trans
        ((suffix_of_hexNumber? hnumber).trans (skip_suffix m text))
    · cases h
  · cases h

theorem suffix_of_escaped? (h : escaped? m text = some (s, rest)) : rest <:+ text := by
  cases text with
  | nil => cases h
  | cons c text =>
    have hback : rest <:+ text := by
      simp only [escaped?] at h
      split at h
      case h_1 => exact suffix_of_hexLiteral? h
      case h_2 => exact suffix_of_hexLiteral? h
      case h_3 => exact suffix_of_hexLiteral? h
      all_goals grind
    exact hback.trans (List.suffix_cons c text)

end Sign

/-! ## Brackets -/

namespace Brackets

theorem suffix_of_namedClass? {isNegated : Bool}
    (h : namedClass? text = some (isNegated, rest)) : rest <:+ text := by
  unfold namedClass? at h
  split at h
  · next text =>
    have hinner : (if text.head? = some '^' then text.drop 1 else text) <:+ text := by
      split
      · exact List.drop_suffix 1 text
      · exact List.suffix_rfl
    dsimp only at h
    generalize (if text.head? = some '^' then text.drop 1 else text) = inner at h hinner
    split at h
    · next rest' hname =>
      split at h
      · obtain ⟨-, rfl⟩ := Prod.mk.inj (Option.some.inj h)
        have hrest : rest' <:+ inner := dropWhile_suffix_of_eq [':', ']'] hname
        exact (hrest.trans hinner).trans (List.suffix_cons ':' text)
      · cases h
    · cases h
  · cases h

theorem suffix_of_opening? (h : opening? m text = some rest) : rest <:+ text := by
  have hskip := skip_suffix m text
  unfold opening? at h
  split at h
  · next text' hopening =>
    rw [hopening] at hskip
    split at h
    · obtain rfl := Option.some.inj h
      exact (List.suffix_cons '^' text').trans hskip
    · cases h
  · obtain rfl := Option.some.inj h
    exact hskip

theorem suffix_of_sign? {s : Sign} {c : Char} (h : sign? m (c :: text) = some (s, rest)) :
    rest <:+ text := by
  unfold sign? at h
  split at h
  · next hnil => cases hnil
  · next text' htext =>
    obtain ⟨-, rfl⟩ := List.cons_eq_cons.1 htext
    exact Sign.suffix_of_escaped? h
  · next c' text' _ htext =>
    obtain ⟨-, rfl⟩ := List.cons_eq_cons.1 htext
    exact suffix_of_some_eq h

theorem suffix_of_member? {c : Char} (h : member? m (c :: text) = some rest) : rest <:+ text := by
  obtain ⟨⟨first, text'⟩, hfirst, h⟩ := Option.bind_eq_some_iff.1 h
  obtain ⟨-, -, h⟩ := Option.bind_eq_some_iff.1 h
  have hskip := (skip_suffix m text').trans (suffix_of_sign? hfirst)
  dsimp only at h
  split at h
  · cases h
  · next range hrange =>
    rw [hrange] at hskip
    split at h
    · obtain rfl := Option.some.inj h
      exact hskip
    · obtain ⟨⟨last, rest'⟩, hlast, h⟩ := Option.bind_eq_some_iff.1 h
      obtain ⟨-, -, h⟩ := Option.bind_eq_some_iff.1 h
      have hrest : rest' <:+ m.skip range := by
        cases hnext : m.skip range with
        | nil =>
          rw [hnext] at hlast
          cases hlast
        | cons d next =>
          rw [hnext] at hlast
          exact (suffix_of_sign? hlast).trans (List.suffix_cons d next)
      have hwhole := hrest.trans ((skip_suffix m range).trans
        ((List.suffix_cons '-' range).trans hskip))
      dsimp only at h
      split at h
      · split at h
        · obtain rfl := Option.some.inj h
          exact hwhole
        · cases h
      · cases h
  · obtain rfl := Option.some.inj h
    exact hskip

theorem suffix_of_step? {r : Reading} {o : Outcome} {c : Char}
    (h : step? m r (c :: text) = some (o, rest)) : rest <:+ text := by
  simp only [step?] at h
  split at h
  · split at h
    · cases h
    · exact suffix_of_some_eq h
  · split at h
    · split at h
      · next hclass =>
        split at h
        · exact (suffix_of_some_eq h).trans (suffix_of_namedClass? hclass)
        · cases h
      · obtain ⟨inner, hinner, h⟩ := Option.map_eq_some_iff.1 h
        obtain ⟨-, rfl⟩ := Prod.mk.inj h
        exact suffix_of_opening? hinner
    · split at h
      all_goals
        exact suffix_of_some_eq h
    · exact (suffix_of_some_eq h).trans (List.suffix_cons _ _)
    · exact (suffix_of_some_eq h).trans (List.suffix_cons _ _)
    · exact (suffix_of_some_eq h).trans (List.suffix_cons _ _)
    · obtain ⟨inner, hinner, h⟩ := Option.map_eq_some_iff.1 h
      obtain ⟨-, rfl⟩ := Prod.mk.inj h
      exact suffix_of_member? hinner

/-- A step takes at least one character of the text, blanks aside. -/
theorem suffix_of_step?_skip {r : Reading} {o : Outcome}
    (h : step? m r (m.skip text) = some (o, rest)) :
    rest <:+ text ∧ rest.length < text.length := by
  have hskip := skip_suffix m text
  cases htext : m.skip text with
  | nil =>
    rw [htext] at h
    cases h
  | cons c text' =>
    rw [htext] at h hskip
    have hrest := suffix_of_step? h
    exact ⟨hrest.trans ((List.suffix_cons c text').trans hskip),
      hrest.length_le.trans_lt hskip.length_le⟩

/-- What a step leaves is read on. -/
theorem read?_eq (m : Modes) (r : Reading) (text : List Char) :
    read? m r text = match step? m r (m.skip text) with
      | some (.closed height, rest) => some (height, rest)
      | some (.going r, rest) => read? m r rest
      | none => none := by
  rw [read?]
  cases hstep : step? m r (m.skip text) with
  | none => rfl
  | some result =>
    obtain ⟨o, rest⟩ := result
    cases o with
    | closed height => rfl
    | going r' => exact if_pos (suffix_of_step?_skip hstep).2

theorem suffix_of_read? {r : Reading} {height : Nat} (h : read? m r text = some (height, rest)) :
    rest <:+ text := by
  induction hn : text.length using Nat.strong_induction_on generalizing r text with
  | _ n ih =>
    rw [read?_eq] at h
    split at h
    · next hstep =>
      obtain ⟨-, rfl⟩ := Prod.mk.inj (Option.some.inj h)
      exact (suffix_of_step?_skip hstep).1
    · next hstep =>
      obtain ⟨hsuffix, hlt⟩ := suffix_of_step?_skip hstep
      exact (ih _ (hn ▸ hlt) h rfl).trans hsuffix
    · cases h

theorem suffix_of_ofChars? {height : Nat} (h : ofChars? m text = some (height, rest)) :
    rest <:+ text := by
  obtain ⟨inner, hinner, h⟩ := Option.bind_eq_some_iff.1 h
  exact (suffix_of_read? h).trans (suffix_of_opening? hinner)

end Brackets

/-! ## Rows and groups -/

namespace Reading

variable {r r' : Reading}

theorem suffix_of_namedGroup? (h : r.namedGroup? text = some (r', rest)) : rest <:+ text := by
  simp only [namedGroup?] at h
  split at h
  · next c rest' hname =>
    split at h
    · exact (suffix_of_some_eq h).trans (dropWhile_suffix_of_eq [c] hname)
    · cases h
  · cases h

theorem suffix_of_modes? {seen : List Char} (h : r.modes? m seen text = some (r', rest)) :
    rest <:+ text := by
  induction text generalizing m seen with
  | nil => cases h
  | cons c text ih =>
    refine List.IsSuffix.trans ?_ (List.suffix_cons c text)
    simp only [modes?] at h
    split at h
    · split at h
      · cases h
      · exact suffix_of_some_eq h
    · split at h
      · split at h
        · cases h
        · exact suffix_of_some_eq h
      · split at h
        · cases h
        · split at h
          · exact ih h
          · obtain ⟨m', -, h⟩ := Option.bind_eq_some_iff.1 h
            exact ih h

theorem suffix_of_group? (h : r.group? text = some (r', rest)) : rest <:+ text := by
  have hskip := skip_suffix r.modes text
  unfold group? at h
  split at h
  · next hname =>
    rw [hname] at hskip
    exact (suffix_of_namedGroup? h).trans ((List.suffix_append ['?', 'P', '<'] _).trans hskip)
  · next hname =>
    rw [hname] at hskip
    exact (suffix_of_namedGroup? h).trans ((List.suffix_append ['?', '<'] _).trans hskip)
  · next hmodes =>
    rw [hmodes] at hskip
    exact (suffix_of_modes? h).trans ((List.suffix_cons '?' _).trans hskip)
  · exact (suffix_of_some_eq h).trans hskip

theorem suffix_of_step? {c : Char} (h : r.step? (c :: text) = some (r', rest)) :
    rest <:+ text := by
  unfold step? at h
  split at h
  case h_1 hnil => cases hnil
  case h_2 text' htext =>
    obtain ⟨-, rfl⟩ := List.cons_eq_cons.1 htext
    exact suffix_of_group? h
  case h_3 text' htext =>
    obtain ⟨-, rfl⟩ := List.cons_eq_cons.1 htext
    exact suffix_of_map_eq h
  case h_4 text' htext =>
    obtain ⟨-, rfl⟩ := List.cons_eq_cons.1 htext
    exact suffix_of_some_eq h
  case h_5 text' htext =>
    obtain ⟨-, rfl⟩ := List.cons_eq_cons.1 htext
    obtain ⟨⟨height, rest'⟩, hbrackets, hr⟩ := Option.map_eq_some_iff.1 h
    obtain ⟨-, rfl⟩ := Prod.mk.inj hr
    exact Brackets.suffix_of_ofChars? hbrackets
  case h_6 text' htext =>
    obtain ⟨-, rfl⟩ := List.cons_eq_cons.1 htext
    obtain ⟨⟨s, rest'⟩, hsign, h⟩ := Option.bind_eq_some_iff.1 h
    exact (suffix_of_map_eq h).trans (Sign.suffix_of_escaped? hsign)
  case h_10 => cases h
  case h_11 c' text' _ _ _ _ _ _ _ _ _ htext =>
    obtain ⟨-, rfl⟩ := List.cons_eq_cons.1 htext
    split at h
    · obtain ⟨row, -, hr⟩ := Option.map_eq_some_iff.1 h
      obtain ⟨-, rfl⟩ := Prod.mk.inj hr
      split
      · exact List.drop_suffix 1 text
      · exact List.suffix_rfl
    · exact suffix_of_map_eq h
  -- a point or an edge
  all_goals
    next text' htext =>
    obtain ⟨-, rfl⟩ := List.cons_eq_cons.1 htext
    exact suffix_of_map_eq h

/-- What a step leaves is read on. -/
theorem finish?_eq (r : Reading) (text : List Char) :
    r.finish? text = match r.modes.skip text with
      | [] => some r
      | c :: text => (r.step? (c :: text)).bind fun (r, rest) => r.finish? rest := by
  rw [finish?]
  cases htext : r.modes.skip text with
  | nil => rfl
  | cons c text' =>
    have hskip := skip_suffix r.modes text
    rw [htext] at hskip
    cases hstep : r.step? (c :: text') with
    | none => simp only [hstep, Option.bind_none]
    | some result =>
      obtain ⟨r', rest⟩ := result
      have hlt : rest.length < text.length :=
        (suffix_of_step? hstep).length_le.trans_lt hskip.length_le
      simp only [hstep, hlt, if_true, Option.bind_some]

end Reading

end JointSchnorr.Pattern
