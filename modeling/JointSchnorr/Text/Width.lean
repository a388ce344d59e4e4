/-!
# Widths

The width of a text is the count of its bytes in UTF-8. A text is cut at places given by widths,
and only between characters.
-/

namespace JointSchnorr.Text

/-- The count of the bytes of a text. -/
def width : List Char → Nat
  | [] => 0
  | c :: text => c.utf8Size + width text

/-- A text without its first characters of some width together. -/
def dropWidth? : Nat → List Char → Option (List Char)
  | 0, text => some text
  | _, [] => none
  | n, c :: text => if c.utf8Size ≤ n then dropWidth? (n - c.utf8Size) text else none

/-- The first characters of a text, of some width together. -/
def takeWidth? : Nat → List Char → Option (List Char)
  | 0, _ => some []
  | _, [] => none
  | n, c :: text =>
    if c.utf8Size ≤ n then (takeWidth? (n - c.utf8Size) text).map (c :: ·) else none

/-- What stands in a text from one width up to another. -/
def slice? (text : List Char) (first last : Nat) : Option (List Char) :=
  (dropWidth? first text).bind (takeWidth? (last - first))

theorem dropWidth?_append (s t : List Char) : dropWidth? (width s) (s ++ t) = some t := by
  induction s with
  | nil => cases t <;> rfl
  | cons c s ih =>
    obtain ⟨n, hn⟩ := Nat.exists_eq_succ_of_ne_zero (Nat.ne_of_gt c.utf8Size_pos)
    simp only [List.cons_append, width, hn, Nat.succ_add, dropWidth?]
    rw [if_pos (by omega), show n + width s + 1 - (n + 1) = width s by omega, ih]

theorem takeWidth?_append (s t : List Char) : takeWidth? (width s) (s ++ t) = some s := by
  induction s with
  | nil => cases t <;> rfl
  | cons c s ih =>
    obtain ⟨n, hn⟩ := Nat.exists_eq_succ_of_ne_zero (Nat.ne_of_gt c.utf8Size_pos)
    simp only [List.cons_append, width, hn, Nat.succ_add, takeWidth?]
    rw [if_pos (by omega), show n + width s + 1 - (n + 1) = width s by omega, ih]
    rfl

end JointSchnorr.Text
