import Mathlib
import JointSchnorr.Text.Blank
import JointSchnorr.Text.Letter
import JointSchnorr.Text.Number
import JointSchnorr.Text.Width

/-!
# Cutting and reading texts

A text can be cut at two widths exactly if characters end at both of them, and what is cut out
stands there (`slice?_eq_some_iff`). No letter and no numeral is a blank, and a text is trimmed to
what is left of it without blanks around (`trim_append`). A number is read from its decimal digits,
behind any zeros and behind a plus sign or not, and from no other text (`number?_eq_some_iff`).
-/

namespace JointSchnorr.Text

/-! ## Widths -/

theorem width_append (s t : List Char) : width (s ++ t) = width s + width t := by
  induction s with
  | nil => rw [List.nil_append, width, Nat.zero_add]
  | cons c s ih => rw [List.cons_append, width, width, ih, Nat.add_assoc]

/-- The width of a text is the count of the bytes of its encoding. -/
theorem width_eq_utf8ByteSize (text : List Char) :
    width text = (String.ofList text).utf8ByteSize := by
  rw [String.utf8ByteSize_ofList]
  induction text with
  | nil => rfl
  | cons c text ih => rw [width, ih, String.utf8Len_cons, Nat.add_comm]

variable {n first last : Nat} {text part rest : List Char}

theorem dropWidth?_eq_some_iff :
    dropWidth? n text = some rest ↔ ∃ front, text = front ++ rest ∧ width front = n := by
  constructor
  · intro h
    induction text generalizing n with
    | nil =>
      cases n with
      | zero =>
        obtain rfl := Option.some.inj h
        exact ⟨[], rfl, rfl⟩
      | succ n => cases h
    | cons c text ih =>
      cases n with
      | zero =>
        obtain rfl := Option.some.inj h
        exact ⟨[], rfl, rfl⟩
      | succ n =>
        simp only [dropWidth?] at h
        split at h
        · next hc =>
          obtain ⟨front, rfl, hfront⟩ := ih h
          exact ⟨c :: front, rfl, by rw [width, hfront]; omega⟩
        · cases h
  · rintro ⟨front, rfl, rfl⟩
    exact dropWidth?_append front rest

theorem takeWidth?_eq_some_iff :
    takeWidth? n text = some part ↔ ∃ rest, text = part ++ rest ∧ width part = n := by
  constructor
  · intro h
    induction text generalizing n part with
    | nil =>
      cases n with
      | zero =>
        obtain rfl := Option.some.inj h
        exact ⟨[], rfl, rfl⟩
      | succ n => cases h
    | cons c text ih =>
      cases n with
      | zero =>
        obtain rfl := Option.some.inj h
        exact ⟨c :: text, rfl, rfl⟩
      | succ n =>
        simp only [takeWidth?] at h
        split at h
        · next hc =>
          obtain ⟨part, hpart, rfl⟩ := Option.map_eq_some_iff.1 h
          obtain ⟨rest, rfl, hwidth⟩ := ih hpart
          exact ⟨rest, rfl, by rw [width, hwidth]; omega⟩
        · cases h
  · rintro ⟨rest, rfl, rfl⟩
    exact takeWidth?_append part rest

/-- A text is cut between characters only, and what stands between the cuts is the part. -/
theorem slice?_eq_some_iff (h : first ≤ last) :
    slice? text first last = some part ↔
      ∃ front rest, text = front ++ part ++ rest ∧ width front = first ∧
        width (front ++ part) = last := by
  rw [slice?, Option.bind_eq_some_iff]
  constructor
  · rintro ⟨behind, hdrop, htake⟩
    obtain ⟨front, rfl, hfront⟩ := dropWidth?_eq_some_iff.1 hdrop
    obtain ⟨rest, rfl, hpart⟩ := takeWidth?_eq_some_iff.1 htake
    refine ⟨front, rest, (List.append_assoc front part rest).symm, hfront, ?_⟩
    rw [width_append]
    omega
  · rintro ⟨front, rest, rfl, hfront, hpart⟩
    rw [width_append] at hpart
    refine ⟨part ++ rest, dropWidth?_eq_some_iff.2 ⟨front, ?_, hfront⟩,
      takeWidth?_eq_some_iff.2 ⟨rest, rfl, by omega⟩⟩
    exact List.append_assoc front part rest

/-! ## Ranges -/

/-- No character is in two tables whose ranges are apart. -/
theorem inRanges_eq_false {ranges others : List (Nat × Nat)} {c : Char}
    (hapart : ∀ r ∈ ranges, ∀ o ∈ others, r.2 < o.1 ∨ o.2 < r.1)
    (h : inRanges ranges c = true) : inRanges others c = false := by
  simp only [inRanges, List.any_eq_true, Bool.and_eq_true, decide_eq_true_eq] at h
  obtain ⟨r, hr, hfirst, hlast⟩ := h
  rw [inRanges, List.any_eq_false]
  intro o ho
  have := hapart r hr o ho
  simp only [Bool.and_eq_true, decide_eq_true_eq]
  omega

theorem isBlank_of_isLetterOrNumeral {c : Char} (h : isLetterOrNumeral c = true) :
    isBlank c = false := by
  rcases Bool.or_eq_true_iff.1 h with h | h
  · exact inRanges_eq_false (by decide +kernel) h
  · exact inRanges_eq_false (by decide +kernel) h

/-! ## Blanks -/

/-- A text with no blank at either end is what is left of it between blanks. -/
theorem trim_append {front back : List Char} (hfront : ∀ c ∈ front, isBlank c = true)
    (hback : ∀ c ∈ back, isBlank c = true) (hhead : ∀ c ∈ text.head?, isBlank c = false)
    (hlast : ∀ c ∈ text.getLast?, isBlank c = false) : trim (front ++ (text ++ back)) = text := by
  have hback' : ∀ c ∈ back.reverse, isBlank c = true := fun c hc => hback c (List.mem_reverse.1 hc)
  cases text with
  | nil =>
    have hblank : (front ++ ([] ++ back)).dropWhile isBlank = [] := by
      rw [List.nil_append, List.dropWhile_append_of_pos hfront]
      exact List.dropWhile_eq_nil_iff.2 hback
    rw [trim, hblank]
    rfl
  | cons c text =>
    have hstart : (c :: text ++ back).dropWhile isBlank = c :: text ++ back :=
      List.dropWhile_cons_of_neg (by simp [hhead c rfl])
    have hend : (c :: text).reverse.dropWhile isBlank = (c :: text).reverse := by
      have h := (List.rdropWhile_eq_self_iff (p := isBlank) (l := c :: text)).2 fun hne => by
        simp [hlast _ (List.getLast?_eq_some_getLast hne)]
      rw [← List.reverse_inj, List.reverse_reverse]
      exact h
    rw [trim, List.dropWhile_append_of_pos hfront, hstart, List.reverse_append,
      List.dropWhile_append_of_pos hback', hend, List.reverse_reverse]

/-! ## Numbers -/

theorem digitChar_of_isDigit {c : Char} (h : c.isDigit = true) :
    ∃ d < 10, c = Nat.digitChar d ∧ c.toNat - '0'.toNat = d := by
  have hlow : 48 ≤ c.toNat ∧ c.toNat ≤ 57 := by
    simpa [Char.isDigit, UInt32.le_iff_toNat_le] using h
  have hc : c = Char.ofNat c.toNat := (Char.ofNat_toNat c).symm
  obtain ⟨hlow, hhigh⟩ := hlow
  refine ⟨c.toNat - 48, by omega, ?_, rfl⟩
  rw [hc]
  generalize c.toNat = code at *
  interval_cases code <;> rfl

theorem isDigits_iff : isDigits text = true ↔ text ≠ [] ∧ ∀ c ∈ text, c.isDigit = true := by
  simp [isDigits]

theorem ofDigitChars_concat (text : List Char) (c : Char) :
    Nat.ofDigitChars 10 (text ++ [c]) 0 =
      10 * Nat.ofDigitChars 10 text 0 + (c.toNat - '0'.toNat) := by
  rw [Nat.ofDigitChars_append]
  rfl

/-- Zeros in front of digits count for nothing. -/
theorem ofDigitChars_zeros (k : Nat) (text : List Char) :
    Nat.ofDigitChars 10 (List.replicate k '0' ++ text) 0 = Nat.ofDigitChars 10 text 0 := by
  induction k with
  | zero => rfl
  | succ k ih => rw [List.replicate_succ, List.cons_append, ← ih]; rfl

/-- Texts of digits are the digits of their numbers behind zeros. -/
theorem exists_zeros_of_isDigits (h : isDigits text = true) :
    ∃ k, text = List.replicate k '0' ++ Nat.toDigits 10 (Nat.ofDigitChars 10 text 0) := by
  -- the last digit is the remainder by ten, and those before it are the quotient behind zeros
  induction text using List.reverseRecOn with
  | nil => cases h
  | append_singleton text c ih =>
    obtain ⟨-, hdigits⟩ := isDigits_iff.1 h
    obtain ⟨htext, hc⟩ := List.forall_mem_append.1 hdigits
    obtain ⟨d, hd, rfl, hvalue⟩ := digitChar_of_isDigit (hc c List.mem_cons_self)
    rw [ofDigitChars_concat, hvalue]
    by_cases hne : text = []
    · subst hne
      refine ⟨0, ?_⟩
      show [Nat.digitChar d] = Nat.toDigits 10 (0 + d)
      rw [Nat.zero_add, Nat.toDigits_of_lt_base hd]
    · obtain ⟨k, hk⟩ := ih (isDigits_iff.2 ⟨hne, htext⟩)
      by_cases hzero : Nat.ofDigitChars 10 text 0 = 0
      · rw [hzero] at hk ⊢
        refine ⟨k + 1, ?_⟩
        rw [Nat.mul_zero, Nat.zero_add, Nat.toDigits_of_lt_base hd, hk, List.replicate_succ']
        rfl
      · refine ⟨k, ?_⟩
        generalize Nat.ofDigitChars 10 text 0 = n at hk hzero ⊢
        have hquotient : (10 * n + d) / 10 = n := by omega
        have hremainder : (10 * n + d) % 10 = d := by omega
        rw [Nat.toDigits_of_base_le (by omega) (by omega), hquotient, hremainder,
          ← List.append_assoc, ← hk]

theorem isDigits_spelling (k n : Nat) :
    isDigits (List.replicate k '0' ++ Nat.toDigits 10 n) = true := by
  refine isDigits_iff.2 ⟨by simp [Nat.toDigits_ne_nil], List.forall_mem_append.2 ⟨?_, ?_⟩⟩
  · intro c hc
    rw [List.eq_of_mem_replicate hc]
    rfl
  · intro c hc
    exact Nat.isDigit_of_mem_toDigits (by decide) (by decide) hc

/-- Reads a number without a sign. -/
def unsignedNumber? (digits : List Char) : Option Nat :=
  if isDigits digits then
    if Nat.ofDigitChars 10 digits 0 < 1 <<< 64 then some (Nat.ofDigitChars 10 digits 0) else none
  else none

theorem unsignedNumber?_eq_some_iff :
    unsignedNumber? text = some n ↔
      n < 2 ^ 64 ∧ ∃ k, text = List.replicate k '0' ++ Nat.toDigits 10 n := by
  unfold unsignedNumber?
  constructor
  · intro h
    split at h
    · next hdigits =>
      split at h
      · next hsmall =>
        obtain rfl := Option.some.inj h
        exact ⟨hsmall, exists_zeros_of_isDigits hdigits⟩
      · cases h
    · cases h
  · rintro ⟨hsmall, k, rfl⟩
    have hvalue : Nat.ofDigitChars 10 (List.replicate k '0' ++ Nat.toDigits 10 n) 0 = n := by
      rw [ofDigitChars_zeros, Nat.ofDigitChars_toDigits (by decide) (by decide)]
    rw [if_pos (isDigits_spelling k n), hvalue]
    exact if_pos hsmall

theorem number?_plus (digits : List Char) : number? ('+' :: digits) = unsignedNumber? digits := rfl

theorem number?_of_head_ne (h : text.head? ≠ some '+') : number? text = unsignedNumber? text := by
  unfold number?
  split
  · exact absurd rfl h
  · rfl

/-- **Spellings of numbers.** A number is read from its decimal digits, behind any zeros and behind
a plus sign or not, and from no other text. -/
theorem number?_eq_some_iff :
    number? text = some n ↔ n < 2 ^ 64 ∧ ∃ k,
      text = List.replicate k '0' ++ Nat.toDigits 10 n ∨
      text = '+' :: (List.replicate k '0' ++ Nat.toDigits 10 n) := by
  by_cases hplus : text.head? = some '+'
  · obtain ⟨digits, rfl⟩ := List.head?_eq_some_iff.1 hplus
    have hsign (k : Nat) : '+' :: digits ≠ List.replicate k '0' ++ Nat.toDigits 10 n := by
      intro h
      have hdigits := isDigits_spelling k n
      rw [← h] at hdigits
      exact absurd ((isDigits_iff.1 hdigits).2 '+' List.mem_cons_self) (by decide)
    simp [number?_plus, unsignedNumber?_eq_some_iff, hsign]
  · have hsign (rest : List Char) : text ≠ '+' :: rest := by
      rintro rfl
      exact hplus rfl
    simp [number?_of_head_ne hplus, unsignedNumber?_eq_some_iff, hsign]

end JointSchnorr.Text
