import Mathlib
import JointSchnorr.Proofs.Wire.Format

/-!
# What is written in JSON is read back

The scan of a written number, of a name or of an array ends between two tokens, so what stands
behind is scanned as if it stood alone (`scan_digits`, `scan_name`). Therefore an array of bytes is
read back whatever follows it (`readBytes_writeBytes`).
-/

namespace JointSchnorr.Wire

namespace Token

/-! ## Numbers -/

theorem digit?_digitChar {d : Nat} (h : d < 10) : digit? (Nat.digitChar d) = some d := by
  interval_cases d <;> rfl

theorem start_digitChar {d : Nat} (h : d < 10) :
    start (Nat.digitChar d) = (.whole (some d) (d == 0), []) := by
  interval_cases d <;> rfl

/-- Behind the digits of a number the scan holds that number. -/
theorem scan_digits (n : Nat) (cs : List Char) :
    scan .idle (Nat.toDigits 10 n ++ cs) = scan (.whole (some n) (n == 0)) cs := by
  induction n using Nat.strong_induction_on generalizing cs with
  | _ n ih =>
    by_cases hn : n < 10
    · rw [Nat.toDigits_of_lt_base hn, List.singleton_append, scan, next, start_digitChar hn]
      rfl
    · have hlast : n % 10 < 10 := Nat.mod_lt n (by decide)
      -- a number of more digits does not begin with a zero, so that the last digit may follow
      have hzero : (n / 10 == 0) = false := by
        rw [beq_eq_false_iff_ne]
        omega
      have hsum : 10 * (n / 10) + n % 10 = n := Nat.div_add_mod n 10
      have hn0 : (n == 0) = false := by
        rw [beq_eq_false_iff_ne]
        omega
      rw [Nat.toDigits_of_base_le (by decide) (Nat.le_of_not_lt hn), List.append_assoc,
        ih (n / 10) (by omega), List.singleton_append, scan, next, digit?_digitChar hlast]
      simp only [hzero, Bool.false_eq_true, if_false, Option.map_some, hsum, hn0, List.nil_append]

theorem scan_whole_of_ends {plain : Option Nat} {isZero : Bool} {c : Char} (cs : List Char)
    (h : c = ',' ∨ c = ']') :
    scan (.whole plain isZero) (c :: cs) = .number plain :: scan .idle (c :: cs) := by
  rcases h with rfl | rfl <;> rfl

/-! ## Names -/

/-- The character stands for itself in a string. -/
def IsPlain (c : Char) : Prop := c ≠ '\"' ∧ c ≠ '\\' ∧ 32 ≤ c.toNat

theorem scan_text {units : List Nat} (name cs : List Char) (h : ∀ c ∈ name, IsPlain c) :
    scan (.text units) (name ++ '\"' :: cs) =
      .text (units.reverse ++ name.map Char.toNat) :: scan .idle cs := by
  induction name generalizing units with
  | nil =>
    rw [List.map_nil, List.append_nil]
    rfl
  | cons c name ih =>
    obtain ⟨hquote, hslash, hcontrol⟩ := h c List.mem_cons_self
    have hnext : next (.text units) c = (.text (c.toNat :: units), []) := by
      simp [next, hquote, hslash, Nat.not_lt.2 hcontrol]
    rw [List.cons_append, scan, hnext, List.nil_append,
      ih fun c hc => h c (List.mem_cons_of_mem _ hc), List.reverse_cons, List.append_assoc]
    rfl

theorem scan_name {name : List Char} (cs : List Char) (h : ∀ c ∈ name, IsPlain c) :
    scan .idle ('\"' :: name ++ '\"' :: cs) = .text (name.map Char.toNat) :: scan .idle cs :=
  scan_text name cs h

end Token

open Token

/-! ## Arrays of bytes -/

/-- The written elements of an array of bytes, up to its end. -/
def writeElements (bs : Bytes) : List Char :=
  List.intercalate [','] (bs.map fun b => Nat.toDigits 10 b.toNat) ++ [']']

theorem moreBytes_comma (b : UInt8) (ts : List Token) :
    moreBytes (.comma :: .number (some b.toNat) :: ts) =
      (moreBytes ts).map fun (bs, rest) => (b :: bs, rest) := by
  rw [moreBytes, if_pos b.toNat_lt, UInt8.ofNat_toNat]

/-- The first element of an array is scanned as a number, and the others are read behind it. -/
theorem exists_scan_writeElements (b : UInt8) (bs : Bytes) (cs : List Char) :
    ∃ ts, scan .idle (writeElements (b :: bs) ++ cs) = .number (some b.toNat) :: ts ∧
      moreBytes ts = some (bs, scan .idle cs) := by
  induction bs generalizing b with
  | nil =>
    have helements : writeElements [b] ++ cs = Nat.toDigits 10 b.toNat ++ ']' :: cs := by
      simp [writeElements]
    refine ⟨.closeArray :: scan .idle cs, ?_, by rw [moreBytes]⟩
    rw [helements, scan_digits, scan_whole_of_ends cs (.inr rfl)]
    rfl
  | cons b' bs ih =>
    obtain ⟨ts, hscan, hmore⟩ := ih b'
    have helements : writeElements (b :: b' :: bs) ++ cs =
        Nat.toDigits 10 b.toNat ++ ',' :: (writeElements (b' :: bs) ++ cs) := by
      simp [writeElements, List.intercalate_cons_cons]
    have hcomma : scan .idle (',' :: (writeElements (b' :: bs) ++ cs)) =
        .comma :: scan .idle (writeElements (b' :: bs) ++ cs) := rfl
    refine ⟨.comma :: .number (some b'.toNat) :: ts, ?_, ?_⟩
    · rw [helements, scan_digits, scan_whole_of_ends _ (.inl rfl), hcomma, hscan]
    · rw [moreBytes_comma, hmore]
      rfl

/-- An array of bytes is read back, and nothing of what follows it. -/
theorem readBytes_writeBytes (bs : Bytes) (cs : List Char) :
    readBytes (scan .idle (writeBytes bs ++ cs)) = some (bs, scan .idle cs) := by
  have hopen : scan .idle (writeBytes bs ++ cs) =
      .openArray :: scan .idle (writeElements bs ++ cs) := rfl
  rw [hopen]
  cases bs with
  | nil => rfl
  | cons b bs =>
    obtain ⟨ts, hscan, hmore⟩ := exists_scan_writeElements b bs cs
    rw [hscan, readBytes, moreBytes_comma, hmore]
    rfl

/-! ## Formats -/

namespace Format

variable {α : Type} {f : Format α} {a : α}

/-- The value is read back from where it is written, whatever follows. -/
def ReadsBack (f : Format α) (a : α) : Prop :=
  ∀ cs : List Char, f.read (scan .idle (f.write a ++ cs)) = .ok (a, scan .idle cs)

theorem ReadsBack.decode_write (h : f.ReadsBack a) : f.decode (f.write a) = .ok a := by
  have hread := h []
  rw [List.append_nil] at hread
  exact decode_eq_ok_iff.2 hread

theorem octets_readsBack (b : Bytes) : octets.ReadsBack b := fun cs =>
  octets_read_eq_ok_iff.2 (readBytes_writeBytes b cs)

theorem wellPaired_of_forall_lt {units : List Nat} (h : ∀ u ∈ units, u < 0xD800) :
    wellPaired units = true := by
  induction units with
  | nil => rfl
  | cons u us ih =>
    have hu := h u List.mem_cons_self
    unfold wellPaired
    rw [if_neg (by omega), if_neg (by omega)]
    exact ih fun v hv => h v (List.mem_cons_of_mem _ hv)

/-- A name that is written as it is and has no surrogates. -/
def IsName (name : List Char) : Prop := ∀ c ∈ name, IsPlain c ∧ c.toNat < 0xD800

theorem ReadsBack.message {name : List Char} (hname : IsName name) (h : f.ReadsBack a) :
    (f.message name).ReadsBack a := by
  intro cs
  have hpaired : wellPaired (name.map Char.toNat) = true := by
    apply wellPaired_of_forall_lt
    intro u hu
    obtain ⟨c, hc, rfl⟩ := List.mem_map.1 hu
    exact (hname c hc).2
  have htext : (f.message name).write a ++ cs =
      '\x7b' :: ('\"' :: name ++ '\"' :: ':' :: (f.write a ++ '\x7d' :: cs)) := by
    simp [Format.message]
  have hopen : ∀ cs, scan .idle ('\x7b' :: cs) = .openObject :: scan .idle cs := fun _ => rfl
  have hcolon : ∀ cs, scan .idle (':' :: cs) = .colon :: scan .idle cs := fun _ => rfl
  have hclose : scan .idle ('\x7d' :: cs) = .closeObject :: scan .idle cs := rfl
  rw [message_read_eq_ok_iff, htext, hopen, scan_name _ fun c hc => (hname c hc).1, hcolon]
  refine ⟨_, _, .object ?_ ?_, h ('\x7d' :: cs)⟩
  · simp [walk, hpaired]
  · rw [hclose]
    rfl

end Format

end JointSchnorr.Wire
