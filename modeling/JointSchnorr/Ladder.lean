/-!
# Binary ladders

A number of applications of one step is reached through the binary digits of that number: from
the top digit down the result is doubled, and stepped once more where the digit is one. The
field takes powers this way and the curve takes multiples. `ladder_induction` is the interface:
what holds of zero, survives doubling and survives a step holds of the whole ladder.
-/

namespace JointSchnorr

universe u

variable {α : Type u} {double step : α → α} {zero : α}

/-- The ladder over the binary digits of `n`, top digit first. -/
def ladder (double step : α → α) (zero : α) (n : Nat) : α :=
  (List.range (n.log2 + 1)).foldr
    (fun i acc => if n.testBit i then step (double acc) else double acc) zero

/-- The ladder over the digits from position `i` up, `count` of them. -/
private theorem ladder_digits {R : Nat → α → Prop} (hzero : R 0 zero)
    (hdouble : ∀ k a, R k a → R (2 * k) (double a)) (hstep : ∀ k a, R k a → R (k + 1) (step a))
    (n count i : Nat) (hn : n >>> (i + count) = 0) :
    R (n >>> i) ((List.range' i count).foldr
      (fun i acc => if n.testBit i then step (double acc) else double acc) zero) := by
  induction count generalizing i with
  | zero =>
    rw [Nat.add_zero] at hn
    rw [hn]
    exact hzero
  | succ count ih =>
    have hrest := ih (i + 1) (by rwa [Nat.add_assoc, Nat.add_comm 1])
    rw [List.range'_succ, List.foldr_cons]
    have hhalf : n >>> (i + 1) = n >>> i / 2 := Nat.shiftRight_succ n i
    have hbit : n.testBit i = decide (n >>> i % 2 = 1) := by
      rw [Nat.testBit_eq_decide_div_mod_eq, Nat.shiftRight_eq_div_pow]
    by_cases h : n >>> i % 2 = 1
    · rw [if_pos (by simp [hbit, h]), show n >>> i = 2 * (n >>> (i + 1)) + 1 by omega]
      exact hstep _ _ (hdouble _ _ hrest)
    · rw [if_neg (by simp [hbit, h]), show n >>> i = 2 * (n >>> (i + 1)) by omega]
      exact hdouble _ _ hrest

/-- A relation between numbers and results that holds at zero, and that doubling and stepping
keep, relates `n` to the ladder over `n`. -/
theorem ladder_induction {R : Nat → α → Prop} (hzero : R 0 zero)
    (hdouble : ∀ k a, R k a → R (2 * k) (double a)) (hstep : ∀ k a, R k a → R (k + 1) (step a))
    (n : Nat) : R n (ladder double step zero n) := by
  have h := ladder_digits hzero hdouble hstep n (n.log2 + 1) 0
    (by rw [Nat.zero_add, Nat.shiftRight_eq_div_pow, Nat.div_eq_of_lt Nat.lt_log2_self])
  simpa [ladder, List.range_eq_range'] using h

end JointSchnorr
