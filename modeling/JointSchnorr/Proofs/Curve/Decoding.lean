import Mathlib
import JointSchnorr.Proofs.Curve.Encoding

/-!
# All encodings of a point

Reading takes the `y` of an encoding modulo `p` and gives `x` the parity that the top bit asks for,
unless `x` is zero and has no odd counterpart (`decode?_eq_some_iff`). Points with `x = 0` are of
small order (`isSmallOrder_of_x_eq_zero`). Every other point is read from its canonical encoding
and, if `p` can be added to its `y` within 255 bits, from one more (`decode?_eq_some_iff_value`).
The canonical one is the one whose low 255 bits are below `p` (`encode_eq_iff_of_decode?`).
-/

namespace JointSchnorr

theorem Fe.isOdd_of_evenRoot? {a r : Fe} (h : evenRoot? a = some r) : r.isOdd = false := by
  obtain ⟨q, hq, -⟩ := Option.map_eq_some_iff.1 h
  rw [← mul_self_of_root? hq, evenRoot?_mul_self] at h
  rw [← Option.some.inj h]
  by_cases hzero : q = 0
  · rw [hzero]
    rfl
  · cases hodd : q.isOdd with
    | false => simpa using hodd
    | true => simp [isOdd_neg hzero, hodd]

namespace Point

open AdditionLaw

variable {o : Octets 32} {P : Point}

/-- A point that is read has the encoded `y`, and its `x` is an even root or, where the top bit is
set, the negative of one. -/
theorem coordinates_of_decode? (h : decode? o = some P) :
    encodedY o = P.y ∧ ∃ r : Fe, r.isOdd = false ∧ P.x = if encodedSign o then -r else r := by
  simp only [decode?] at h
  obtain ⟨r, hr, hP⟩ := Option.bind_eq_some_iff.1 h
  by_cases hcurve : OnCurve (if encodedSign o then -r else r) (encodedY o)
  · rw [dif_pos hcurve] at hP
    cases hP
    exact ⟨rfl, r, Fe.isOdd_of_evenRoot? hr, rfl⟩
  · rw [dif_neg hcurve] at hP
    cases hP

theorem encodedSign_of_decode? (h : decode? o = some P) (hx : P.x ≠ 0) :
    encodedSign o = P.x.isOdd := by
  obtain ⟨-, r, hr, hroot⟩ := coordinates_of_decode? h
  cases hsign : encodedSign o with
  | false =>
    rw [hroot, hsign]
    exact hr.symm
  | true =>
    have hneg : P.x = -r := by rw [hroot, hsign, if_pos rfl]
    have hne : r ≠ 0 := by
      rintro rfl
      exact hx (hneg.trans neg_zero)
    rw [hneg, Fe.isOdd_neg hne, hr]
    rfl

theorem decode?_of_coordinates (hy : encodedY o = P.y)
    (hsign : P.x = 0 ∨ encodedSign o = P.x.isOdd) : decode? o = some P := by
  have hx : (if encodedSign o then -(if P.x.isOdd then -P.x else P.x)
      else if P.x.isOdd then -P.x else P.x) = P.x := by
    rcases hsign with hzero | hsign
    · simp [hzero]
    · rw [hsign]
      exact sign_picks_x P.x
  simp only [decode?, hy, xSquared_y, Fe.evenRoot?_mul_self, Option.bind_some, hx]
  exact dif_pos P.onCurve

theorem decode?_eq_some_iff :
    decode? o = some P ↔ encodedY o = P.y ∧ (P.x = 0 ∨ encodedSign o = P.x.isOdd) := by
  constructor
  · intro h
    refine ⟨(coordinates_of_decode? h).1, ?_⟩
    by_cases hx : P.x = 0
    · exact .inl hx
    · exact .inr (encodedSign_of_decode? h hx)
  · rintro ⟨hy, hsign⟩
    exact decode?_of_coordinates hy hsign

/-- The points in which the top bit of an encoding is lost are `(0, 1)` and `(0, -1)`. -/
theorem isSmallOrder_of_x_eq_zero (h : P.x = 0) : P.IsSmallOrder := by
  have hcurve := P.holds
  unfold Holds at hcurve
  rw [h] at hcurve
  have hy : P.y * P.y = 1 := by linear_combination hcurve
  rcases mul_self_eq_one_iff.1 hy with hone | hminus
  · have hP : P = 0 := Point.ext h hone
    rw [hP]
    decide +kernel
  · have hP : P = ⟨0, -1, by decide +kernel⟩ := Point.ext h hminus
    rw [hP]
    decide +kernel

/-! ## The values of encodings -/

theorem signBit_eq : signBit = 2 ^ 255 := by decide

theorem signBit_eq_p_add : signBit = p + 19 := by decide

/-- The value of an encoding is its low 255 bits and its top bit. -/
theorem value_eq_low_add_sign (o : Octets 32) :
    o.value = o.value % signBit + if encodedSign o then signBit else 0 := by
  have hlt := o.value_lt
  have hmax : 256 ^ 32 = 2 * signBit := by decide
  rw [hmax] at hlt
  unfold encodedSign
  by_cases h : signBit ≤ o.value
  · have hmod : o.value % signBit = o.value - signBit := by
      rw [Nat.mod_eq_sub_mod h, Nat.mod_eq_of_lt (by omega)]
    rw [decide_eq_true h, if_pos rfl]
    omega
  · rw [Nat.mod_eq_of_lt (Nat.lt_of_not_le h), decide_eq_false h]
    rfl

theorem low_and_sign_of_value {low : Nat} {sign : Bool} (hlow : low < signBit)
    (h : o.value = low + if sign then signBit else 0) :
    o.value % signBit = low ∧ encodedSign o = sign := by
  unfold encodedSign
  cases sign with
  | false =>
    have hvalue : o.value = low := h
    rw [hvalue, Nat.mod_eq_of_lt hlow, decide_eq_false (Nat.not_le_of_lt hlow)]
    exact ⟨rfl, rfl⟩
  | true =>
    have hvalue : o.value = low + signBit := h
    rw [hvalue, Nat.add_mod_right, Nat.mod_eq_of_lt hlow, decide_eq_true (Nat.le_add_left _ _)]
    exact ⟨rfl, rfl⟩

theorem low_encode (P : Point) : P.encode.value % signBit = P.y.val := by
  rw [value_encode, Nat.add_mul_mod_self_left, Nat.mod_eq_of_lt (P.y.isLt.trans p_lt_signBit)]

theorem value_encode_eq (P : Point) :
    P.encode.value = P.y.val + if P.x.isOdd then signBit else 0 := by
  rw [value_eq_low_add_sign, low_encode, encodedSign_encode]

/-- Below the top bit an encoding holds `y` or, where there is room for it, `y + p`. -/
theorem encodedY_eq_iff {y : Fe} :
    encodedY o = y ↔ o.value % signBit = y.val ∨ y.val < 19 ∧ o.value % signBit = y.val + p := by
  have hlow : o.value % signBit < p + 19 := signBit_eq_p_add ▸ Nat.mod_lt _ (by decide)
  have hp : 19 < p := by decide
  have hy := y.isLt
  have hval : encodedY o = y ↔ o.value % signBit % p = y.val := Fin.ext_iff
  rw [hval]
  by_cases h : o.value % signBit < p
  · rw [Nat.mod_eq_of_lt h]
    omega
  · rw [Nat.mod_eq_sub_mod (Nat.le_of_not_lt h), Nat.mod_eq_of_lt (by omega)]
    omega

theorem decode?_eq_some_iff_value (hx : P.x ≠ 0) :
    decode? o = some P ↔
      o.value = P.encode.value ∨ P.y.val < 19 ∧ o.value = P.encode.value + p := by
  have hencode := value_encode_eq P
  constructor
  · intro h
    have hvalue := value_eq_low_add_sign o
    obtain ⟨hY, hsign⟩ := decode?_eq_some_iff.1 h
    rw [hsign.resolve_left hx] at hvalue
    rcases encodedY_eq_iff.1 hY with hlow | ⟨hy, hlow⟩
    · left
      omega
    · right
      exact ⟨hy, by omega⟩
  · rintro (hvalue | ⟨hy, hvalue⟩)
    · rw [Octets.value_injective hvalue]
      exact decode?_encode P
    · have hroom : P.y.val + p < signBit := by
        rw [signBit_eq_p_add]
        omega
      have hsplit : o.value = P.y.val + p + if P.x.isOdd then signBit else 0 := by
        omega
      obtain ⟨hlow, hsign⟩ := low_and_sign_of_value hroom hsplit
      exact decode?_eq_some_iff.2 ⟨encodedY_eq_iff.2 (.inr ⟨hy, hlow⟩), .inr hsign⟩

theorem encode_eq_iff_of_decode? (hx : P.x ≠ 0) (h : decode? o = some P) :
    P.encode = o ↔ o.value % 2 ^ 255 < p := by
  rw [← signBit_eq]
  constructor
  · rintro rfl
    rw [low_encode]
    exact P.y.isLt
  · intro hlow
    obtain ⟨hY, hsign⟩ := decode?_eq_some_iff.1 h
    apply Octets.value_injective
    rw [value_encode_eq, value_eq_low_add_sign o, hsign.resolve_left hx]
    rcases encodedY_eq_iff.1 hY with hreduced | ⟨-, hunreduced⟩
    · rw [hreduced]
    · omega

end Point

end JointSchnorr
