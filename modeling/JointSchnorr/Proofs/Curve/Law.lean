import Mathlib

/-!
# The addition law over a field

The law of the curve `y² - x² = 1 + d x² y²`, stated for the coordinates of points over any field
of odd characteristic in which minus one is a square and `d` is none. Its denominators vanish for
no pair of points (`one_add_ne_zero`, `one_sub_ne_zero`), its sums lie on the curve (`holds_add`),
and it is associative (`sumX_assoc`, `sumY_assoc`). Each of these comes down to one polynomial
identity modulo the equations of the points.
-/

namespace JointSchnorr.AdditionLaw

variable {F : Type*} [Field F]

/-- The equation of the curve with the coefficient `d`. -/
def Holds (d x y : F) : Prop := y * y - x * x = 1 + d * (x * x) * (y * y)

/-- What the law needs of the field and of the coefficient. -/
structure Complete (d : F) : Prop where
  two_ne_zero : (2 : F) ≠ 0
  isSquare_neg_one : IsSquare (-1 : F)
  not_isSquare : ¬ IsSquare d

/-- The product that tells the denominators of a sum from one. -/
def cross (d x₁ y₁ x₂ y₂ : F) : F := d * (x₁ * x₂) * (y₁ * y₂)

/-- The first coordinate of a sum. -/
def sumX (d x₁ y₁ x₂ y₂ : F) : F := (x₁ * y₂ + y₁ * x₂) * (1 + cross d x₁ y₁ x₂ y₂)⁻¹

/-- The second coordinate of a sum. -/
def sumY (d x₁ y₁ x₂ y₂ : F) : F := (y₁ * y₂ + x₁ * x₂) * (1 - cross d x₁ y₁ x₂ y₂)⁻¹

variable {d x₁ y₁ x₂ y₂ x₃ y₃ : F}

theorem isSquare_of_sq_eq_mul_sq {a b c : F} (hb : b ≠ 0) (h : a ^ 2 = c * b ^ 2) : IsSquare c :=
  ⟨a * b⁻¹, by field_simp; exact h.symm⟩

/-- Where the denominators vanish, `d` times a square is a square: with a root of minus one the
difference of squares in the equation of the curve splits. -/
theorem sq_eq_of_cross {i : F} (hi : i * i = -1) (h₁ : Holds d x₁ y₁) (h₂ : Holds d x₂ y₂)
    (ht : cross d x₁ y₁ x₂ y₂ * cross d x₁ y₁ x₂ y₂ = 1) :
    (x₁ - cross d x₁ y₁ x₂ y₂ * i * y₁) ^ 2 = d * (x₁ * y₁ * (x₂ - i * y₂)) ^ 2 := by
  unfold Holds cross at *
  linear_combination -h₁ + (1 - y₁ * y₁) * ht + d * (x₁ * x₁) * (y₁ * y₁) * h₂ +
    ((d * (x₁ * x₂) * (y₁ * y₂)) ^ 2 * y₁ ^ 2 - d * x₁ ^ 2 * y₁ ^ 2 * y₂ ^ 2) * hi

theorem cross_mul_self_ne_one (hc : Complete d) (h₁ : Holds d x₁ y₁) (h₂ : Holds d x₂ y₂) :
    cross d x₁ y₁ x₂ y₂ * cross d x₁ y₁ x₂ y₂ ≠ 1 := by
  intro ht
  obtain ⟨i, hi⟩ := hc.isSquare_neg_one
  have hi₀ : i ≠ 0 := by rintro rfl; simp at hi
  have hx₁ : x₁ ≠ 0 := by rintro rfl; simp [cross] at ht
  have hy₁ : y₁ ≠ 0 := by rintro rfl; simp [cross] at ht
  have hy₂ : y₂ ≠ 0 := by rintro rfl; simp [cross] at ht
  have hxy := mul_ne_zero hx₁ hy₁
  by_cases hm : x₂ - i * y₂ = 0
  · -- then the other root of minus one leaves a factor other than zero
    have hp : x₂ - -i * y₂ ≠ 0 := by
      rw [sub_eq_zero.1 hm, neg_mul, sub_neg_eq_add, ← two_mul]
      exact mul_ne_zero hc.two_ne_zero (mul_ne_zero hi₀ hy₂)
    have hsq := sq_eq_of_cross (i := -i) (by rw [neg_mul_neg, hi]) h₁ h₂ ht
    exact hc.not_isSquare (isSquare_of_sq_eq_mul_sq (mul_ne_zero hxy hp) hsq)
  · have hsq := sq_eq_of_cross hi.symm h₁ h₂ ht
    exact hc.not_isSquare (isSquare_of_sq_eq_mul_sq (mul_ne_zero hxy hm) hsq)

theorem one_add_ne_zero (hc : Complete d) (h₁ : Holds d x₁ y₁) (h₂ : Holds d x₂ y₂) :
    1 + cross d x₁ y₁ x₂ y₂ ≠ 0 := by
  intro h
  apply cross_mul_self_ne_one hc h₁ h₂
  rw [← neg_eq_of_add_eq_zero_right h]
  ring

theorem one_sub_ne_zero (hc : Complete d) (h₁ : Holds d x₁ y₁) (h₂ : Holds d x₂ y₂) :
    1 - cross d x₁ y₁ x₂ y₂ ≠ 0 := by
  intro h
  apply cross_mul_self_ne_one hc h₁ h₂
  rw [← sub_eq_zero.1 h, one_mul]

theorem holds_numerators (h₁ : Holds d x₁ y₁) (h₂ : Holds d x₂ y₂) :
    (y₁ * y₂ + x₁ * x₂) ^ 2 * (1 + cross d x₁ y₁ x₂ y₂) ^ 2 -
        (x₁ * y₂ + y₁ * x₂) ^ 2 * (1 - cross d x₁ y₁ x₂ y₂) ^ 2 =
      (1 + cross d x₁ y₁ x₂ y₂) ^ 2 * (1 - cross d x₁ y₁ x₂ y₂) ^ 2 +
        d * (x₁ * y₂ + y₁ * x₂) ^ 2 * (y₁ * y₂ + x₁ * x₂) ^ 2 := by
  unfold Holds cross at *
  have sum₁ : (y₁ ^ 2 + x₁ ^ 2) ^ 2 = (1 + d * (x₁ * y₁) ^ 2) ^ 2 + 4 * (x₁ * y₁) ^ 2 := by
    linear_combination (y₁ ^ 2 - x₁ ^ 2 + 1 + d * (x₁ * y₁) ^ 2) * h₁
  have sum₂ : (y₂ ^ 2 + x₂ ^ 2) ^ 2 = (1 + d * (x₂ * y₂) ^ 2) ^ 2 + 4 * (x₂ * y₂) ^ 2 := by
    linear_combination (y₂ ^ 2 - x₂ ^ 2 + 1 + d * (x₂ * y₂) ^ 2) * h₂
  have difference : (y₁ * y₂ + x₁ * x₂) ^ 2 - (x₁ * y₂ + y₁ * x₂) ^ 2 =
      (1 + d * (x₁ * y₁) ^ 2) * (1 + d * (x₂ * y₂) ^ 2) := by
    linear_combination (y₂ ^ 2 - x₂ ^ 2) * h₁ + (1 + d * (x₁ * y₁) ^ 2) * h₂
  linear_combination (1 + (d * (x₁ * x₂) * (y₁ * y₂)) ^ 2) * difference -
    d * (x₂ * y₂) ^ 2 * sum₁ - d * (x₁ * y₁) ^ 2 * sum₂

/-- A sum of two points lies on the curve. -/
theorem holds_add (hc : Complete d) (h₁ : Holds d x₁ y₁) (h₂ : Holds d x₂ y₂) :
    Holds d (sumX d x₁ y₁ x₂ y₂) (sumY d x₁ y₁ x₂ y₂) := by
  have hf := one_add_ne_zero hc h₁ h₂
  have hg := one_sub_ne_zero hc h₁ h₂
  have key := holds_numerators h₁ h₂
  unfold Holds sumX sumY
  field_simp
  linear_combination key

/-! ## Adding a point of order four

For a root `i` of minus one, `(i, 0)` is a point, and adding it to `(x, y)` gives `(i y, i x)`. -/

section Swap

variable {i : F} (hi : i * i = -1)

include hi

theorem holds_swap (h : Holds d x₁ y₁) : Holds d (i * y₁) (i * x₁) := by
  unfold Holds at *
  linear_combination h + (x₁ ^ 2 - y₁ ^ 2 - d * x₁ ^ 2 * y₁ ^ 2 * (i * i - 1)) * hi

theorem cross_swap : cross d x₁ y₁ (i * y₂) (i * x₂) = -cross d x₁ y₁ x₂ y₂ := by
  unfold cross
  linear_combination d * x₁ * x₂ * y₁ * y₂ * hi

theorem sumX_swap : sumX d x₁ y₁ (i * y₂) (i * x₂) = i * sumY d x₁ y₁ x₂ y₂ := by
  rw [sumX, cross_swap hi, ← sub_eq_add_neg, sumY]
  ring

theorem sumY_swap : sumY d x₁ y₁ (i * y₂) (i * x₂) = i * sumX d x₁ y₁ x₂ y₂ := by
  rw [sumY, cross_swap hi, sub_neg_eq_add, sumX]
  ring

end Swap

/-! ## Associativity

With the denominators of the inner sums multiplied out, both ways to the first coordinate of a sum
of three points are a quotient of polynomials in the six coordinates, and the cross products of the
two quotients agree modulo the three equations. A common factor `d x₂ y₂` of their difference is
taken out first. The second coordinate is the first one of a sum moved by `(i, 0)`. -/

section Associativity

variable (h₁ : Holds d x₁ y₁) (h₂ : Holds d x₂ y₂) (h₃ : Holds d x₃ y₃)

include h₁ h₂ h₃

theorem assoc_factor :
    (x₁ * y₂ * y₃ + y₁ * x₂ * y₃ + y₁ * y₂ * x₃ + x₁ * x₂ * x₃) *
        (d * (x₂ * y₂) * ((x₁ * y₁) ^ 2 - (x₃ * y₃) ^ 2) + x₁ * y₁ * (x₃ ^ 2 + y₃ ^ 2) -
          x₃ * y₃ * (x₁ ^ 2 + y₁ ^ 2)) +
      x₁ * y₁ * ((y₁ * y₂ + x₁ * x₂) * x₃ - (x₁ * y₂ + y₁ * x₂) * y₃) *
        (1 - cross d x₂ y₂ x₃ y₃ ^ 2 + d * (x₁ * (x₂ * y₃ + y₂ * x₃)) *
          (y₁ * (y₂ * y₃ + x₂ * x₃))) -
      x₃ * y₃ * (x₁ * (y₂ * y₃ + x₂ * x₃) - y₁ * (x₂ * y₃ + y₂ * x₃)) *
        (1 - cross d x₁ y₁ x₂ y₂ ^ 2 + d * ((x₁ * y₂ + y₁ * x₂) * x₃) *
          ((y₁ * y₂ + x₁ * x₂) * y₃)) = 0 := by
  unfold Holds cross at *
  linear_combination
    (-d * x₁ * x₂ ^ 3 * y₂ ^ 2 * x₃ ^ 2 * y₃ - x₁ * x₂ ^ 3 * x₃ ^ 2 * y₃
      - d * x₁ * x₂ ^ 2 * y₂ ^ 3 * x₃ * y₃ ^ 2 - x₁ * x₂ ^ 2 * y₂ * x₃ ^ 3
      - x₁ * x₂ ^ 2 * y₂ * x₃ + x₁ * x₂ * y₂ ^ 2 * y₃ ^ 3 - x₁ * x₂ * y₂ ^ 2 * y₃
      + x₁ * y₂ ^ 3 * x₃ * y₃ ^ 2 + d * y₁ * x₂ ^ 3 * y₂ ^ 2 * x₃ * y₃ ^ 2
      + y₁ * x₂ ^ 3 * x₃ * y₃ ^ 2 + d * y₁ * x₂ ^ 2 * y₂ ^ 3 * x₃ ^ 2 * y₃
      + y₁ * x₂ ^ 2 * y₂ * y₃ ^ 3 - y₁ * x₂ ^ 2 * y₂ * y₃ - y₁ * x₂ * y₂ ^ 2 * x₃ ^ 3
      - y₁ * x₂ * y₂ ^ 2 * x₃ - y₁ * y₂ ^ 3 * x₃ ^ 2 * y₃) * h₁ +
    (x₁ ^ 3 * x₂ * x₃ ^ 2 * y₃ + x₁ ^ 3 * y₂ * x₃ * y₃ ^ 2
      + d * x₁ ^ 2 * y₁ * x₂ * x₃ ^ 3 * y₃ ^ 2 - x₁ ^ 2 * y₁ * x₂ * x₃ * y₃ ^ 2
      - d * x₁ ^ 2 * y₁ * y₂ * x₃ ^ 2 * y₃ ^ 3 - x₁ ^ 2 * y₁ * y₂ * x₃ ^ 2 * y₃
      - d * x₁ * y₁ ^ 2 * x₂ * x₃ ^ 2 * y₃ ^ 3 - x₁ * y₁ ^ 2 * x₂ * x₃ ^ 2 * y₃
      + d * x₁ * y₁ ^ 2 * y₂ * x₃ ^ 3 * y₃ ^ 2 - x₁ * y₁ ^ 2 * y₂ * x₃ * y₃ ^ 2
      + x₁ * x₂ * x₃ ^ 2 * y₃ + x₁ * y₂ * x₃ * y₃ ^ 2 + y₁ ^ 3 * x₂ * x₃ * y₃ ^ 2
      + y₁ ^ 3 * y₂ * x₃ ^ 2 * y₃ - y₁ * x₂ * x₃ * y₃ ^ 2 - y₁ * y₂ * x₃ ^ 2 * y₃) * h₂ +
    (x₁ ^ 3 * x₂ ^ 2 * y₂ * x₃ + x₁ ^ 3 * x₂ * y₂ ^ 2 * y₃ + x₁ ^ 2 * y₁ * x₂ ^ 2 * y₂ * y₃
      + x₁ ^ 2 * y₁ * x₂ * y₂ ^ 2 * x₃ - x₁ ^ 2 * y₁ * x₂ * x₃ + x₁ ^ 2 * y₁ * y₂ * y₃
      - x₁ * y₁ ^ 2 * x₂ ^ 2 * y₂ * x₃ - x₁ * y₁ ^ 2 * x₂ * y₂ ^ 2 * y₃ + x₁ * y₁ ^ 2 * x₂ * y₃
      - x₁ * y₁ ^ 2 * y₂ * x₃ + x₁ * x₂ ^ 2 * y₂ * x₃ + x₁ * x₂ * y₂ ^ 2 * y₃
      - y₁ ^ 3 * x₂ ^ 2 * y₂ * y₃ - y₁ ^ 3 * x₂ * y₂ ^ 2 * x₃ + y₁ * x₂ ^ 2 * y₂ * y₃
      + y₁ * x₂ * y₂ ^ 2 * x₃) * h₃

/-- The numerators of both ways, each times the other's denominator. -/
theorem assoc_numerators :
    ((x₁ * y₂ + y₁ * x₂) * (1 - cross d x₁ y₁ x₂ y₂) * y₃ +
        (y₁ * y₂ + x₁ * x₂) * (1 + cross d x₁ y₁ x₂ y₂) * x₃) *
      (1 - cross d x₂ y₂ x₃ y₃ ^ 2 +
        d * (x₁ * (x₂ * y₃ + y₂ * x₃)) * (y₁ * (y₂ * y₃ + x₂ * x₃))) =
    (x₁ * ((y₂ * y₃ + x₂ * x₃) * (1 + cross d x₂ y₂ x₃ y₃)) +
        y₁ * ((x₂ * y₃ + y₂ * x₃) * (1 - cross d x₂ y₂ x₃ y₃))) *
      (1 - cross d x₁ y₁ x₂ y₂ ^ 2 +
        d * ((x₁ * y₂ + y₁ * x₂) * x₃) * ((y₁ * y₂ + x₁ * x₂) * y₃)) := by
  have key := assoc_factor h₁ h₂ h₃
  unfold cross at *
  linear_combination d * (x₂ * y₂) * key

theorem sumX_assoc (hc : Complete d) :
    sumX d (sumX d x₁ y₁ x₂ y₂) (sumY d x₁ y₁ x₂ y₂) x₃ y₃ =
      sumX d x₁ y₁ (sumX d x₂ y₂ x₃ y₃) (sumY d x₂ y₂ x₃ y₃) := by
  have hf := one_add_ne_zero hc h₁ h₂
  have hg := one_sub_ne_zero hc h₁ h₂
  have hf' := one_add_ne_zero hc h₂ h₃
  have hg' := one_sub_ne_zero hc h₂ h₃
  have hl := one_add_ne_zero hc (holds_add hc h₁ h₂) h₃
  have hr := one_add_ne_zero hc h₁ (holds_add hc h₂ h₃)
  have key := assoc_numerators h₁ h₂ h₃
  rw [sumX.eq_def _ (sumX _ _ _ _ _), sumX.eq_def _ x₁ y₁ (sumX _ _ _ _ _), ← div_eq_mul_inv,
    ← div_eq_mul_inv, div_eq_div_iff hl hr, cross.eq_def _ (sumX _ _ _ _ _),
    cross.eq_def _ _ _ (sumX _ _ _ _ _)]
  unfold sumX sumY
  field_simp
  linear_combination key

/-- Adding `(i, 0)` to the last point turns the second coordinate into the first. -/
theorem sumY_assoc (hc : Complete d) :
    sumY d (sumX d x₁ y₁ x₂ y₂) (sumY d x₁ y₁ x₂ y₂) x₃ y₃ =
      sumY d x₁ y₁ (sumX d x₂ y₂ x₃ y₃) (sumY d x₂ y₂ x₃ y₃) := by
  obtain ⟨i, hi⟩ := hc.isSquare_neg_one
  have hi₀ : i ≠ 0 := by rintro rfl; simp at hi
  have key := sumX_assoc h₁ h₂ (holds_swap hi.symm h₃) hc
  rw [sumX_swap hi.symm, sumX_swap hi.symm, sumY_swap hi.symm, sumX_swap hi.symm] at key
  exact mul_left_cancel₀ hi₀ key

end Associativity

end JointSchnorr.AdditionLaw
