import JointSchnorr.Field
import JointSchnorr.Scalar

/-!
# Points of the curve

The curve is the twisted Edwards curve `y² - x² = 1 + d x² y²` over the field of coordinates,
with `d` no square, so that one addition law serves all pairs of points. A `Point` carries the
proof that it lies on the curve. Multiples are computed in projective coordinates by a binary
ladder; a scalar acts as the integer below `N` that represents it.
-/

namespace JointSchnorr

/-- The coefficient `-121665 / 121666` of the curve. -/
def d : Fe :=
  37095705934669439343138083508754565189542113879843219016388785533085940283555

example : d * 121666 = -121665 := by decide +kernel

/-- The equation of the curve. -/
def OnCurve (x y : Fe) : Prop := y * y - x * x = 1 + d * (x * x) * (y * y)

instance (x y : Fe) : Decidable (OnCurve x y) := inferInstanceAs (Decidable (_ = _))

/-- A point of the curve, by its two coordinates. -/
structure Point where
  x : Fe
  y : Fe
  onCurve : OnCurve x y
deriving DecidableEq

namespace Point

@[ext] theorem ext {P Q : Point} (hx : P.x = Q.x) (hy : P.y = Q.y) : P = Q := by
  cases P; cases Q; cases hx; cases hy; rfl

/-- The neutral point `(0, 1)`. -/
instance : Zero Point := ⟨⟨0, 1, by decide +kernel⟩⟩

theorem zero_x : (0 : Point).x = 0 := rfl

theorem zero_y : (0 : Point).y = 1 := rfl

/-- The point with the given coordinates. Coordinates off the curve, which the addition law
never yields, stand for the neutral point. -/
def ofCoordinates (x y : Fe) : Point := if h : OnCurve x y then ⟨x, y, h⟩ else 0

/-- The addition law. Its denominators vanish for no pair of points. -/
def add (P Q : Point) : Point :=
  let t := d * (P.x * Q.x) * (P.y * Q.y)
  ofCoordinates
    ((P.x * Q.y + P.y * Q.x) * Fe.inv (1 + t))
    ((P.y * Q.y + P.x * Q.x) * Fe.inv (1 - t))

instance : Add Point := ⟨add⟩

/-- The inverse point. -/
def neg (P : Point) : Point := ofCoordinates (-P.x) P.y

instance : Neg Point := ⟨neg⟩

instance : Sub Point := ⟨fun P Q => P + -Q⟩

/-- A point `(X / Z, Y / Z)` without the divisions. -/
structure Projective where
  X : Fe
  Y : Fe
  Z : Fe

namespace Projective

/-- The neutral point. -/
def zero : Projective := ⟨0, 1, 1⟩

/-- The addition law with denominators collected in `Z`. -/
def add (P Q : Projective) : Projective :=
  let a := P.Z * Q.Z
  let b := a * a
  let c := P.X * Q.X
  let e := P.Y * Q.Y
  let t := d * c * e
  let f := b - t
  let g := b + t
  ⟨a * f * ((P.X + P.Y) * (Q.X + Q.Y) - c - e), a * g * (e + c), f * g⟩

/-- The point that the three coordinates stand for. -/
def toPoint (P : Projective) : Point :=
  let i := Fe.inv P.Z
  ofCoordinates (P.X * i) (P.Y * i)

end Projective

/-- The point with denominator one. -/
def toProjective (P : Point) : Projective := ⟨P.x, P.y, 1⟩

/-- The sum of `n` copies of a point. -/
def multiple (n : Nat) (P : Point) : Point :=
  (ladder (fun Q => Q.add Q) (fun Q => Q.add P.toProjective) Projective.zero n).toPoint

instance : SMul Nat Point := ⟨multiple⟩

/-- A scalar acts as the integer below `N` that represents it. -/
instance : SMul Scalar Point := ⟨fun k P => k.val • P⟩

theorem scalar_smul (k : Scalar) (P : Point) : k • P = k.val • P := rfl

/-- The base point: `y` is four fifths and `x` is even. -/
def base : Point :=
  ⟨15112221349535400772501151409588531511454012693041857206046113283949847762202,
   46316835694926478169428394003475163141307993866256225615783033603165251855960,
   by decide +kernel⟩

example : base.y * 5 = 4 := by decide +kernel

/-- A point is of small order when eight copies of it cancel out. -/
def IsSmallOrder (P : Point) : Prop := (8 : Nat) • P = 0

instance (P : Point) : Decidable P.IsSmallOrder := inferInstanceAs (Decidable (_ = _))

end Point

end JointSchnorr
