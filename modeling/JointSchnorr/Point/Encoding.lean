import JointSchnorr.Point.Basic

/-!
# Encodings of points

A point is written as 32 bytes: `y` in the low 255 bits, little-endian, and the parity of `x`
in the top bit. `encode` always writes the representative of `y` below `p`. `decode?` takes
the low 255 bits modulo `p`, so it also reads the few encodings whose `y` is `p` or more, and
it reads a set top bit beside `x = 0`; it refuses exactly the `y` that no point has.
-/

namespace JointSchnorr.Point

/-- The top bit of an encoding. -/
def signBit : Nat := 1 <<< 255

/-- The canonical encoding. -/
def encode (P : Point) : Octets 32 := Octets.ofNat 32 (P.y.val + signBit * (P.x.val % 2))

/-- The `y` of an encoding: its low 255 bits modulo `p`. -/
def encodedY (o : Octets 32) : Fe := Fin.ofNat p (o.value % signBit)

/-- Whether the top bit of an encoding is set, which asks for the negative of the even root. -/
def encodedSign (o : Octets 32) : Bool := signBit ≤ o.value

/-- The square of the two `x` that belong to `y` by the curve's equation. -/
def xSquared (y : Fe) : Fe := (y * y - 1) * Fe.inv (d * (y * y) + 1)

/-- Reads a point: the even root belongs to a clear sign bit, its negative to a set one. -/
def decode? (o : Octets 32) : Option Point :=
  let y := encodedY o
  (Fe.evenRoot? (xSquared y)).bind fun r =>
    let x := if encodedSign o then -r else r
    if h : OnCurve x y then some ⟨x, y, h⟩ else none

/-- Reads a point that is not of small order. -/
def decodeLarge? (o : Octets 32) : Option Point :=
  (decode? o).filter fun P => ¬ P.IsSmallOrder

theorem decodeLarge?_eq_some_iff {o : Octets 32} {P : Point} :
    decodeLarge? o = some P ↔ decode? o = some P ∧ ¬ P.IsSmallOrder := by
  simp [decodeLarge?, Option.filter_eq_some_iff]

end JointSchnorr.Point
