import JointSchnorr.Ladder

/-!
# The field of coordinates

Coordinates are integers modulo the prime `p = 2^255 - 19`. Besides sum, product and negation,
which are those of `Fin p`, the curve needs powers, inverses and square roots. As `p` leaves
remainder five on division by eight, a root of a square `a` is `a ^ ((p + 3) / 8)` or that
times a root of minus one.
-/

namespace JointSchnorr

/-- The field's characteristic. -/
def p : Nat := (1 <<< 255) - 19

theorem p_pos : 0 < p := by decide

instance : @NeZero Nat (@Zero.ofOfNat0 Nat (instOfNatNat 0)) p := ⟨Nat.ne_of_gt p_pos⟩

/-- A coordinate: an integer modulo `p`. -/
abbrev Fe := Fin p

namespace Fe

/-- Square and multiply. -/
def pow (a : Fe) (n : Nat) : Fe := ladder (fun r => r * r) (fun r => r * a) 1 n

/-- The inverse by Fermat's little theorem; zero has zero. -/
def inv (a : Fe) : Fe := pow a (p - 2)

/-- A square root of minus one. -/
def rootOfMinusOne : Fe :=
  19681161376707505956807079304988542015446066515923890162744021073123829784752

theorem rootOfMinusOne_mul_self : rootOfMinusOne * rootOfMinusOne = -1 := by decide +kernel

/-- A coordinate is odd when its representative below `p` is. -/
def isOdd (a : Fe) : Bool := a.val % 2 == 1

/-- One of the square roots of `a`, if there is any. -/
def root? (a : Fe) : Option Fe :=
  let r := pow a ((p + 3) / 8)
  if r * r = a then some r
  else
    let s := r * rootOfMinusOne
    if s * s = a then some s else none

/-- The even square root of `a`, if there is any. -/
def evenRoot? (a : Fe) : Option Fe :=
  (root? a).map fun r => if r.isOdd then -r else r

theorem mul_self_of_root? {a r : Fe} (h : root? a = some r) : r * r = a := by
  simp only [root?] at h
  split at h
  · next h' => exact Option.some.inj h ▸ h'
  · split at h
    · next h' => exact Option.some.inj h ▸ h'
    · simp at h

end Fe

end JointSchnorr
