import Mathlib.Data.List.Prime
import Mathlib.FieldTheory.Finite.Basic
import Mathlib.NumberTheory.LucasPrimality
import JointSchnorr.Point.Basic

/-!
# The two primes of the curve

`p` and `N` are prime (`p_prime`, `N_prime`). Each is reached by a chain of Lucas tests: a number
`n` is prime when some `a` has order `n - 1` modulo `n`, and that order is read off the prime
factors of `n - 1`. A `LucasStep` holds the number, the base `a` and these factors. Factors below a
million are found prime by trial division; a larger one is the number of an earlier step. The whole
chain is one Boolean check that the kernel evaluates, with powers taken by `ladder`.

Modulo a prime `q` the power by `q - 2` is the inverse (`mul_ladder_eq_one`).
-/

namespace JointSchnorr.Primality

/-- `a ^ n` modulo `m`. -/
def powMod (m a n : Nat) : Nat := ladder (fun r => r * r % m) (fun r => r * a % m) (1 % m) n

theorem powMod_eq (m a n : Nat) : powMod m a n = a ^ n % m := by
  refine ladder_induction (R := fun k r => r = a ^ k % m) ?_ ?_ ?_ n
  · rw [pow_zero]
  · rintro k r rfl
    rw [← Nat.mul_mod, ← pow_add, two_mul]
  · rintro k r rfl
    rw [Nat.mod_mul_mod, ← pow_succ]

/-- Whether nothing from `m` on, up to the square root of `q`, divides `q`; each number tried takes
one unit of `fuel`. -/
def noDivisorFrom (q : Nat) : Nat → Nat → Bool
  | 0, _ => false
  | fuel + 1, m => q.blt (m * m) || (q % m != 0 && noDivisorFrom q fuel (m + 1))

theorem not_dvd_of_noDivisorFrom {q fuel m : Nat} (h : noDivisorFrom q fuel m = true) :
    ∀ k, m ≤ k → k * k ≤ q → ¬ k ∣ q := by
  induction fuel generalizing m with
  | zero => simp [noDivisorFrom] at h
  | succ fuel ih =>
    intro k hmk hk hdvd
    simp only [noDivisorFrom, Bool.or_eq_true, Bool.and_eq_true, Nat.blt_eq, bne_iff_ne] at h
    rcases h with h | ⟨hm, h⟩
    · have := Nat.mul_le_mul hmk hmk
      omega
    · rcases Nat.eq_or_lt_of_le hmk with rfl | hlt
      · exact hm (Nat.mod_eq_zero_of_dvd hdvd)
      · exact ih h k hlt hk hdvd

/-- Whether trial division up to a thousand finds a number prime. -/
def passesTrial (q : Nat) : Bool := Nat.ble 2 q && noDivisorFrom q 1000 2

theorem prime_of_passesTrial {q : Nat} (h : passesTrial q = true) : q.Prime := by
  simp only [passesTrial, Bool.and_eq_true, Nat.ble_eq] at h
  by_contra hn
  -- the least factor of a composite number is at most its square root
  have hsq := Nat.minFac_sq_le_self (by omega) hn
  rw [pow_two] at hsq
  have hmin := Nat.minFac_prime (n := q) (by omega)
  exact not_dvd_of_noDivisorFrom h.2 _ hmin.two_le hsq (Nat.minFac_dvd q)

/-- A number with a base for its Lucas test and the prime factors of its predecessor, each as often
as it divides. -/
structure LucasStep where
  number : Nat
  base : Nat
  factors : List Nat

namespace LucasStep

/-- Whether a step stands, given numbers that are known to be prime. -/
def stands (known : List Nat) (s : LucasStep) : Bool :=
  decide (1 < s.number) && s.factors.prod == s.number - 1 &&
    powMod s.number s.base (s.number - 1) == 1 &&
    s.factors.all fun q =>
      (passesTrial q || decide (q ∈ known)) &&
        powMod s.number s.base ((s.number - 1) / q) != 1

theorem zmod_pow_eq_one_iff {n : Nat} (hn : 1 < n) (a k : Nat) :
    (a : ZMod n) ^ k = 1 ↔ powMod n a k = 1 := by
  have h := ZMod.natCast_eq_natCast_iff' (a ^ k) 1 n
  rwa [Nat.cast_pow, Nat.cast_one, ← powMod_eq, Nat.mod_eq_of_lt hn] at h

theorem prime_of_stands {known : List Nat} {s : LucasStep} (hknown : ∀ q ∈ known, q.Prime)
    (h : s.stands known = true) : s.number.Prime := by
  simp only [stands, Bool.and_eq_true, Bool.or_eq_true, decide_eq_true_eq, beq_iff_eq,
    List.all_eq_true, bne_iff_ne] at h
  obtain ⟨⟨⟨hone, hprod⟩, hfull⟩, hfactors⟩ := h
  refine lucas_primality s.number (s.base : ZMod s.number) ?_ ?_
  · exact (zmod_pow_eq_one_iff hone _ _).2 hfull
  · intro q hq hdvd
    rw [← hprod] at hdvd
    obtain ⟨r, hr, hqr⟩ := (Prime.dvd_prod_iff hq.prime).1 hdvd
    obtain ⟨hrprime, hrpow⟩ := hfactors r hr
    have hr' : r.Prime := hrprime.elim prime_of_passesTrial (hknown r)
    obtain rfl := (Nat.prime_dvd_prime_iff_eq hq hr').1 hqr
    exact fun e => hrpow ((zmod_pow_eq_one_iff hone _ _).1 e)

/-- Whether every step of a chain stands, given the numbers of the steps before it. -/
def chain : List Nat → List LucasStep → Bool
  | _, [] => true
  | known, s :: steps => s.stands known && chain (s.number :: known) steps

theorem prime_of_chain {known : List Nat} {steps : List LucasStep}
    (hknown : ∀ q ∈ known, q.Prime) (h : chain known steps = true) :
    ∀ s ∈ steps, s.number.Prime := by
  induction steps generalizing known with
  | nil => simp
  | cons s steps ih =>
    simp only [chain, Bool.and_eq_true] at h
    have hs := prime_of_stands hknown h.1
    have hrest := ih (List.forall_mem_cons.2 ⟨hs, hknown⟩) h.2
    exact List.forall_mem_cons.2 ⟨hs, hrest⟩

end LucasStep

/-- The chain that ends at `p`. -/
def fieldChain : List LucasStep :=
  [⟨1923133, 2, [2, 2, 3, 43, 3727]⟩,
   ⟨8574133, 2, [2, 2, 3, 7, 103, 991]⟩,
   ⟨2773320623, 5, [2, 2437, 569003]⟩,
   ⟨72106336199, 7, [2, 13, 2773320623]⟩,
   ⟨1919519569386763, 2, [2, 3, 7, 19, 47, 47, 127, 8574133]⟩,
   ⟨31757755568855353, 10, [2, 2, 2, 3, 31, 107, 223, 4153, 430751]⟩,
   ⟨75445702479781427272750846543864801, 7,
    [2, 2, 2, 2, 2, 3, 3, 5, 5, 75707, 72106336199, 1919519569386763]⟩,
   ⟨74058212732561358302231226437062788676166966415465897661863160754340907, 2,
    [2, 3, 353, 57467, 132049, 1923133, 31757755568855353, 75445702479781427272750846543864801]⟩,
   ⟨p, 2,
    [2, 2, 3, 65147, 74058212732561358302231226437062788676166966415465897661863160754340907]⟩]

/-- The chain that ends at `N`. -/
def orderChain : List LucasStep :=
  [⟨1224481, 13, [2, 2, 2, 2, 2, 3, 5, 2551]⟩,
   ⟨14741173, 2, [2, 2, 3, 3, 409477]⟩,
   ⟨58964693, 2, [2, 2, 14741173]⟩,
   ⟨292386187, 2, [2, 3, 3, 3, 3, 307, 5879]⟩,
   ⟨213441916511, 13, [2, 5, 73, 292386187]⟩,
   ⟨1257559732178653, 2, [2, 2, 3, 7, 23, 531581, 1224481]⟩,
   ⟨4434155615661930479, 17, [2, 41, 43, 1257559732178653]⟩,
   ⟨3044861653679985063343, 5, [2, 3, 11, 30703, 82163, 132667, 137849]⟩,
   ⟨172054593956031949258510691, 2, [2, 5, 1361, 2851, 4434155615661930479]⟩,
   ⟨198211423230930754013084525763697, 5,
    [2, 2, 2, 2, 3, 23, 58964693, 3044861653679985063343]⟩,
   ⟨19757330305831588566944191468367130476339, 2,
    [2, 269, 213441916511, 172054593956031949258510691]⟩,
   ⟨276602624281642239937218680557139826668747, 2,
    [2, 7, 19757330305831588566944191468367130476339]⟩,
   ⟨N, 2,
    [2, 2, 3, 11, 198211423230930754013084525763697,
      276602624281642239937218680557139826668747]⟩]

end Primality

open Primality in
theorem p_prime : p.Prime := by
  have h : LucasStep.chain [] fieldChain = true := by decide +kernel
  exact LucasStep.prime_of_chain (by simp) h (fieldChain.getLast (by decide)) (List.getLast_mem _)

open Primality in
theorem N_prime : N.Prime := by
  have h : LucasStep.chain [] orderChain = true := by decide +kernel
  exact LucasStep.prime_of_chain (by simp) h (orderChain.getLast (by decide)) (List.getLast_mem _)

instance : Fact p.Prime := ⟨p_prime⟩

instance : Fact N.Prime := ⟨N_prime⟩

/-! ## Powers modulo a prime -/

section Powers

open Fin.CommRing

variable {q : Nat} [NeZero q] (a : Fin q)

theorem ladder_eq_pow (n : Nat) : ladder (fun r => r * r) (fun r => r * a) 1 n = a ^ n := by
  refine ladder_induction (R := fun k r => r = a ^ k) ?_ ?_ ?_ n
  · rw [pow_zero]
  · rintro k r rfl
    rw [← pow_add, two_mul]
  · rintro k r rfl
    rw [pow_succ]

variable [Fact q.Prime] {a}

theorem fin_pow_card_sub_one (h : a ≠ 0) : a ^ (q - 1) = 1 := by
  let e := ZMod.finEquiv q
  apply e.injective
  rw [map_pow, map_one]
  exact ZMod.pow_card_sub_one_eq_one ((map_ne_zero_iff e e.injective).2 h)

theorem mul_ladder_eq_one (h : a ≠ 0) :
    a * ladder (fun r => r * r) (fun r => r * a) 1 (q - 2) = 1 := by
  have hq : q - 2 + 1 = q - 1 := by
    have := (Fact.out : q.Prime).two_le
    omega
  rw [ladder_eq_pow, ← pow_succ', hq, fin_pow_card_sub_one h]

end Powers

end JointSchnorr
