import Mathlib
import JointSchnorr.Proofs.Curve.Prime
import JointSchnorr.Proofs.Encoding.Key

/-!
# Single flipped bits

Flipping the bit at position `j` of a byte string adds `2 ^ j` to its value or takes it away
(`value_flipBit`). As the prime `N` divides no power of two, a byte string with a flipped bit reads
as another scalar, also where the flipped bit is one of those that are reduced
(`ofBytes_flipBit_ne`). So a key or a nonce with a flipped bit is refused or is another one
(`decode_flipBit`).
-/

namespace JointSchnorr

theorem N_not_dvd_two_pow (j : Nat) : ¬ N ∣ 2 ^ j := by
  intro h
  have htwo := Nat.le_of_dvd (by decide) (N_prime.dvd_of_dvd_pow h)
  exact absurd htwo (by decide)

/-- Flipping a binary digit adds its weight or takes it away. -/
theorem xor_two_pow_cases (n i : Nat) : n ^^^ 2 ^ i = n + 2 ^ i ∨ (n ^^^ 2 ^ i) + 2 ^ i = n := by
  have hlow : (n ^^^ 2 ^ i) % 2 ^ i = n % 2 ^ i := by
    rw [Nat.xor_mod_two_pow, Nat.mod_self, Nat.xor_zero]
  have hhigh : (n ^^^ 2 ^ i) / 2 ^ i = n / 2 ^ i ^^^ 1 := by
    rw [Nat.xor_div_two_pow, Nat.div_self (Nat.two_pow_pos i)]
  have hn := Nat.div_add_mod n (2 ^ i)
  rw [← Nat.div_add_mod (n ^^^ 2 ^ i) (2 ^ i), hlow, hhigh]
  rcases Nat.even_or_odd (n / 2 ^ i) with heven | hodd
  · left
    rw [Nat.xor_one_of_even heven, Nat.mul_add_one]
    omega
  · right
    obtain ⟨q, hq⟩ := hodd
    rw [Nat.xor_one_of_odd ⟨q, hq⟩, hq, Nat.add_sub_cancel]
    rw [hq, Nat.mul_add_one] at hn
    omega

namespace Bytes

/-- The byte string with the bit at position `j` flipped, counted from the least significant bit of
the first byte. -/
def flipBit (bs : Bytes) (j : Nat) : Bytes := bs.modify (j / 8) (· ^^^ UInt8.ofNat (2 ^ (j % 8)))

theorem length_flipBit (bs : Bytes) (j : Nat) : (bs.flipBit j).length = bs.length :=
  List.length_modify _ _ _

/-- Changing one byte changes the value by that byte's weight. -/
theorem value_modify {bs : Bytes} {i : Nat} (h : i < bs.length) (f : UInt8 → UInt8) :
    value (bs.modify i f) + 256 ^ i * bs[i].toNat = value bs + 256 ^ i * (f bs[i]).toNat := by
  induction bs generalizing i with
  | nil => exact absurd h (Nat.not_lt_zero i)
  | cons b bs ih =>
    cases i with
    | zero =>
      show (f b).toNat + 256 * value bs + 256 ^ 0 * b.toNat =
        b.toNat + 256 * value bs + 256 ^ 0 * (f b).toNat
      omega
    | succ i =>
      have hlt : i < bs.length := Nat.lt_of_succ_lt_succ h
      have hi := ih hlt
      show b.toNat + 256 * value (bs.modify i f) + 256 ^ (i + 1) * bs[i].toNat =
        b.toNat + 256 * value bs + 256 ^ (i + 1) * (f bs[i]).toNat
      rw [pow_succ, mul_comm (256 ^ i) 256, mul_assoc, mul_assoc]
      omega

theorem toNat_xor_two_pow (b : UInt8) {i : Nat} (hi : i < 8) :
    (b ^^^ UInt8.ofNat (2 ^ i)).toNat = b.toNat ^^^ 2 ^ i := by
  have hlt : 2 ^ i < 2 ^ 8 := Nat.pow_lt_pow_right (by decide) hi
  rw [UInt8.toNat_xor, UInt8.toNat_ofNat', Nat.mod_eq_of_lt hlt]

theorem value_flipBit {bs : Bytes} {j : Nat} (h : j < 8 * bs.length) :
    value (bs.flipBit j) = value bs + 2 ^ j ∨ value (bs.flipBit j) + 2 ^ j = value bs := by
  have hi : j / 8 < bs.length := Nat.div_lt_of_lt_mul h
  have hweight : 256 ^ (j / 8) * 2 ^ (j % 8) = 2 ^ j := by
    rw [show 256 = 2 ^ 8 from rfl, ← pow_mul, ← pow_add, Nat.div_add_mod]
  have hvalue := value_modify hi (· ^^^ UInt8.ofNat (2 ^ (j % 8)))
  simp only [toNat_xor_two_pow _ (Nat.mod_lt j (by decide : 0 < 8))] at hvalue
  rw [flipBit]
  rcases xor_two_pow_cases bs[j / 8].toNat (j % 8) with hset | hcleared
  · left
    rw [hset, mul_add, hweight] at hvalue
    omega
  · right
    have hbyte := congrArg (256 ^ (j / 8) * ·) hcleared
    simp only [mul_add, hweight] at hbyte
    omega

end Bytes

namespace Scalar

theorem ofBytes_flipBit_ne {bs : Bytes} {j : Nat} (h : j < 8 * bs.length) :
    ofBytes (bs.flipBit j) ≠ ofBytes bs := by
  intro heq
  have hmod : (bs.flipBit j).value ≡ bs.value [MOD N] := Fin.ext_iff.1 heq
  apply N_not_dvd_two_pow j
  rcases Bytes.value_flipBit h with hset | hcleared
  · rw [hset] at hmod
    exact Nat.add_modEq_left_iff.1 hmod
  · rw [← hcleared] at hmod
    exact Nat.add_modEq_left_iff.1 hmod.symm

end Scalar

/-- A secret with a flipped bit is another secret or none. -/
theorem Secret.decode_flipBit {what : Encoded} {zero : Error} {bs : Bytes} {l : Secret} {j : Nat}
    (h : Secret.decode what zero bs = .ok l) (hj : j < 256) :
    Secret.decode what zero (bs.flipBit j) = .error zero ∨
      ∃ l' : Secret, Secret.decode what zero (bs.flipBit j) = .ok l' ∧ l'.scalar ≠ l.scalar := by
  obtain ⟨hlen, hscalar⟩ := Secret.decode_eq_ok_iff.1 h
  have hlen' : (bs.flipBit j).length = 32 := (bs.length_flipBit j).trans hlen
  by_cases hv : N ∣ (bs.flipBit j).value
  · exact .inl (Secret.decode_of_dvd what zero hlen' hv)
  · obtain ⟨l', hl', hdecode⟩ := Secret.exists_decode what zero hlen' hv
    refine .inr ⟨l', hdecode, ?_⟩
    rw [hl', ← hscalar]
    exact Scalar.ofBytes_flipBit_ne (by rw [hlen]; exact hj)

theorem PrivateKey.decode_flipBit {d : Bytes} {x : PrivateKey} {j : Nat}
    (h : PrivateKey.decode d = .ok x) (hj : j < 256) :
    PrivateKey.decode (d.flipBit j) = .error .invalidKey ∨
      ∃ x' : PrivateKey, PrivateKey.decode (d.flipBit j) = .ok x' ∧ x'.scalar ≠ x.scalar := by
  have hsecret : Secret.decode .privateKey .invalidKey d = .ok x.secret :=
    Secret.decode_eq_ok_iff.2 (PrivateKey.decode_eq_ok_iff.1 h)
  rw [PrivateKey.decode]
  rcases Secret.decode_flipBit hsecret hj with herror | ⟨l, hl, hne⟩
  · exact .inl (by rw [herror]; rfl)
  · exact .inr ⟨⟨l⟩, by rw [hl]; rfl, hne⟩

theorem Nonce.decode_flipBit {k : Bytes} {n : Nonce} {j : Nat} (h : Nonce.decode k = .ok n)
    (hj : j < 256) :
    Nonce.decode (k.flipBit j) = .error .invalidNonce ∨
      ∃ n' : Nonce, Nonce.decode (k.flipBit j) = .ok n' ∧ n'.scalar ≠ n.scalar := by
  have hsecret : Secret.decode .secretNonce .invalidNonce k = .ok n.secret :=
    Secret.decode_eq_ok_iff.2 (Nonce.decode_eq_ok_iff.1 h)
  rw [Nonce.decode]
  rcases Secret.decode_flipBit hsecret hj with herror | ⟨l, hl, hne⟩
  · exact .inl (by rw [herror]; rfl)
  · exact .inr ⟨⟨l⟩, by rw [hl]; rfl, hne⟩

end JointSchnorr
