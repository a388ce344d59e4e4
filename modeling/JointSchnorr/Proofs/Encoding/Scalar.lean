import Mathlib
import JointSchnorr.Scalar.Lemmas

/-!
# Scalars from byte strings

Comparing byte strings of one length from the most significant byte compares their values
(`comesBefore_iff`), so `isCanonical` tells whether 32 bytes write a number below `N`
(`isCanonical_iff`), as the encoding of a scalar does. A byte string reads as zero when its value is
a multiple of `N` (`ofBytes_eq_zero_iff`).
-/

namespace JointSchnorr

theorem Bytes.value_append (as bs : Bytes) :
    value (as ++ bs) = value as + 256 ^ as.length * value bs := by
  induction as with
  | nil => simp [value]
  | cons a as ih =>
    rw [List.cons_append, value, ih, value, List.length_cons, pow_succ]
    ring

namespace Scalar

open Bytes

theorem comesBefore_iff {as bs : Bytes} (h : as.length = bs.length) :
    comesBefore as bs = true ↔ value as.reverse < value bs.reverse := by
  induction as generalizing bs with
  | nil =>
    rw [List.length_nil] at h
    rw [List.length_eq_zero_iff.1 h.symm]
    simp [comesBefore]
  | cons a as ih =>
    cases bs with
    | nil => simp at h
    | cons b bs =>
      rw [List.length_cons, List.length_cons, Nat.add_right_cancel_iff] at h
      have hv : ∀ c : UInt8, value [c] = c.toNat := fun c => by simp [value]
      rw [List.reverse_cons, List.reverse_cons, value_append, value_append, hv, hv,
        List.length_reverse, List.length_reverse, h]
      have ha := value_lt as.reverse
      have hb := value_lt bs.reverse
      rw [List.length_reverse, h] at ha
      rw [List.length_reverse] at hb
      unfold comesBefore
      split
      · next hab =>
        rw [ih h, hab]
        omega
      · next hab =>
        have hne : a.toNat ≠ b.toNat := fun e => hab (UInt8.toNat_inj.1 e)
        rw [decide_eq_true_iff, UInt8.lt_iff_toNat_lt]
        -- the leading bytes decide, whatever the lower bytes are
        rcases Nat.lt_or_gt_of_ne hne with hlt | hlt
        · have := Nat.mul_le_mul_left (256 ^ bs.length) (Nat.succ_le_of_lt hlt)
          rw [Nat.mul_succ] at this
          omega
        · have := Nat.mul_le_mul_left (256 ^ bs.length) (Nat.succ_le_of_lt hlt)
          rw [Nat.mul_succ] at this
          omega

theorem N_lt : N < 256 ^ 32 := by decide

theorem value_orderOctets : orderOctets.value = N := Octets.value_ofNat N_lt

theorem isCanonical_iff (o : Octets 32) : isCanonical o = true ↔ o.value < N := by
  have hlen : o.toList.reverse.length = orderOctets.toList.reverse.length := by
    rw [List.length_reverse, List.length_reverse, o.length_toList, orderOctets.length_toList]
  rw [isCanonical, comesBefore_iff hlen, List.reverse_reverse, List.reverse_reverse,
    ← value_orderOctets]
  rfl

theorem value_encode (k : Scalar) : k.encode.value = k.val :=
  Octets.value_ofNat (k.isLt.trans N_lt)

theorem isCanonical_encode (k : Scalar) : isCanonical k.encode = true := by
  rw [isCanonical_iff, value_encode]
  exact k.isLt

/-- Among 32 bytes, those that write a number below `N` are the encoding of what they read as. -/
theorem encode_ofBytes {o : Octets 32} (h : isCanonical o = true) :
    (ofBytes o.toList).encode = o := by
  apply Octets.value_injective
  rw [value_encode]
  exact Nat.mod_eq_of_lt ((isCanonical_iff o).1 h)

theorem ofNat_eq_zero_iff {n : Nat} : Fin.ofNat N n = 0 ↔ N ∣ n := by
  rw [Fin.ext_iff, Nat.dvd_iff_mod_eq_zero]
  rfl

theorem ofBytes_eq_zero_iff {bs : Bytes} : ofBytes bs = 0 ↔ N ∣ bs.value := ofNat_eq_zero_iff

theorem ofBytes_ofNat_mod (n : Nat) :
    ofBytes (Octets.ofNat 32 (n % N)).toList = Fin.ofNat N n := by
  have hn : n % N < N := Nat.mod_lt n N_pos
  apply Fin.ext
  show (Octets.ofNat 32 (n % N)).value % N = n % N
  rw [Octets.value_ofNat (hn.trans N_lt), Nat.mod_eq_of_lt hn]

theorem val_sum (ks : List Scalar) : (sum ks).val = (ks.map (·.val)).sum % N := by
  induction ks with
  | nil => rfl
  | cons k ks ih =>
    show (k.val + (sum ks).val) % N = (k.val + (ks.map (·.val)).sum) % N
    rw [ih, Nat.add_mod_mod]

theorem sum_append (ks ls : List Scalar) : sum (ks ++ ls) = sum ks + sum ls := by
  induction ks with
  | nil => exact (zero_add _).symm
  | cons k ks ih =>
    show k + sum (ks ++ ls) = k + sum ks + sum ls
    rw [ih, add_assoc]

theorem sum_perm {ks ls : List Scalar} (h : ks.Perm ls) : sum ks = sum ls := by
  have : LeftCommutative fun a b : Scalar => a + b := ⟨fun a b c => add_left_comm a b c⟩
  exact h.foldr_eq 0

/-- The sum of scalars that are read from byte strings is the sum of the values modulo `N`. -/
theorem sum_ofBytes (bss : List Bytes) :
    sum (bss.map ofBytes) = Fin.ofNat N (bss.map value).sum := by
  induction bss with
  | nil => rfl
  | cons bs bss ih =>
    show ofBytes bs + sum (bss.map ofBytes) = Fin.ofNat N (bs.value + (bss.map value).sum)
    rw [ih]
    apply Fin.ext
    show (bs.value % N + (bss.map value).sum % N) % N = (bs.value + (bss.map value).sum) % N
    rw [← Nat.add_mod]

theorem encode_injective {a b : Scalar} (h : a.encode = b.encode) : a = b := by
  rw [← ofBytes_encode a, h, ofBytes_encode]

end Scalar

end JointSchnorr
