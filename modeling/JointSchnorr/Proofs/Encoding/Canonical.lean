import Mathlib
import JointSchnorr.Proofs.Encoding.Scalar

/-!
# The test for numbers below the order

`isCanonical` goes through 32 bytes from the most significant one for as long as they are the bytes
of the order (`comesBefore_append`), and the first other byte decides, whatever stands below it
(`comesBefore_cons_of_ne`). So it tells which 32 bytes write a number below the order, and these are
the bytes that reduction modulo the order leaves as they are (`canonical_test`).
-/

namespace JointSchnorr.Scalar

open Bytes

/-- Equal bytes at the start are passed over. -/
theorem comesBefore_append (front as bs : Bytes) :
    comesBefore (front ++ as) (front ++ bs) = comesBefore as bs := by
  induction front with
  | nil => rfl
  | cons c front ih =>
    rw [List.cons_append, List.cons_append, comesBefore, if_pos rfl, ih]

theorem comesBefore_cons_of_ne {a b : UInt8} (h : a ≠ b) (as bs : Bytes) :
    comesBefore (a :: as) (b :: bs) = decide (a < b) := if_neg h

/-- Nothing is below itself: the search ends without a byte that decides. -/
theorem comesBefore_self (bs : Bytes) : comesBefore bs bs = false := by
  have h := comesBefore_append bs [] []
  rwa [List.append_nil] at h

section CommonEnd

variable {o : Octets 32} {low bound high : Bytes}

/-- The high bytes that are the order's leave the decision to the bytes below them. -/
theorem isCanonical_eq_of_append (ho : o.toList = low ++ high)
    (hN : orderOctets.toList = bound ++ high) :
    isCanonical o = comesBefore low.reverse bound.reverse := by
  rw [isCanonical, ho, hN, List.reverse_append, List.reverse_append, comesBefore_append]

theorem isCanonical_iff_of_append (ho : o.toList = low ++ high)
    (hN : orderOctets.toList = bound ++ high) :
    isCanonical o = true ↔ value low < value bound := by
  have hlen : low.length = bound.length := by
    have hlow := congrArg List.length ho
    have hbound := congrArg List.length hN
    rw [o.length_toList, List.length_append] at hlow
    rw [orderOctets.length_toList, List.length_append] at hbound
    omega
  rw [isCanonical_eq_of_append ho hN, comesBefore_iff (by simpa using hlen), List.reverse_reverse,
    List.reverse_reverse]

/-- The highest byte that is not the order's decides. -/
theorem isCanonical_eq_of_ne {a b : UInt8} (ho : o.toList = low ++ a :: high)
    (hN : orderOctets.toList = bound ++ b :: high) (h : a ≠ b) :
    isCanonical o = decide (a < b) := by
  rw [List.append_cons] at ho hN
  rw [isCanonical_eq_of_append ho hN, List.reverse_append, List.reverse_append,
    List.reverse_singleton, List.reverse_singleton, List.singleton_append, List.singleton_append,
    comesBefore_cons_of_ne h]

end CommonEnd

theorem isCanonical_orderOctets : isCanonical orderOctets = false := comesBefore_self _

theorem isCanonical_iff_encode (o : Octets 32) :
    isCanonical o = true ↔ (ofBytes o.toList).encode = o := by
  constructor
  · exact encode_ofBytes
  · intro h
    rw [← h]
    exact isCanonical_encode _

/-- **The test compares with the order.** 32 bytes pass exactly if they write a number below the
order, and exactly if they are the encoding of the scalar that they are read as. However many bytes
at the high end are those of the order, the bytes below them decide as numbers do; the highest byte
that differs settles it, whatever is below, and without such a byte the test fails. -/
theorem canonical_test (o : Octets 32) :
    orderOctets.toList =
      [0xed, 0xd3, 0xf5, 0x5c, 0x1a, 0x63, 0x12, 0x58, 0xd6, 0x9c, 0xf7, 0xa2, 0xde, 0xf9, 0xde,
        0x14, 0, 0, 0, 0, 0, 0, 0, 0, 0, 0, 0, 0, 0, 0, 0, 0x10] ∧
    (isCanonical o = true ↔ o.value < 2 ^ 252 + 27742317777372353535851937790883648493) ∧
    (isCanonical o = true ↔ (ofBytes o.toList).encode = o) ∧
    (∀ low bound high : Bytes, o.toList = low ++ high → orderOctets.toList = bound ++ high →
      (isCanonical o = true ↔ value low < value bound)) ∧
    (∀ (low bound high : Bytes) (a b : UInt8), o.toList = low ++ a :: high →
      orderOctets.toList = bound ++ b :: high → a ≠ b → isCanonical o = decide (a < b)) ∧
    (o = orderOctets → isCanonical o = false) := by
  refine ⟨by decide, ?_, isCanonical_iff_encode o, ?_, ?_, ?_⟩
  · rw [← N_eq]
    exact isCanonical_iff o
  · intro low bound high ho hN
    exact isCanonical_iff_of_append ho hN
  · intro low bound high a b ho hN hab
    exact isCanonical_eq_of_ne ho hN hab
  · rintro rfl
    exact isCanonical_orderOctets

/-! The order with its lowest byte changed, and a number that falls below it halfway, where all
lower bytes are as large as they can be. -/

/-- The order with another lowest byte. -/
def besideOrder (b : UInt8) : Octets 32 :=
  ⟨b :: orderOctets.toList.tail, by simp [orderOctets.length_toList]⟩

/-- The largest number whose sixteen high bytes are the order's and whose next byte is smaller. -/
def belowHalfway : Octets 32 :=
  ⟨List.replicate 15 0xff ++ 0x13 :: orderOctets.toList.drop 16, by decide⟩

theorem canonical_test_besideOrder :
    isCanonical (besideOrder 0xec) = true ∧ isCanonical (besideOrder 0xee) = false ∧
    isCanonical (besideOrder 0xed) = false ∧ isCanonical belowHalfway = true ∧
    (ofBytes belowHalfway.toList).encode = belowHalfway := by
  have hlowest : orderOctets.toList = [] ++ 0xed :: orderOctets.toList.tail := by decide
  have hhalfway : orderOctets.toList =
      orderOctets.toList.take 15 ++ 0x14 :: orderOctets.toList.drop 16 := by decide
  obtain ⟨-, -, -, -, hbelow, -⟩ := canonical_test (besideOrder 0xec)
  obtain ⟨-, -, -, -, habove, -⟩ := canonical_test (besideOrder 0xee)
  obtain ⟨-, -, -, -, -, hself⟩ := canonical_test (besideOrder 0xed)
  obtain ⟨-, -, hencode, -, hdecided, -⟩ := canonical_test belowHalfway
  have hpasses : isCanonical belowHalfway = true :=
    hdecided _ _ _ _ _ rfl hhalfway (by decide)
  exact ⟨hbelow [] [] _ _ _ rfl hlowest (by decide), habove [] [] _ _ _ rfl hlowest (by decide),
    hself (Octets.ext hlowest.symm), hpasses, hencode.1 hpasses⟩

end JointSchnorr.Scalar
