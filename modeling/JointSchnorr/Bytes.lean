/-!
# Byte strings

Byte strings are lists of bytes. A byte string has a little-endian `value`, and `digits`
writes a number with a given count of bytes; from the value and the length the byte string is
written again (`digits_value`). `Octets n` is a byte string of exactly `n` bytes, and `hex` is
the lower-case text of a byte string.
-/

namespace JointSchnorr

/-- A byte string. -/
abbrev Bytes := List UInt8

namespace Bytes

/-- The number that a byte string writes, least significant byte first. -/
def value : Bytes → Nat
  | [] => 0
  | b :: bs => b.toNat + 256 * value bs

/-- The lowest `n` base-256 digits of `v`, least significant first. -/
def digits : Nat → Nat → Bytes
  | 0, _ => []
  | n + 1, v => UInt8.ofNat v :: digits n (v / 256)

@[simp] theorem length_digits (n v : Nat) : (digits n v).length = n := by
  induction n generalizing v with
  | zero => rfl
  | succ n ih => simp [digits, ih]

theorem digits_value (bs : Bytes) : digits bs.length (value bs) = bs := by
  induction bs with
  | nil => rfl
  | cons b bs ih =>
    have hb := b.toNat_lt
    have hdiv : (b.toNat + 256 * value bs) / 256 = value bs := by omega
    have hlow : UInt8.ofNat (b.toNat + 256 * value bs) = b := by
      apply UInt8.toNat_inj.1
      simp only [UInt8.toNat_ofNat']
      omega
    rw [List.length_cons, digits, value, hdiv, hlow, ih]

/-- The hexadecimal digit for a number below sixteen, in lower case. -/
def hexDigit (n : Nat) : Char :=
  if n < 10 then Char.ofNat (48 + n) else Char.ofNat (87 + n)

/-- The characters of `hex`: two digits for each byte, high half first. -/
def hexChars : Bytes → List Char
  | [] => []
  | b :: bs => hexDigit (b.toNat / 16) :: hexDigit (b.toNat % 16) :: hexChars bs

/-- Lower-case hexadecimal text. -/
def hex (bs : Bytes) : String := String.ofList (hexChars bs)

/-- The value of a hexadecimal digit of either case. -/
def hexValue? (c : Char) : Option Nat :=
  if '0' ≤ c ∧ c ≤ '9' then some (c.toNat - 48)
  else if 'a' ≤ c ∧ c ≤ 'f' then some (c.toNat - 87)
  else if 'A' ≤ c ∧ c ≤ 'F' then some (c.toNat - 55)
  else none

/-- Reads pairs of hexadecimal digits; an odd digit or any other character is refused. -/
def ofHexChars? : List Char → Option Bytes
  | [] => some []
  | [_] => none
  | h :: l :: rest => do
    let high ← hexValue? h
    let low ← hexValue? l
    let bs ← ofHexChars? rest
    return UInt8.ofNat (16 * high + low) :: bs

/-- Reads hexadecimal text. -/
def ofHex? (text : String) : Option Bytes := ofHexChars? text.toList

end Bytes

/-- A byte string of exactly `n` bytes. -/
structure Octets (n : Nat) where
  toList : Bytes
  length_toList : toList.length = n
deriving DecidableEq

namespace Octets

variable {n : Nat}

@[ext] theorem ext {a b : Octets n} (h : a.toList = b.toList) : a = b := by
  cases a; cases b; cases h; rfl

/-- The byte string as one of `n` bytes, if that is its length. -/
def ofList? (n : Nat) (bs : Bytes) : Option (Octets n) :=
  if h : bs.length = n then some ⟨bs, h⟩ else none

/-- The little-endian value. -/
def value (o : Octets n) : Nat := Bytes.value o.toList

/-- The little-endian form of `v` in `n` bytes, of which higher digits are cut off. -/
def ofNat (n v : Nat) : Octets n := ⟨Bytes.digits n v, Bytes.length_digits n v⟩

@[simp] theorem ofList?_toList (o : Octets n) : ofList? n o.toList = some o := by
  simp [ofList?, o.length_toList]

theorem ofList?_eq_some_iff {bs : Bytes} {o : Octets n} :
    ofList? n bs = some o ↔ bs = o.toList := by
  constructor
  · intro h
    unfold ofList? at h
    split at h
    · simpa using congrArg Octets.toList (Option.some.inj h)
    · simp at h
  · rintro rfl
    simp

@[simp] theorem ofNat_value (o : Octets n) : ofNat n o.value = o := by
  apply Octets.ext
  have := Bytes.digits_value o.toList
  rwa [o.length_toList] at this

theorem value_injective {a b : Octets n} (h : a.value = b.value) : a = b := by
  rw [← ofNat_value a, ← ofNat_value b, h]

end Octets

end JointSchnorr
