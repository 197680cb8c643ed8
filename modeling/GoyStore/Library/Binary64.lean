import Mathlib.Data.Int.Basic
import Std.Data.TreeMap

/-!
# Binary64 numbers and their two orders

A number of the IEEE 754 format binary64 is its 64 bits.  `value` is the number that the bits
stand for, counted in units of the least subnormal, so that it is an integer; an infinity gets the
value that its bits would have if the format had one more exponent, and a NaN has none.

`le` is the comparison `<=` of IEEE 754: both zeros are equal, and a NaN compares with nothing.
`totalCmp` is the total order of the bits: it separates the zeros and the NaNs.  The two agree on
finite numbers other than negative zero (`le_iff_totalKey_le`).
-/

/-- A binary64 number, as its bits. -/
structure Binary64 where
  /-- The bits: the sign, eleven bits of exponent, 52 bits of fraction. -/
  bits : BitVec 64
  deriving DecidableEq, Repr

namespace Binary64

/-- The exponent field. -/
def exponent (x : Binary64) : ℕ := (x.bits.extractLsb' 52 11).toNat

/-- The fraction field. -/
def fraction (x : Binary64) : ℕ := (x.bits.extractLsb' 0 52).toNat

/-- The bits stand for no number. -/
def isNaN (x : Binary64) : Bool := x.exponent == 2047 && x.fraction != 0

/-- The magnitude, in units of the least subnormal; unless the exponent field is 0, the fraction
has a leading bit that is not stored. -/
def magnitude (x : Binary64) : ℕ :=
  if x.exponent = 0 then x.fraction
  else (0x10000000000000 + x.fraction) <<< (x.exponent - 1)

/-- The value, in units of the least subnormal; a NaN has none. -/
def value (x : Binary64) : Option ℤ :=
  if x.isNaN then none
  else if x.bits.msb then some (-(x.magnitude : ℤ))
  else some (x.magnitude : ℤ)

/-- The comparison `<=` of IEEE 754. -/
def le (x y : Binary64) : Bool :=
  match x.value, y.value with
  | some a, some b => decide (a ≤ b)
  | _, _ => false

/-- Both zeros are equal, and a NaN is not below itself. -/
example : le ⟨0x8000000000000000#64⟩ ⟨0#64⟩ ∧ le ⟨0#64⟩ ⟨0x8000000000000000#64⟩ ∧
    ¬ le ⟨0x7ff8000000000000#64⟩ ⟨0x7ff8000000000000#64⟩ := by decide

/-- Flip all bits of a negative number but its sign. -/
def flipNegative (b : BitVec 64) : BitVec 64 :=
  b ^^^ if b.msb then 0x7fffffffffffffff#64 else 0#64

/-- The key of the total order. -/
def totalKey (x : Binary64) : ℤ := (flipNegative x.bits).toInt

/-- The comparison of the total order. -/
def totalCmp : Binary64 → Binary64 → Ordering := compareOn totalKey

/-- Flipping keeps the sign, so flipping again gives the bits back. -/
lemma flipNegative_involutive : Function.Involutive flipNegative := by
  intro b
  have hmsb : (flipNegative b).msb = b.msb := by
    rw [flipNegative, BitVec.msb_xor]
    cases b.msb <;> rfl
  rw [flipNegative, hmsb, flipNegative, BitVec.xor_assoc, BitVec.xor_self, BitVec.xor_zero]

/-- Numbers with the same key have the same bits. -/
lemma totalKey_injective : Function.Injective totalKey := by
  rintro ⟨a⟩ ⟨b⟩ h
  have hflip : flipNegative a = flipNegative b := BitVec.eq_of_toInt_eq h
  have hbits : a = b := flipNegative_involutive.injective hflip
  rw [hbits]

instance : Std.TransCmp totalCmp := inferInstanceAs (Std.TransCmp (compareOn totalKey))

instance : Std.LawfulEqCmp totalCmp where
  eq_of_compare h := totalKey_injective (Std.LawfulEqOrd.eq_of_compare h)

/-! ### The two orders on finite numbers -/

/-- The bits without the sign. -/
def lowBits (x : Binary64) : ℕ := x.bits.toNat % 0x8000000000000000

/-- The number is finite. -/
def IsFinite (x : Binary64) : Prop := x.exponent ≠ 2047

instance (x : Binary64) : Decidable x.IsFinite := inferInstanceAs (Decidable (x.exponent ≠ 2047))

/-- The bits without the sign are the two fields. -/
lemma lowBits_eq (x : Binary64) : x.lowBits = x.exponent * 0x10000000000000 + x.fraction := by
  unfold lowBits exponent fraction
  rw [BitVec.extractLsb'_toNat, BitVec.extractLsb'_toNat, Nat.shiftRight_eq_div_pow,
    Nat.shiftRight_eq_div_pow]
  have hlt := x.bits.isLt
  omega

/-- The fraction has 52 bits. -/
lemma fraction_lt (x : Binary64) : x.fraction < 0x10000000000000 := BitVec.isLt _

/-- Flipping the sign of a negative number. -/
lemma toNat_flipSign {b : BitVec 64} (hb : b.msb = true) :
    (b ^^^ 0x8000000000000000#64).toNat = b.toNat - 0x8000000000000000 := by
  rw [BitVec.msb_eq_decide, decide_eq_true_iff] at hb
  have hlt := b.isLt
  have hsign : (0x8000000000000000#64).toNat = 0x8000000000000000 := by decide
  rw [BitVec.toNat_xor, hsign]
  have hmod : (b.toNat ^^^ 0x8000000000000000) % 2 ^ 63 =
      b.toNat % 2 ^ 63 ^^^ 0x8000000000000000 % 2 ^ 63 := Nat.xor_mod_two_pow
  have hdiv : (b.toNat ^^^ 0x8000000000000000) / 2 ^ 63 =
      b.toNat / 2 ^ 63 ^^^ 0x8000000000000000 / 2 ^ 63 := Nat.xor_div_two_pow
  have hone : b.toNat / 2 ^ 63 = 1 := by omega
  have hsame : 1 ^^^ 0x8000000000000000 / 2 ^ 63 = 0 := by decide
  have hzero : 0x8000000000000000 % 2 ^ 63 = 0 := by decide
  rw [hone, hsame] at hdiv
  rw [hzero, Nat.xor_zero] at hmod
  omega

/-- The key of the total order, from the sign and the other bits. -/
lemma totalKey_eq (x : Binary64) :
    x.totalKey = if x.bits.msb then -1 - (x.lowBits : ℤ) else (x.lowBits : ℤ) := by
  have hlt := x.bits.isLt
  unfold totalKey flipNegative lowBits
  cases hmsb : x.bits.msb with
  | false =>
    rw [BitVec.msb_eq_decide, decide_eq_false_iff_not] at hmsb
    rw [if_neg Bool.false_ne_true, if_neg Bool.false_ne_true, BitVec.xor_zero,
      BitVec.toInt_eq_toNat_cond]
    split_ifs <;> omega
  | true =>
    have hflip := toNat_flipSign hmsb
    have hnot : (0x7fffffffffffffff#64) = ~~~ (0x8000000000000000#64) := by decide
    rw [BitVec.msb_eq_decide, decide_eq_true_iff] at hmsb
    rw [if_pos rfl, if_pos rfl, hnot, ← BitVec.not_xor_right, BitVec.toInt_eq_toNat_cond,
      BitVec.toNat_not, hflip]
    split_ifs <;> omega

/-- The magnitude grows with the bits without the sign. -/
lemma magnitude_lt {x y : Binary64} (h : x.lowBits < y.lowBits) : x.magnitude < y.magnitude := by
  rw [lowBits_eq, lowBits_eq] at h
  have hx := x.fraction_lt
  have hy := y.fraction_lt
  unfold magnitude
  rw [Nat.shiftLeft_eq, Nat.shiftLeft_eq]
  rcases Nat.lt_or_ge x.exponent y.exponent with hlt | hge
  · have hy0 : y.exponent ≠ 0 := by omega
    rw [if_neg hy0]
    have hlow : 0x10000000000000 * 2 ^ (y.exponent - 1) ≤
        (0x10000000000000 + y.fraction) * 2 ^ (y.exponent - 1) :=
      Nat.mul_le_mul_right _ (by omega)
    by_cases hx0 : x.exponent = 0
    · rw [if_pos hx0]
      have hpos : 1 ≤ 2 ^ (y.exponent - 1) := Nat.one_le_two_pow
      omega
    · rw [if_neg hx0]
      -- the leading bit of `y` alone is above all of `x`
      have htop : (0x10000000000000 + x.fraction) * 2 ^ (x.exponent - 1) <
          0x20000000000000 * 2 ^ (x.exponent - 1) :=
        Nat.mul_lt_mul_of_pos_right (by omega) (Nat.two_pow_pos _)
      have hstep : 2 ^ x.exponent = 2 * 2 ^ (x.exponent - 1) := by
        rw [← Nat.pow_succ', Nat.succ_eq_add_one, Nat.sub_one_add_one hx0]
      have hmono : 2 ^ x.exponent ≤ 2 ^ (y.exponent - 1) :=
        Nat.pow_le_pow_right (by omega) (by omega)
      omega
  · have heq : x.exponent = y.exponent := by omega
    have hfraction : x.fraction < y.fraction := by omega
    rw [heq]
    split_ifs
    · exact hfraction
    · exact Nat.mul_lt_mul_of_pos_right (by omega) (Nat.two_pow_pos _)

/-- The magnitude depends on the bits without the sign only. -/
lemma magnitude_congr {x y : Binary64} (h : x.lowBits = y.lowBits) :
    x.magnitude = y.magnitude := by
  rw [lowBits_eq, lowBits_eq] at h
  have hx := x.fraction_lt
  have hy := y.fraction_lt
  have hexponent : x.exponent = y.exponent := by omega
  have hfraction : x.fraction = y.fraction := by omega
  unfold magnitude
  rw [hexponent, hfraction]

/-- The magnitudes are ordered as the bits without the sign. -/
lemma magnitude_le_iff {x y : Binary64} : x.magnitude ≤ y.magnitude ↔ x.lowBits ≤ y.lowBits := by
  constructor
  · intro h
    by_contra hlt
    have hmag := magnitude_lt (Nat.lt_of_not_le hlt)
    omega
  · intro h
    rcases Nat.lt_or_eq_of_le h with hlt | heq
    · exact Nat.le_of_lt (magnitude_lt hlt)
    · exact Nat.le_of_eq (magnitude_congr heq)

/-- The value of a finite number. -/
lemma value_of_isFinite {x : Binary64} (hx : x.IsFinite) :
    x.value = some (if x.bits.msb then -(x.magnitude : ℤ) else x.magnitude) := by
  have hnan : x.isNaN = false := by
    unfold isNaN
    simp [show x.exponent ≠ 2047 from hx]
  unfold value
  rw [hnan]
  cases x.bits.msb <;> rfl

/-- Positive zero. -/
def zero : Binary64 := ⟨0#64⟩

/-- A negative number that is not negative zero has a magnitude. -/
lemma magnitude_pos {x : Binary64} (hx : x.bits ≠ 0x8000000000000000#64)
    (hsign : x.bits.msb = true) : 0 < x.magnitude := by
  have hlow : 0 < x.lowBits := by
    by_contra hzero
    refine hx (BitVec.eq_of_toNat_eq ?_)
    have hof : (0x8000000000000000#64).toNat = 0x8000000000000000 := by decide
    have hlt := x.bits.isLt
    rw [BitVec.msb_eq_decide, decide_eq_true_iff] at hsign
    unfold lowBits at hzero
    rw [hof]
    omega
  have hzero : zero.lowBits = 0 := by decide
  have hmag := magnitude_lt (x := zero) (y := x) (by omega)
  omega

/-- On finite numbers other than negative zero, the comparison `<=` is the total order. -/
theorem le_iff_totalKey_le {x y : Binary64} (hx : x.IsFinite)
    (hx0 : x.bits ≠ 0x8000000000000000#64) (hy : y.IsFinite)
    (hy0 : y.bits ≠ 0x8000000000000000#64) : x.le y = true ↔ x.totalKey ≤ y.totalKey := by
  have hle : x.magnitude ≤ y.magnitude ↔ x.lowBits ≤ y.lowBits := magnitude_le_iff
  have hge : y.magnitude ≤ x.magnitude ↔ y.lowBits ≤ x.lowBits := magnitude_le_iff
  unfold le
  rw [value_of_isFinite hx, value_of_isFinite hy, totalKey_eq, totalKey_eq]
  cases hsx : x.bits.msb with
  | false =>
    cases hsy : y.bits.msb with
    | false => simpa using hle
    | true =>
      have hpos := magnitude_pos hy0 hsy
      simp
      omega
  | true =>
    have hpos := magnitude_pos hx0 hsx
    cases hsy : y.bits.msb with
    | false =>
      simp
      omega
    | true =>
      simp
      omega

/-! ### The two orders on all numbers -/

/-- Negative zero. -/
def negZero : Binary64 := ⟨0x8000000000000000#64⟩

/-- The bits without the sign of a NaN are above those of an infinity. -/
lemma isNaN_iff {x : Binary64} : x.isNaN = true ↔ 0x7ff0000000000000 < x.lowBits := by
  have hexponent : x.exponent < 2048 := BitVec.isLt _
  have hfraction := x.fraction_lt
  rw [isNaN, lowBits_eq, Bool.and_eq_true, beq_iff_eq, bne_iff_ne]
  omega

/-- The value of a number. -/
lemma value_of_not_isNaN {x : Binary64} (hx : x.isNaN = false) :
    x.value = some (if x.bits.msb then -(x.magnitude : ℤ) else x.magnitude) := by
  unfold value
  rw [hx]
  cases x.bits.msb <;> rfl

/-- A NaN compares with nothing. -/
lemma le_eq_false_of_isNaN {x y : Binary64} (h : x.isNaN = true ∨ y.isNaN = true) :
    x.le y = false := by
  unfold le
  rcases h with h | h
  · have hvalue : x.value = none := by simp [value, h]
    rw [hvalue]
  · have hvalue : y.value = none := by simp [value, h]
    rw [hvalue]
    cases x.value <;> rfl

/-- The key of negative zero is the one below that of zero. -/
lemma eq_negZero_iff {x : Binary64} : x = negZero ↔ x.totalKey = -1 :=
  ⟨fun h => h ▸ by decide, fun h => totalKey_injective (h.trans (by decide))⟩

/-- The key of zero. -/
lemma eq_zero_iff {x : Binary64} : x = zero ↔ x.totalKey = 0 :=
  ⟨fun h => h ▸ by decide, fun h => totalKey_injective (h.trans (by decide))⟩

/-- On numbers, infinities and zeros among them, the comparison `<=` is the total order, but that it
also puts zero below negative zero. -/
theorem le_iff_of_not_isNaN {x y : Binary64} (hx : x.isNaN = false) (hy : y.isNaN = false) :
    x.le y = true ↔ x.totalKey ≤ y.totalKey ∨ x = zero ∧ y = negZero := by
  have hle : x.magnitude ≤ y.magnitude ↔ x.lowBits ≤ y.lowBits := magnitude_le_iff
  have hge : y.magnitude ≤ x.magnitude ↔ y.lowBits ≤ x.lowBits := magnitude_le_iff
  have hzero : zero.magnitude = 0 ∧ zero.lowBits = 0 := by decide
  have hx0 : x.magnitude ≤ zero.magnitude ↔ x.lowBits ≤ zero.lowBits := magnitude_le_iff
  have hy0 : y.magnitude ≤ zero.magnitude ↔ y.lowBits ≤ zero.lowBits := magnitude_le_iff
  rw [hzero.1, hzero.2] at hx0 hy0
  unfold le
  rw [value_of_not_isNaN hx, value_of_not_isNaN hy, eq_zero_iff, eq_negZero_iff, totalKey_eq,
    totalKey_eq]
  cases x.bits.msb <;> cases y.bits.msb <;> simp <;> omega

/-- No NaN is between two numbers. -/
lemma isNaN_eq_false_of_between {a b x : Binary64} (ha : a.isNaN = false) (hb : b.isNaN = false)
    (hlow : a.totalKey ≤ x.totalKey) (hhigh : x.totalKey ≤ b.totalKey) : x.isNaN = false := by
  rw [← Bool.not_eq_true, isNaN_iff] at *
  rw [totalKey_eq, totalKey_eq] at hlow hhigh
  split_ifs at hlow hhigh <;> omega

end Binary64
