import Mathlib.Algebra.Order.Floor.Ring
import Mathlib.Algebra.Order.Ring.Abs
import Mathlib.Algebra.Ring.Int.Parity
import Mathlib.Data.List.TakeWhile
import Mathlib.Data.Rat.Floor
import Mathlib.Tactic.Linarith
import Mathlib.Tactic.Ring

/-!
# Decimal texts with a fixed number of places

`roundHalfEven` is the nearest whole number, the even one of two that are equally near, and `fixed`
is the text of a number of units of the last place: a sign, the whole part, a point and the places.
`value` reads such a text.

Rounding is monotone (`roundHalfEven_monotone`), and a text is read as what was written
(`value_fixed`).
-/

namespace DecimalText

/-! ### Rounding -/

/-- The nearest whole number, the even one of two that are equally near. -/
def roundHalfEven (q : ℚ) : ℤ :=
  if q - ⌊q⌋ < 1 / 2 ∨ q - ⌊q⌋ = 1 / 2 ∧ Even ⌊q⌋ then ⌊q⌋ else ⌊q⌋ + 1

/-- A whole number is the nearest one, the even one of two. -/
def Nearest (q : ℚ) (n : ℤ) : Prop := |q - n| < 1 / 2 ∨ |q - n| = 1 / 2 ∧ Even n

variable {q : ℚ} {n m : ℤ}

/-- A nearest whole number is at most one half away. -/
lemma Nearest.dist_le (h : Nearest q n) : |q - n| ≤ 1 / 2 := by
  rcases h with h | ⟨h, -⟩
  · exact h.le
  · exact h.le

/-- There is only one nearest whole number. -/
lemma Nearest.unique (h : Nearest q n) (h' : Nearest q m) : n = m := by
  by_contra hne
  wlog hlt : n < m generalizing n m
  · exact this h' h (Ne.symm hne) (lt_of_le_of_ne (not_lt.mp hlt) (Ne.symm hne))
  have hsucc : (n : ℚ) + 1 ≤ m := by exact_mod_cast hlt
  have hn := abs_le.mp h.dist_le
  have hm := abs_le.mp h'.dist_le
  -- the number is halfway between two neighbours, and one of them is odd
  have hq : q = n + 1 / 2 := by linarith [hn.2, hm.1]
  have hmn : m = n + 1 := by
    have hcast : (m : ℚ) = n + 1 := by linarith [hm.1]
    exact_mod_cast hcast
  have heven : Even n := by
    rcases h with h | ⟨-, h⟩
    · have hhalf : |q - n| = 1 / 2 := by
        rw [hq, add_sub_cancel_left]
        exact abs_of_pos one_half_pos
      exact absurd hhalf h.ne
    · exact h
  have heven' : Even m := by
    rcases h' with h' | ⟨-, h'⟩
    · have hhalf : |q - m| = 1 / 2 := by
        have hneg : q - m = -(1 / 2) := by
          rw [hq, hmn]
          push_cast
          ring
        rw [hneg, abs_neg]
        exact abs_of_pos one_half_pos
      exact absurd hhalf h'.ne
    · exact h'
  rw [hmn, Int.even_add_one] at heven'
  exact heven' heven

/-- Rounding gives the nearest whole number. -/
lemma nearest_roundHalfEven (q : ℚ) : Nearest q (roundHalfEven q) := by
  have hlow : 0 ≤ q - ⌊q⌋ := sub_nonneg.mpr (Int.floor_le q)
  have hhigh : q - ⌊q⌋ < 1 := by linarith [Int.lt_floor_add_one q]
  rw [roundHalfEven]
  split_ifs with h
  · rcases h with h | ⟨h, heven⟩
    · exact .inl (by rwa [abs_of_nonneg hlow])
    · exact .inr ⟨by rwa [abs_of_nonneg hlow], heven⟩
  · obtain ⟨hge, hodd⟩ := not_or.mp h
    have hneg : q - (⌊q⌋ + 1 : ℤ) = -(1 - (q - ⌊q⌋)) := by
      push_cast
      ring
    have habs : |q - (⌊q⌋ + 1 : ℤ)| = 1 - (q - ⌊q⌋) := by
      rw [hneg, abs_neg]
      exact abs_of_pos (by linarith)
    rcases lt_or_eq_of_le (not_lt.mp hge) with hlt | heq
    · exact .inl (by rw [habs]; linarith)
    · refine .inr ⟨by rw [habs]; linarith, ?_⟩
      rw [Int.even_add_one]
      exact fun heven => hodd ⟨heq.symm, heven⟩

/-- The nearest whole number is what rounding gives. -/
lemma roundHalfEven_eq (h : Nearest q n) : roundHalfEven q = n :=
  (nearest_roundHalfEven q).unique h

/-- A whole number is not rounded. -/
@[simp] lemma roundHalfEven_intCast (n : ℤ) : roundHalfEven n = n :=
  roundHalfEven_eq (.inl (by rw [sub_self, abs_zero]; exact one_half_pos))

/-- Rounding does not depend on the sign. -/
@[simp] lemma roundHalfEven_neg (q : ℚ) : roundHalfEven (-q) = -roundHalfEven q := by
  refine roundHalfEven_eq ?_
  have hneg : -q - (-roundHalfEven q : ℤ) = -(q - roundHalfEven q) := by
    push_cast
    ring
  rw [Nearest, hneg, abs_neg, even_neg]
  exact nearest_roundHalfEven q

/-- Rounding is monotone. -/
lemma roundHalfEven_monotone : ∀ {p q : ℚ}, p ≤ q → roundHalfEven p ≤ roundHalfEven q := by
  intro p q hpq
  by_contra hlt
  have hsucc : (roundHalfEven q : ℚ) + 1 ≤ roundHalfEven p := by exact_mod_cast not_le.mp hlt
  have hp := abs_le.mp (nearest_roundHalfEven p).dist_le
  have hq := abs_le.mp (nearest_roundHalfEven q).dist_le
  have heq : p = q := by linarith [hp.1, hq.2]
  rw [heq] at hlt
  exact hlt le_rfl

/-- Rounding a number that is not negative. -/
lemma roundHalfEven_nonneg (h : 0 ≤ q) : 0 ≤ roundHalfEven q := by
  have hzero : roundHalfEven ((0 : ℤ) : ℚ) ≤ roundHalfEven q :=
    roundHalfEven_monotone (by exact_mod_cast h)
  rwa [roundHalfEven_intCast] at hzero

/-! ### Texts -/

/-- The text of a number of units of the last of some places. -/
def fixed (places : ℕ) (negative : Bool) (n : ℕ) : List Char :=
  (if negative then ['-'] else []) ++ Nat.toDigits 10 (n / 10 ^ places) ++
    '.' :: (Nat.toDigits 10 (n % 10 ^ places)).leftpad places '0'

/-- The text of an integer. -/
def integer (n : ℤ) : List Char := (if n < 0 then ['-'] else []) ++ Nat.toDigits 10 n.natAbs

/-- The number of a text of digits. -/
def ofDigits (cs : List Char) : Option ℕ :=
  if cs ≠ [] ∧ cs.all Char.isDigit then some (Nat.ofDigitChars 10 cs 0) else none

/-- The number of a text without a sign: digits, with or without a point and digits after it. -/
def unsigned (cs : List Char) : Option ℚ :=
  match cs.dropWhile (· ≠ '.') with
  | [] => (ofDigits cs).map fun n : ℕ => (n : ℚ)
  | _ :: places =>
    (ofDigits (cs.takeWhile (· ≠ '.'))).bind fun whole =>
      (ofDigits places).map fun part : ℕ => (whole : ℚ) + part / 10 ^ places.length

/-- The number of a decimal text. -/
def value : List Char → Option ℚ
  | '-' :: cs => (unsigned cs).map fun q => -q
  | cs => unsigned cs

/-- Digits are no point and no sign. -/
lemma ne_of_mem_toDigits {c : Char} {k : ℕ} (h : c ∈ Nat.toDigits 10 k) : c ≠ '.' ∧ c ≠ '-' := by
  have hdigit : c.isDigit = true := Nat.isDigit_of_mem_toDigits (by decide) (by decide) h
  constructor <;> rintro rfl <;> exact absurd hdigit (by decide)

/-- The digits of a number are read as the number. -/
lemma ofDigits_toDigits (k : ℕ) : ofDigits (Nat.toDigits 10 k) = some k := by
  rw [ofDigits, if_pos, Nat.ofDigitChars_ten_toDigits]
  refine ⟨Nat.toDigits_ne_nil, List.all_eq_true.mpr fun c hc => ?_⟩
  exact Nat.isDigit_of_mem_toDigits (by decide) (by decide) hc

/-- Leading zeros do not change the number. -/
lemma ofDigits_leftpad (places k : ℕ) :
    ofDigits ((Nat.toDigits 10 k).leftpad places '0') = some k := by
  rw [List.leftpad, ofDigits, if_pos, Nat.ofDigitChars_append, Nat.ofDigitChars_replicate_zero,
    Nat.mul_zero, Nat.ofDigitChars_ten_toDigits]
  refine ⟨List.append_ne_nil_of_right_ne_nil _ Nat.toDigits_ne_nil, ?_⟩
  rw [List.all_eq_true]
  intro c hc
  rcases List.mem_append.mp hc with hzero | hdigit
  · rw [List.eq_of_mem_replicate hzero]
    decide
  · exact Nat.isDigit_of_mem_toDigits (by decide) (by decide) hdigit

/-- A text with a point is read on both sides of it. -/
lemma unsigned_point {whole part : List Char} (h : ∀ c ∈ whole, c ≠ '.') :
    unsigned (whole ++ '.' :: part) = (ofDigits whole).bind fun n =>
      (ofDigits part).map fun k : ℕ => (n : ℚ) + k / 10 ^ part.length := by
  have hkeep : ∀ c ∈ whole, decide (c ≠ '.') = true := fun c hc => decide_eq_true (h c hc)
  have hdrop : (whole ++ '.' :: part).dropWhile (fun c => decide (c ≠ '.')) = '.' :: part := by
    rw [List.dropWhile_append_of_pos hkeep]
    rfl
  have htake : (whole ++ '.' :: part).takeWhile (fun c => decide (c ≠ '.')) = whole := by
    rw [List.takeWhile_append_of_pos hkeep]
    exact List.append_nil whole
  rw [unsigned, hdrop, htake]

/-- A text that starts with a digit has no sign. -/
lemma value_of_digits (k : ℕ) (cs : List Char) :
    value (Nat.toDigits 10 k ++ cs) = unsigned (Nat.toDigits 10 k ++ cs) := by
  obtain ⟨c, ds, hdigits⟩ := List.exists_cons_of_ne_nil
    (Nat.toDigits_ne_nil : Nat.toDigits 10 k ≠ [])
  have hsign : c ≠ '-' := by
    have hmem : c ∈ Nat.toDigits 10 k := by
      rw [hdigits]
      exact List.mem_cons_self
    exact (ne_of_mem_toDigits hmem).2
  rw [hdigits, List.cons_append, value]
  exact fun ds' heq => hsign (List.cons.inj heq).1

/-- A text is read as the number that was written. -/
theorem value_fixed {places : ℕ} (hplaces : 0 < places) (negative : Bool) (n : ℕ) :
    value (fixed places negative n) =
      some ((if negative then -1 else 1) * ((n : ℚ) / 10 ^ places)) := by
  have hpow : (0 : ℚ) < 10 ^ places := by positivity
  have hlength : ((Nat.toDigits 10 (n % 10 ^ places)).leftpad places '0').length = places := by
    rw [List.length_leftpad, max_eq_left]
    exact (Nat.length_toDigits_le_iff (by decide) hplaces).mpr (Nat.mod_lt _ (by positivity))
  have hunsigned : unsigned (Nat.toDigits 10 (n / 10 ^ places) ++
      '.' :: (Nat.toDigits 10 (n % 10 ^ places)).leftpad places '0') =
        some ((n : ℚ) / 10 ^ places) := by
    rw [unsigned_point fun c hc => (ne_of_mem_toDigits hc).1, ofDigits_toDigits, ofDigits_leftpad,
      hlength]
    have hsplit : ((10 ^ places * (n / 10 ^ places) + n % 10 ^ places : ℕ) : ℚ) = n := by
      rw [Nat.div_add_mod]
    push_cast at hsplit
    rw [Option.bind_some, Option.map_some, Option.some_inj, eq_div_iff hpow.ne', add_mul,
      div_mul_cancel₀ _ hpow.ne', mul_comm]
    exact hsplit
  cases negative with
  | true =>
    have htext : fixed places true n = '-' :: (Nat.toDigits 10 (n / 10 ^ places) ++
        '.' :: (Nat.toDigits 10 (n % 10 ^ places)).leftpad places '0') := rfl
    rw [htext, value, hunsigned, Option.map_some, if_pos rfl, neg_one_mul]
  | false =>
    have htext : fixed places false n = Nat.toDigits 10 (n / 10 ^ places) ++
        '.' :: (Nat.toDigits 10 (n % 10 ^ places)).leftpad places '0' := rfl
    rw [htext, value_of_digits, hunsigned, if_neg Bool.false_ne_true, one_mul]

/-- Digits alone are read as a whole number. -/
lemma unsigned_digits (k : ℕ) : unsigned (Nat.toDigits 10 k) = some (k : ℚ) := by
  have hdrop : (Nat.toDigits 10 k).dropWhile (fun c => decide (c ≠ '.')) = [] :=
    List.dropWhile_eq_nil_iff.mpr fun c hc => decide_eq_true (ne_of_mem_toDigits hc).1
  rw [unsigned, hdrop, ofDigits_toDigits]
  rfl

/-- The text of an integer is read as the integer. -/
theorem value_integer (n : ℤ) : value (integer n) = some (n : ℚ) := by
  rcases lt_or_ge n 0 with hneg | hpos
  · have hcast : -(n.natAbs : ℚ) = n := by
      rw [Nat.cast_natAbs, abs_of_neg hneg, Int.cast_neg, neg_neg]
    rw [integer, if_pos hneg, List.singleton_append, value, unsigned_digits, Option.map_some, hcast]
  · have hcast : (n.natAbs : ℚ) = n := by rw [Nat.cast_natAbs, abs_of_nonneg hpos]
    rw [integer, if_neg hpos.not_gt, List.nil_append, ← List.append_nil (Nat.toDigits 10 n.natAbs),
      value_of_digits, List.append_nil, unsigned_digits, hcast]

/-- Different integers have different texts. -/
lemma integer_injective : Function.Injective integer := by
  intro n m h
  have hvalue := congrArg value h
  rw [value_integer, value_integer, Option.some_inj] at hvalue
  exact_mod_cast hvalue

/-- The text of an integer is not empty. -/
lemma integer_ne_nil (n : ℤ) : integer n ≠ [] :=
  List.append_ne_nil_of_right_ne_nil _ Nat.toDigits_ne_nil

end DecimalText
