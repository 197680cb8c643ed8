import Mathlib.Data.Rat.Floor
import Mathlib.Tactic.Linarith

/-!
# Products with a jitter

A delay is often a base times a jitter from an interval, rounded down to an integer of limited
width.  `exists_floor_eq_min_iff` says when a product that is cut off at a limit is still the
rounded product with some jitter of the interval, and `forall_lt_iff` when the products with all
jitters of a half-open interval stay below a limit.
-/

namespace JitteredDelays

variable {b low high j : ℚ} {n : ℕ}

/-- A rounded product that is cut off at `n` is the rounded product with some jitter of the interval
exactly when the product with the least jitter is rounded to at most `n`. -/
theorem exists_floor_eq_min_iff (hb : 0 ≤ b) (hlow : low ≤ j) (hhigh : j ≤ high) :
    (∃ k, low ≤ k ∧ k ≤ high ∧ min ⌊b * j⌋₊ n = ⌊b * k⌋₊) ↔ b * low < n + 1 := by
  constructor
  · rintro ⟨k, hk, -, heq⟩
    have hcut : ⌊b * k⌋₊ ≤ n := heq ▸ Nat.min_le_right _ _
    calc b * low ≤ b * k := mul_le_mul_of_nonneg_left hk hb
      _ < ⌊b * k⌋₊ + 1 := Nat.lt_floor_add_one _
      _ ≤ n + 1 := by exact_mod_cast Nat.succ_le_succ hcut
  · intro hleast
    by_cases hfits : b * j < n + 1
    · have hfloor : ⌊b * j⌋₊ ≤ n := by
        have hlt : ⌊b * j⌋₊ < n + 1 :=
          (Nat.floor_lt' (Nat.succ_ne_zero n)).mpr (by exact_mod_cast hfits)
        exact Nat.le_of_lt_succ hlt
      exact ⟨j, hlow, hhigh, min_eq_left hfloor⟩
    · -- the jitter that brings the product to `n`, or the least one
      have hover : (n : ℚ) + 1 ≤ b * j := not_lt.mp hfits
      have hpos : 0 < b := by
        refine hb.lt_of_ne fun hzero => ?_
        rw [← hzero, zero_mul] at hover
        have hn : (0 : ℚ) ≤ n := Nat.cast_nonneg n
        linarith
      have hnj : (n : ℚ) / b ≤ j := by
        rw [div_le_iff₀ hpos, mul_comm]
        linarith
      have hproduct : b * max low (n / b) = max (b * low) n := by
        rw [mul_max_of_nonneg _ _ hb, mul_div_cancel₀ _ hpos.ne']
      refine ⟨max low (n / b), le_max_left _ _, (max_le hlow hnj).trans hhigh, ?_⟩
      have hcut : n ≤ ⌊b * j⌋₊ := Nat.le_floor (by linarith)
      rw [min_eq_right hcut, hproduct]
      have hnonneg : 0 ≤ max (b * low) n := le_max_of_le_right (Nat.cast_nonneg n)
      have hbound : max (b * low) n < n + 1 := max_lt hleast (lt_add_one _)
      exact ((Nat.floor_eq_iff hnonneg).mpr ⟨le_max_right _ _, hbound⟩).symm

/-- A rounded product is at most the product with the greatest jitter. -/
theorem floor_le_mul (hb : 0 ≤ b) (hhigh : j ≤ high) (hnonneg : 0 ≤ high) :
    (⌊b * j⌋₊ : ℚ) ≤ b * high :=
  calc (⌊b * j⌋₊ : ℚ) ≤ ⌊b * high⌋₊ := by
        exact_mod_cast Nat.floor_le_floor (mul_le_mul_of_nonneg_left hhigh hb)
    _ ≤ b * high := Nat.floor_le (mul_nonneg hb hnonneg)

/-- The products with the jitters of a half-open interval stay below a limit exactly when the
product with its end does not exceed it. -/
theorem forall_lt_iff {width limit : ℚ} (hb : 0 < b) (hwidth : 0 < width) :
    (∀ r, 0 ≤ r → r < 1 → b * (low + r * width) < limit) ↔ b * (low + width) ≤ limit := by
  constructor
  · intro hall
    by_contra hover
    have hbw : 0 < b * width := mul_pos hb hwidth
    -- the jitter that brings the product to the limit, or the first one
    have hbelow : (limit - b * low) / (b * width) < 1 := by
      rw [div_lt_one hbw]
      linarith [mul_add b low width]
    have hlt := hall (max 0 ((limit - b * low) / (b * width))) (le_max_left _ _)
      (max_lt one_pos hbelow)
    have hreach : limit - b * low ≤ b * width * max 0 ((limit - b * low) / (b * width)) := by
      have hle : (limit - b * low) / (b * width) ≤ max 0 ((limit - b * low) / (b * width)) :=
        le_max_right _ _
      rw [div_le_iff₀ hbw] at hle
      linarith
    have hproduct : b * (low + max 0 ((limit - b * low) / (b * width)) * width) =
        b * low + b * width * max 0 ((limit - b * low) / (b * width)) := by ring
    linarith
  · intro hend r _ hr
    have hless : r * width < width := by
      rw [mul_lt_iff_lt_one_left hwidth]
      exact hr
    have hstep : b * (r * width) < b * width := mul_lt_mul_of_pos_left hless hb
    linarith [mul_add b low (r * width), mul_add b low width]

end JitteredDelays
