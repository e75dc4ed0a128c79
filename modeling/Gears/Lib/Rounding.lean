import Mathlib.Algebra.Order.Floor.Ring
import Mathlib.Data.Int.Log
import Mathlib.Data.Rat.Floor
import Mathlib.Tactic.Linarith
import Mathlib.Tactic.NormNum

/-!
# Rounding to double precision

A positive rational is rounded to 53 significant bits, ties to even.  The range of exponents is not
limited.

* `Double.round` : the rounded number.
* `Double.abs_round_sub_le` : the error is at most one part in `2 ^ 53`.
* `Double.round_lt_round` : numbers that are far enough apart stay in order.
-/

namespace Double

/-- The nearest integer; halves go to the even one. -/
def nearest (q : ℚ) : ℤ :=
  if q - ⌊q⌋ < 1 / 2 then ⌊q⌋
  else if 1 / 2 < q - ⌊q⌋ then ⌊q⌋ + 1
  else if ⌊q⌋ % 2 = 0 then ⌊q⌋ else ⌊q⌋ + 1

/-- The weight of the last of the 53 bits of a positive number. -/
def ulp (q : ℚ) : ℚ := 2 ^ (Int.log 2 q - 52)

/-- A number that is not negative, to 53 significant bits. -/
def round (q : ℚ) : ℚ := if q = 0 then 0 else nearest (q / ulp q) * ulp q

theorem abs_nearest_sub_le (q : ℚ) : |(nearest q : ℚ) - q| ≤ 1 / 2 := by
  have h₀ := Int.floor_le q
  have h₁ := Int.lt_floor_add_one q
  rw [nearest, abs_le]
  split_ifs <;> push_cast <;> constructor <;> linarith

theorem ulp_pos (q : ℚ) : 0 < ulp q := zpow_pos (by norm_num) _

theorem ulp_le {q : ℚ} (hq : 0 < q) : ulp q ≤ q / 2 ^ 52 := by
  have h := Int.zpow_log_le_self (b := 2) (by norm_num) hq
  rw [ulp, zpow_sub₀ (by norm_num)]
  exact div_le_div_of_nonneg_right (by exact_mod_cast h) (by positivity)

theorem abs_round_sub_le {q : ℚ} (hq : 0 ≤ q) : |round q - q| ≤ q / 2 ^ 53 := by
  rcases hq.eq_or_lt with rfl | hpos
  · simp [round]
  · have hne : q ≠ 0 := hpos.ne'
    have hulp := ulp_pos q
    have hscale : round q - q = ((nearest (q / ulp q) : ℚ) - q / ulp q) * ulp q := by
      rw [round, if_neg hne, sub_mul, div_mul_cancel₀ _ hulp.ne']
    calc |round q - q| = |(nearest (q / ulp q) : ℚ) - q / ulp q| * ulp q := by
          rw [hscale, abs_mul, abs_of_pos hulp]
      _ ≤ 1 / 2 * (q / 2 ^ 52) :=
          mul_le_mul (abs_nearest_sub_le _) (ulp_le hpos) hulp.le (by norm_num)
      _ = q / 2 ^ 53 := by ring

/-- Numbers whose distance is more than the errors stay in order. -/
theorem round_lt_round {p q : ℚ} (hp : 0 ≤ p) (hq : 0 ≤ q) (h : (p + q) / 2 ^ 53 < q - p) :
    round p < round q := by
  have hp' := abs_le.1 (abs_round_sub_le hp)
  have hq' := abs_le.1 (abs_round_sub_le hq)
  linarith [hp'.2, hq'.1]

end Double
