import Mathlib.Algebra.Order.Ring.Nat
import Mathlib.Algebra.Group.Nat.Even
import Mathlib.Tactic.Linarith
import Mathlib.Tactic.Ring

/-!
# Rounding a quotient half to even

`halfEven n d` is the natural number nearest to `n / d`; a tie goes to the even neighbour.
Everything the developments need follows from one characterisation of its lower sets,
`halfEven_le_iff`:

* `halfEven_le`, `le_halfEven` : rounding never crosses a whole number.
* `halfEven_congr` : it depends on the quotient only.
-/

namespace Gears

variable {d n k : ℕ}

/-- The natural number nearest to `n / d`, ties to even. -/
def halfEven (n d : ℕ) : ℕ :=
  if d < 2 * (n % d) ∨ (2 * (n % d) = d ∧ n / d % 2 ≠ 0) then n / d + 1 else n / d

/-- **The lower sets of half-even rounding.**  A quotient rounds to at most `k` when it is below
the midpoint of `k` and `k + 1`, or at that midpoint with `k` even. -/
theorem halfEven_le_iff (hd : 0 < d) :
    halfEven n d ≤ k ↔ 2 * n < (2 * k + 1) * d ∨ (2 * n = (2 * k + 1) * d ∧ Even k) := by
  have hn : d * (n / d) + n % d = n := Nat.div_add_mod n d
  have hr : n % d < d := Nat.mod_lt n hd
  have hk : (2 * k + 1) * d = 2 * (d * k) + d := by ring
  rw [Nat.even_iff]
  unfold halfEven
  generalize n / d = q at *
  -- compare the quotient with `k`: only `q = k` looks at the remainder
  rcases lt_trichotomy q k with hq | rfl | hq
  · have hm : d * q + d ≤ d * k := by
      calc d * q + d = d * (q + 1) := by ring
        _ ≤ d * k := Nat.mul_le_mul_left d hq
    split <;> omega
  · split <;> omega
  · have hm : d * k + d ≤ d * q := by
      calc d * k + d = d * (k + 1) := by ring
        _ ≤ d * q := Nat.mul_le_mul_left d hq
    split <;> omega

theorem lt_halfEven_iff (hd : 0 < d) :
    k < halfEven n d ↔ (2 * k + 1) * d < 2 * n ∨ (2 * n = (2 * k + 1) * d ∧ ¬ Even k) := by
  rw [← not_le, halfEven_le_iff hd]
  by_cases hk : Even k
  · simp only [hk, and_true, not_true_eq_false, and_false, or_false]
    omega
  · simp only [hk, and_false, or_false, not_false_eq_true, and_true]
    omega

theorem halfEven_le (hd : 0 < d) (h : n ≤ k * d) : halfEven n d ≤ k := by
  refine (halfEven_le_iff hd).2 (.inl ?_)
  have : (2 * k + 1) * d = 2 * (k * d) + d := by ring
  omega

theorem le_halfEven (hd : 0 < d) (h : k * d ≤ n) : k ≤ halfEven n d := by
  cases k with
  | zero => exact Nat.zero_le _
  | succ k =>
    refine (lt_halfEven_iff hd).2 (.inl ?_)
    have h1 : (2 * k + 1) * d = 2 * (k * d) + d := by ring
    have h2 : (k + 1) * d = k * d + d := by ring
    omega

@[simp] theorem halfEven_mul_self (hd : 0 < d) (k : ℕ) : halfEven (k * d) d = k :=
  le_antisymm (halfEven_le hd le_rfl) (le_halfEven hd le_rfl)

/-- Two fractions of one value round alike. -/
theorem halfEven_congr {n' d' : ℕ} (hd : 0 < d) (hd' : 0 < d') (h : n * d' = n' * d) :
    halfEven n d = halfEven n' d' := by
  have key : ∀ k, halfEven n d ≤ k ↔ halfEven n' d' ≤ k := by
    intro k
    rw [halfEven_le_iff hd, halfEven_le_iff hd']
    have hl : 2 * n * d' = 2 * n' * d := by rw [mul_assoc, h, mul_assoc]
    have hr : (2 * k + 1) * d * d' = (2 * k + 1) * d' * d := mul_right_comm _ _ _
    have hlt : 2 * n < (2 * k + 1) * d ↔ 2 * n' < (2 * k + 1) * d' := by
      rw [← Nat.mul_lt_mul_right hd', hl, hr, Nat.mul_lt_mul_right hd]
    have heq : 2 * n = (2 * k + 1) * d ↔ 2 * n' = (2 * k + 1) * d' := by
      rw [← Nat.mul_left_inj hd'.ne', hl, hr, Nat.mul_left_inj hd.ne']
    rw [hlt, heq]
  exact le_antisymm ((key _).2 le_rfl) ((key _).1 le_rfl)

end Gears
