import Gears.Lib.HalfEven
import Gears.Lib.Pointwise
import Mathlib.Algebra.BigOperators.Group.List.Basic
import Mathlib.Algebra.Order.Field.Rat
import Mathlib.Data.Rat.Cast.Order
import Mathlib.Tactic.FieldSimp
import Mathlib.Tactic.Positivity

/-!
# Nearest integers and sums of rounding errors

* `IsHalfEven` : an integer is a rational rounded half to even.
* `isHalfEven_halfEven` : so is the quotient that `halfEven` rounds.
* `abs_sum_sub_le` : all but one of some errors add up to no more than their number times the
  largest.
* `abs_absorb_sub_le` : so far is the entry that absorbs the errors of a list from its own exact
  value.
-/

namespace Gears

open List

variable {i : ℕ}

/-- The nearest integer, the even one of two. -/
def IsHalfEven (q : ℚ) (k : ℤ) : Prop := |q - k| ≤ 1 / 2 ∧ (|q - k| = 1 / 2 → Even k)

theorem IsHalfEven.neg {q : ℚ} {k : ℤ} (h : IsHalfEven q k) : IsHalfEven (-q) (-k) := by
  have hsame : |-q - (-k : ℤ)| = |q - k| := by
    rw [← abs_neg (q - k)]
    push_cast
    ring_nf
  rw [IsHalfEven, hsame]
  exact ⟨h.1, fun hk => (h.2 hk).neg⟩

/-- Counted in parts of a unit, the rounding is off by half a part. -/
theorem IsHalfEven.abs_div_sub_le {q p : ℚ} {k : ℤ} (hp : 0 < p) (h : IsHalfEven (q * p) k) :
    |k / p - q| ≤ 1 / 2 / p := by
  have hscaled : |k / p - q| * p = |q * p - k| := by
    conv_lhs => rw [← abs_of_pos hp, ← abs_mul, abs_of_pos hp, sub_mul, div_mul_cancel₀ _ hp.ne']
    exact abs_sub_comm _ _
  rw [le_div_iff₀ hp, hscaled]
  exact h.1

theorem isHalfEven_halfEven {n d : ℕ} (hd : 0 < d) : IsHalfEven (n / d) (halfEven n d : ℕ) := by
  have hd' : (0 : ℚ) < d := by exact_mod_cast hd
  have hr : n % d < d := Nat.mod_lt n hd
  have hn : (n : ℚ) / d = (n / d : ℕ) + (n % d : ℕ) / d := by
    have hdiv : (n : ℚ) = d * (n / d : ℕ) + (n % d : ℕ) := by
      exact_mod_cast (Nat.div_add_mod n d).symm
    rw [eq_comm, ← mul_right_inj' hd'.ne', mul_add, mul_div_cancel₀ _ hd'.ne',
      mul_div_cancel₀ _ hd'.ne']
    exact hdiv.symm
  rw [IsHalfEven, hn]
  unfold halfEven
  generalize n / d = q at *
  generalize n % d = r at *
  have hr0 : (0 : ℚ) ≤ r / d := by positivity
  have hr1 : (r : ℚ) / d < 1 := by
    rw [div_lt_one hd']
    exact_mod_cast hr
  split
  case isTrue h =>
    -- the remainder is at least half, so the error is what is missing to the next integer
    have hle : (1 / 2 : ℚ) ≤ r / d := by
      rw [le_div_iff₀ hd']
      have : (d : ℚ) ≤ 2 * r := by exact_mod_cast (by omega : d ≤ 2 * r)
      linarith
    have habs : |((q : ℕ) : ℚ) + r / d - ((q + 1 : ℕ) : ℤ)| = 1 - r / d := by
      rw [abs_of_nonpos (by push_cast; linarith)]
      push_cast
      ring
    refine ⟨by linarith, fun htie => ?_⟩
    have hhalf : 2 * r = d := by
      have : (r : ℚ) / d = 1 / 2 := by linarith
      rw [div_eq_iff hd'.ne'] at this
      have : (2 * r : ℚ) = d := by linarith
      exact_mod_cast this
    rw [Int.even_coe_nat, Nat.even_iff]
    omega
  case isFalse h =>
    have hle : (r : ℚ) / d ≤ 1 / 2 := by
      rw [div_le_iff₀ hd']
      have : (2 * r : ℚ) ≤ d := by exact_mod_cast (by omega : 2 * r ≤ d)
      linarith
    have habs : |((q : ℕ) : ℚ) + r / d - ((q : ℕ) : ℤ)| = r / d := by
      rw [abs_of_nonneg (by push_cast; linarith)]
      push_cast
      ring
    rw [habs]
    refine ⟨hle, fun htie => ?_⟩
    have hhalf : 2 * r = d := by
      rw [div_eq_iff hd'.ne'] at htie
      have : (2 * r : ℚ) = d := by linarith
      exact_mod_cast this
    rw [Int.even_coe_nat, Nat.even_iff]
    omega

/-- **All errors but one.**  The sum of a list without one of its entries. -/
theorem abs_sum_sub_le {l : List ℚ} {b x : ℚ} (hb : ∀ e ∈ l, |e| ≤ b) (hi : l[i]? = some x) :
    |l.sum - x| ≤ (l.length - 1 : ℕ) * b := by
  have hall : ∀ {l : List ℚ}, (∀ e ∈ l, |e| ≤ b) → |l.sum| ≤ l.length * b := by
    intro l hb
    induction l with
    | nil => simp
    | cons e l ih =>
      rw [sum_cons, length_cons]
      have he := hb e mem_cons_self
      have hl := ih fun e he => hb e (mem_cons_of_mem _ he)
      refine (abs_add_le _ _).trans ?_
      push_cast
      linarith
  obtain ⟨hlt, rfl⟩ := List.getElem?_eq_some_iff.1 hi
  have hperm := getElem_cons_eraseIdx_perm hlt
  have hsum : l.sum - l[i] = (l.eraseIdx i).sum := by
    rw [← hperm.sum_eq, sum_cons]
    ring
  rw [hsum, ← length_eraseIdx_of_lt hlt]
  exact hall fun e he => hb e (mem_of_mem_eraseIdx he)

theorem sum_map_set {α : Type*} (f : α → ℚ) {l : List α} {a : α} (b : α) (ha : l[i]? = some a) :
    ((l.set i b).map f).sum = (l.map f).sum - f a + f b := by
  obtain ⟨hlt, rfl⟩ := List.getElem?_eq_some_iff.1 ha
  have hlt' : i < (l.map f).length := by rwa [length_map]
  rw [map_set, sum_set', dif_pos hlt', getElem_map]
  ring

/-- **One entry absorbs the errors.**  When every entry is within `b` of its exact value, the entry
that takes over the difference of the two sums is off by the errors of the others. -/
theorem abs_absorb_sub_le {α β : Type*} {exact : α → ℚ} {rounded : β → ℚ} {l : List α} {m : List β}
    {b : ℚ} (h : Forall₂ (fun x y => |rounded y - exact x| ≤ b) l m) {x : α} {y : β}
    (hx : l[i]? = some x) (hy : m[i]? = some y) :
    |rounded y + ((l.map exact).sum - (m.map rounded).sum) - exact x| ≤ (l.length - 1 : ℕ) * b := by
  have herrors : ∀ {l : List α} {m : List β}, Forall₂ (fun x y => |rounded y - exact x| ≤ b) l m →
      (∀ e ∈ List.zipWith (fun x y => rounded y - exact x) l m, |e| ≤ b) ∧
        (List.zipWith (fun x y => rounded y - exact x) l m).sum =
          (m.map rounded).sum - (l.map exact).sum := by
    intro l m h
    induction h with
    | nil => simp
    | cons hxy _ ih =>
      refine ⟨?_, ?_⟩
      · simpa [zipWith_cons_cons] using ⟨hxy, ih.1⟩
      · rw [zipWith_cons_cons, sum_cons, ih.2, map_cons, map_cons, sum_cons, sum_cons]
        ring
  obtain ⟨hbound, hsum⟩ := herrors h
  have hi : (List.zipWith (fun x y => rounded y - exact x) l m)[i]? =
      some (rounded y - exact x) := by
    rw [getElem?_zipWith, hx, hy]
  have hrest := abs_sum_sub_le hbound hi
  rw [length_zipWith, h.length_eq, min_self, hsum, abs_sub_comm] at hrest
  rw [h.length_eq]
  refine le_trans (le_of_eq ?_) hrest
  ring_nf

end Gears
