import Gears.Money.Exact

/-!
# Differences and shares of posted money

Two operations on postings that several components of the ledger build on, each as a computation
on posting increments:

* `subtract_eq` : the exact difference of two postings of a currency.
* `proRata_eq` : the share `x * r / t`, computed exactly and rounded once, half to even.

Both can fail on such inputs only because the significant digits of the result do not fit.
-/

namespace Gears.Money

open Except

variable {a : ExactAmount} {r : PostedMoney}

namespace ExactAmount

theorem roundedUnits_eq {n d scale : ℕ} (hd : 0 < d) (h : a.toRat * 10 ^ scale = n / d) :
    a.roundedUnits scale = halfEven n d := by
  have hden : 0 < a.denominator.natAbs := Int.natAbs_pos.2 a.denominator_pos.ne'
  -- the two fractions agree after cross multiplication
  have hcross : a.numerator * 10 ^ scale * d = n * a.denominator := by
    rw [toRat, div_mul_eq_mul_div, div_eq_div_iff a.denominator_ne_zero (by positivity)] at h
    exact_mod_cast h
  have hnum : 0 ≤ a.numerator := by
    have hr : 0 ≤ a.toRat * 10 ^ scale := by rw [h]; positivity
    have ha : 0 ≤ a.toRat := nonneg_of_mul_nonneg_left hr (by positivity)
    rw [toRat] at ha
    have := nonneg_of_mul_nonneg_left (by rwa [div_eq_mul_inv] at ha)
      (inv_pos.2 (by exact_mod_cast a.denominator_pos : (0 : ℚ) < a.denominator))
    exact_mod_cast this
  rw [roundedUnits, if_neg (not_lt.2 hnum)]
  congr 1
  refine halfEven_congr hden hd ?_
  zify
  rw [abs_of_nonneg hnum, abs_of_nonneg a.denominator_pos.le]
  linarith

end ExactAmount

open ExactAmount

/-! ### Differences -/

/-- The exact difference, narrowed to a posting of the first currency. -/
def subtract (left right : PostedMoney) : Except ExactError PostedMoney := do
  let difference ← (fromDecimal left.amount).checkedSub (fromDecimal right.amount)
  difference.intoPostedExact left.currency

theorem subtract_eq {l : PostedMoney} (hc : l.currency = r.currency) :
    subtract l r = posted (l.units - r.units) l.currency := by
  have hgrid : l.value - r.value = (l.units - r.units : ℤ) / 10 ^ l.currency.scale := by
    rw [l.value_eq_units, r.value_eq_units, ← hc]
    push_cast
    ring
  obtain ⟨c, hsub, hcv⟩ := ((Digits.decimal l.amount).sub (.decimal r.amount)).exists_ok (by decide)
    fun c hc hv => checkedSub_eq_ok_iff.2 ⟨inBudget_fromDecimal _, inBudget_fromDecimal _, hc, hv⟩
  rw [toRat_fromDecimal_amount, toRat_fromDecimal_amount] at hcv
  rw [subtract, hsub]
  exact intoPostedExact_of_units (checkedSub_eq_ok_iff.1 hsub).2.2.1 (hcv.trans hgrid)

theorem subtract_value {l m : PostedMoney} (hc : l.currency = r.currency) (h : subtract l r = .ok m)
    : m.currency = l.currency ∧ m.value = l.value - r.value := by
  rw [subtract_eq hc, posted_eq_ok_iff_units] at h
  exact ⟨h.1, PostedMoney.value_sub hc.symm h.1 h.2⟩

/-! ### Shares -/

/-- The share `x * r / t`, computed exactly and rounded once at the scale of the currency. -/
def proRata (x r t : PostedMoney) (currency : CurrencySpec) : Except ExactError PostedMoney := do
  let scaled ← (fromDecimal x.amount).checkedMul (fromDecimal r.amount)
  let ratio ← scaled.checkedDiv (fromDecimal t.amount)
  ratio.roundHalfEven currency

/-- **A share in posting increments.** -/
theorem proRata_eq {x t : PostedMoney} {n : ℕ} (hx : x.units = n) {a s : ℕ} (hr : r.units = a)
    (ht : t.units = s) (hs : 0 < s) (hrt : r.currency = t.currency) :
    proRata x r t x.currency = posted (halfEven (n * a) s) x.currency := by
  have htv : (fromDecimal t.amount).toRat ≠ 0 := by
    rw [toRat_fromDecimal_amount, t.value_eq_units, ht]
    positivity
  -- neither the product nor the quotient runs out of digits
  obtain ⟨scaled, ratio, hmul, hdiv, hv, hq⟩ :=
    (Digits.decimal x.amount).exists_ratio (.decimal r.amount) (.decimal t.amount) htv (by decide)
  have hunits : ratio.roundedUnits x.currency.scale = halfEven (n * a) s := by
    refine roundedUnits_eq hs ?_
    simp only [hv, toRat_fromDecimal_amount, PostedMoney.value_eq_units, hx, hr, ht, hrt]
    push_cast
    field_simp
  rw [proRata, hmul, ok_bind, hdiv, ok_bind, hq.roundHalfEven_eq (by decide), hunits]

end Gears.Money
