import Gears.Lib.HalfEven
import Gears.Money.Decimal
import Mathlib.Data.Rat.Lemmas

/-!
# Exact fractions

`ExactAmount` is the exact intermediate of `bss-money`: a reduced fraction whose parts are
bounded by a digit budget, narrowed to a posting only at the end.  Every operation is
characterised by the rational number it computes:

* `ExactAmount.checkedAdd_eq_ok_iff` and its siblings : an operation succeeds exactly when its
  operands and its exact result are within the budget, and then it returns that result.
* `ExactAmount.Digits` : a bound on the digits of a fraction, kept by every operation.
* `ExactAmount.roundHalfEven_eq_ok_iff` : rounding at the scale of a currency is `halfEven`.
-/

namespace Gears.Money

open Except PostedMoney

/-- A validation or resource-limit failure in exact monetary arithmetic. -/
inductive ExactError
  | money (error : MoneyError)
  | arithmeticLimit
  | divisionByZero
  | emptyWeights
  | negativeWeight
  | tooManyTerms
  deriving DecidableEq, Repr

/-- An exact intermediate amount: a reduced fraction with a positive denominator. -/
structure ExactAmount where
  numerator : ℤ
  denominator : ℤ
  denominator_pos : 0 < denominator
  reduced : numerator.gcd denominator = 1
  deriving DecidableEq, Repr

namespace ExactAmount

/-- The smallest magnitude with `digits + 1` decimal digits.  Irreducible: unification must not
evaluate it. -/
@[irreducible] def digitBound (digits : ℕ) : ℕ := 10 ^ digits

/-- The exclusive magnitude bound of a reduced part. -/
def finalBound : ℕ := digitBound 256

/-- The exclusive magnitude bound of a product. -/
def productBound : ℕ := digitBound 512

/-- The exclusive magnitude bound of a sum of two products. -/
def sumBound : ℕ := digitBound 513

theorem digitBound_pos (n : ℕ) : 0 < digitBound n := by
  unfold digitBound
  exact Nat.pow_pos (by decide)

theorem digitBound_add (m n : ℕ) : digitBound (m + n) = digitBound m * digitBound n := by
  unfold digitBound
  exact pow_add 10 m n

theorem pow_lt_digitBound {m n : ℕ} (h : m < n) : 10 ^ m < digitBound n := by
  unfold digitBound
  exact Nat.pow_lt_pow_right (by decide) h

theorem productBound_eq : productBound = finalBound * finalBound := digitBound_add 256 256

theorem two_productBound_le : 2 * productBound ≤ sumBound := by
  have h₁ : 10 ^ 0 < digitBound 1 := pow_lt_digitBound (by decide)
  calc 2 * productBound ≤ productBound * digitBound 1 := by nlinarith
    _ = sumBound := (digitBound_add 512 1).symm

theorem productBound_lt : productBound < sumBound := by
  have h₀ : 0 < productBound := digitBound_pos 512
  have := two_productBound_le
  omega

/-- Check the decimal digits of an integer against a bound. -/
def checkDigits (v : ℤ) (bound : ℕ) : Except ExactError Unit :=
  rejectIf (bound ≤ v.natAbs) .arithmeticLimit

/-- Multiply and enforce the scratch bound. -/
def product (l r : ℤ) : Except ExactError ℤ := do
  checkDigits (l * r) productBound
  return l * r

/-- The number the fraction stands for. -/
def toRat (a : ExactAmount) : ℚ := a.numerator / a.denominator

/-- The parts of a fraction with its sign moved to the numerator. -/
def signed (n d : ℤ) : ℤ × ℤ := if d < 0 then (-n, -d) else (n, d)

variable {d k : ℤ} {a b c : ExactAmount} {u : Unit} {m : PostedMoney}

theorem signed_snd_pos {n : ℤ} (hd : d ≠ 0) : 0 < (signed n d).2 := by
  unfold signed
  split <;> simp <;> omega

theorem div_signed (n d : ℤ) : ((signed n d).1 : ℚ) / (signed n d).2 = n / d := by
  unfold signed
  split
  · push_cast; exact neg_div_neg_eq _ _
  · rfl

/-- Reduce a fraction with a nonzero denominator: any zero is `0 / 1`, the sign goes to the
numerator, and Euclid's algorithm takes out the common factor. -/
def normalize (n d : ℤ) (hd : d ≠ 0) : ExactAmount :=
  if _ : n = 0 then ⟨0, 1, one_pos, by decide⟩
  else
    let s := signed n d
    let g := s.1.gcd s.2
    have hg : 0 < g := Int.gcd_pos_of_ne_zero_right _ (signed_snd_pos hd).ne'
    ⟨s.1 / g, s.2 / g, Int.ediv_pos_of_pos_of_dvd (signed_snd_pos hd) (Int.natCast_nonneg g)
        (Int.gcd_dvd_right _ _),
      Int.gcd_div_gcd_div_gcd hg⟩

@[simp] theorem toRat_normalize (n d : ℤ) (hd : d ≠ 0) : (normalize n d hd).toRat = n / d := by
  unfold normalize
  split
  · rename_i h; simp [toRat, h]
  · have hg : ((signed n d).1.gcd (signed n d).2 : ℤ) ≠ 0 := by
      exact_mod_cast (Int.gcd_pos_of_ne_zero_right _ (signed_snd_pos hd).ne').ne'
    simp only [toRat]
    rw [Int.cast_div (Int.gcd_dvd_left _ _) (by exact_mod_cast hg),
      Int.cast_div (Int.gcd_dvd_right _ _) (by exact_mod_cast hg),
      div_div_div_cancel_right₀ (by exact_mod_cast hg), div_signed]

theorem num_toRat (a : ExactAmount) : a.toRat.num = a.numerator :=
  Rat.num_div_eq_of_coprime a.denominator_pos a.reduced

theorem den_toRat (a : ExactAmount) : (a.toRat.den : ℤ) = a.denominator :=
  Rat.den_div_eq_of_coprime a.denominator_pos a.reduced

theorem toRat_injective : Function.Injective toRat := by
  intro a b h
  have hn := a.num_toRat
  have hd := a.den_toRat
  rw [h, num_toRat] at hn
  rw [h, den_toRat] at hd
  cases b
  simp_all

/-- The exact order: compare the cross products. -/
def lt (a b : ExactAmount) : Prop :=
  a.numerator * b.denominator < b.numerator * a.denominator

instance : LT ExactAmount := ⟨lt⟩
instance (a b : ExactAmount) : Decidable (a < b) :=
  inferInstanceAs (Decidable (a.numerator * b.denominator < b.numerator * a.denominator))

/-- Below zero. -/
def isNegative (a : ExactAmount) : Prop := a.numerator < 0

instance (a : ExactAmount) : Decidable a.isNegative := inferInstanceAs (Decidable (_ < _))

theorem isNegative_iff : a.isNegative ↔ a.toRat < 0 := by
  have ha : (0 : ℚ) < a.denominator := by exact_mod_cast a.denominator_pos
  rw [toRat, div_lt_iff₀ ha, zero_mul]
  exact_mod_cast Iff.rfl

theorem not_lt_iff {a b : ExactAmount} : ¬ a < b ↔ b.toRat ≤ a.toRat := by
  have ha : (0 : ℚ) < a.denominator := by exact_mod_cast a.denominator_pos
  have hb : (0 : ℚ) < b.denominator := by exact_mod_cast b.denominator_pos
  rw [toRat, toRat, div_le_div_iff₀ hb ha, ← not_lt]
  exact_mod_cast Iff.rfl

/-! ### The digit budget -/

/-- Both parts of the fraction are within the digit budget. -/
def InBudget (a : ExactAmount) : Prop :=
  a.numerator.natAbs < finalBound ∧ a.denominator.natAbs < finalBound

/-- Enforce the digit budget. -/
def checkBudget (a : ExactAmount) : Except ExactError Unit := do
  checkDigits a.numerator finalBound
  checkDigits a.denominator finalBound

@[simp] theorem checkDigits_eq_ok_iff {v : ℤ} {b : ℕ} : checkDigits v b = .ok u ↔ v.natAbs < b := by
  simp [checkDigits]

@[simp] theorem checkBudget_eq_ok_iff : a.checkBudget = .ok u ↔ a.InBudget := by
  simp [checkBudget, InBudget]

@[simp] theorem product_eq_ok_iff {l r z : ℤ} :
    product l r = .ok z ↔ (l * r).natAbs < productBound ∧ l * r = z := by
  simp [product]

/-- Validate scratch, normalize, then check the final budget. -/
def reduce (n d : ℤ) : Except ExactError ExactAmount :=
  if hd : d = 0 then .error .divisionByZero
  else do
    checkDigits n sumBound
    checkDigits d productBound
    checkBudget (normalize n d hd)
    return normalize n d hd

theorem reduce_eq_ok_iff {n : ℤ} (hd : d ≠ 0) :
    reduce n d = .ok c ↔ n.natAbs < sumBound ∧ d.natAbs < productBound ∧ c.InBudget ∧
      c.toRat = n / d := by
  simp only [reduce, hd, ↓reduceDIte, ok_iffs, checkDigits_eq_ok_iff, checkBudget_eq_ok_iff,
    exists_const]
  constructor
  · rintro ⟨hn, hd', hb, rfl⟩
    exact ⟨hn, hd', hb, toRat_normalize n d hd⟩
  · rintro ⟨hn, hd', hb, hv⟩
    have hc : normalize n d hd = c := toRat_injective (by rw [toRat_normalize, hv])
    exact ⟨hn, hd', hc ▸ hb, hc⟩

theorem natAbs_mul_lt_product {x y : ℤ} (hx : x.natAbs < finalBound) (hy : y.natAbs < finalBound) :
    (x * y).natAbs < productBound := by
  rw [Int.natAbs_mul, productBound_eq]
  exact Nat.mul_lt_mul'' hx hy

theorem natAbs_lt_sum {x y : ℤ} (hx : x.natAbs < productBound) (hy : y.natAbs < productBound) :
    (x + y).natAbs < sumBound := by
  have := two_productBound_le
  omega

theorem reduce_products_eq_ok_iff {x y z w : ℤ} (hx : x.natAbs < finalBound)
    (hy : y.natAbs < finalBound) (hz : z.natAbs < finalBound) (hw : w.natAbs < finalBound)
    (hd : z * w ≠ 0) : (do let n ← product x y; let d ← product z w; reduce n d) = .ok c ↔
      c.InBudget ∧ c.toRat = x * y / (z * w) := by
  have hn := natAbs_mul_lt_product hx hy
  have hd' := natAbs_mul_lt_product hz hw
  simp only [bind_eq_ok_iff, product_eq_ok_iff, hn, hd', true_and, exists_eq_left',
    reduce_eq_ok_iff hd, hn.trans productBound_lt, Int.cast_mul]

/-! ### Arithmetic -/

section

variable (a b : ExactAmount)

/-- Validate both operands before any scratch. -/
def checkOperands : Except ExactError Unit := do
  checkBudget a
  checkBudget b

/-- Add or subtract cross products. -/
def combine (subtract : Bool) : Except ExactError ExactAmount := do
  checkOperands a b
  let left ← product a.numerator b.denominator
  let right ← product b.numerator a.denominator
  let numerator := if subtract then left - right else left + right
  checkDigits numerator sumBound
  let denominator ← product a.denominator b.denominator
  reduce numerator denominator

/-- Exact sum. -/
def checkedAdd : Except ExactError ExactAmount := combine a b false

/-- Exact difference. -/
def checkedSub : Except ExactError ExactAmount := combine a b true

/-- Exact product. -/
def checkedMul : Except ExactError ExactAmount := do
  checkOperands a b
  let numerator ← product a.numerator b.numerator
  let denominator ← product a.denominator b.denominator
  reduce numerator denominator

/-- Exact quotient. -/
def checkedDiv : Except ExactError ExactAmount := do
  rejectIf (b.numerator = 0) .divisionByZero
  checkOperands a b
  let numerator ← product a.numerator b.denominator
  let denominator ← product a.denominator b.numerator
  reduce numerator denominator

end

@[simp] theorem checkOperands_eq_ok_iff : checkOperands a b = .ok u ↔ a.InBudget ∧ b.InBudget := by
  simp [checkOperands]

theorem denominator_ne_zero (a : ExactAmount) : (a.denominator : ℚ) ≠ 0 := by
  exact_mod_cast a.denominator_pos.ne'

theorem toRat_eq_zero_iff : a.toRat = 0 ↔ a.numerator = 0 := by
  rw [toRat, div_eq_zero_iff, or_iff_left a.denominator_ne_zero, Int.cast_eq_zero]

theorem combine_eq_ok_iff {subtract : Bool} :
    combine a b subtract = .ok c ↔ a.InBudget ∧ b.InBudget ∧ c.InBudget ∧
      c.toRat = if subtract then a.toRat - b.toRat else a.toRat + b.toRat := by
  have hd : a.denominator * b.denominator ≠ 0 :=
    mul_ne_zero a.denominator_pos.ne' b.denominator_pos.ne'
  have hv : (((if subtract then a.numerator * b.denominator - b.numerator * a.denominator
      else a.numerator * b.denominator + b.numerator * a.denominator : ℤ)) : ℚ) /
      (a.denominator * b.denominator : ℤ) =
      if subtract then a.toRat - b.toRat else a.toRat + b.toRat := by
    have ha := a.denominator_ne_zero
    have hb := b.denominator_ne_zero
    split <;> simp only [toRat] <;> push_cast <;> field_simp
  simp only [combine, bind_eq_ok_iff, checkOperands_eq_ok_iff, product_eq_ok_iff,
    checkDigits_eq_ok_iff, exists_const]
  constructor
  · rintro ⟨⟨ha, hb⟩, _, ⟨-, rfl⟩, _, ⟨-, rfl⟩, -, _, ⟨-, rfl⟩, hr⟩
    obtain ⟨-, -, hc, hr⟩ := (reduce_eq_ok_iff hd).1 hr
    exact ⟨ha, hb, hc, hr.trans hv⟩
  · rintro ⟨ha, hb, hc, hr⟩
    have h₁ := natAbs_mul_lt_product ha.1 hb.2
    have h₂ := natAbs_mul_lt_product hb.1 ha.2
    have h₃ := natAbs_mul_lt_product ha.2 hb.2
    have hs : (if subtract then a.numerator * b.denominator - b.numerator * a.denominator
        else a.numerator * b.denominator + b.numerator * a.denominator).natAbs < sumBound := by
      split
      · exact natAbs_lt_sum h₁ (by rwa [Int.natAbs_neg])
      · exact natAbs_lt_sum h₁ h₂
    exact ⟨⟨ha, hb⟩, _, ⟨h₁, rfl⟩, _, ⟨h₂, rfl⟩, hs, _, ⟨h₃, rfl⟩,
      (reduce_eq_ok_iff hd).2 ⟨hs, h₃, hc, hr.trans hv.symm⟩⟩

theorem checkedAdd_eq_ok_iff : checkedAdd a b = .ok c ↔ a.InBudget ∧ b.InBudget ∧ c.InBudget ∧
      c.toRat = a.toRat + b.toRat :=
  combine_eq_ok_iff

theorem checkedSub_eq_ok_iff : checkedSub a b = .ok c ↔ a.InBudget ∧ b.InBudget ∧ c.InBudget ∧
      c.toRat = a.toRat - b.toRat :=
  combine_eq_ok_iff

theorem checkedMul_eq_ok_iff : checkedMul a b = .ok c ↔ a.InBudget ∧ b.InBudget ∧ c.InBudget ∧
      c.toRat = a.toRat * b.toRat := by
  rw [checkedMul, bind_eq_ok_iff]
  simp only [checkOperands_eq_ok_iff, exists_const, and_assoc]
  refine and_congr_right fun ha => and_congr_right fun hb => ?_
  rw [reduce_products_eq_ok_iff ha.1 hb.1 ha.2 hb.2
    (mul_ne_zero a.denominator_pos.ne' b.denominator_pos.ne'), mul_div_mul_comm]
  rfl

theorem checkedDiv_eq_ok_iff :
    checkedDiv a b = .ok c ↔ b.toRat ≠ 0 ∧ a.InBudget ∧ b.InBudget ∧ c.InBudget ∧
      c.toRat = a.toRat / b.toRat := by
  rw [checkedDiv, bind_eq_ok_iff]
  simp only [rejectIf_eq_ok_iff, exists_const, ← toRat_eq_zero_iff]
  refine and_congr_right fun hb₀ => ?_
  rw [bind_eq_ok_iff]
  simp only [checkOperands_eq_ok_iff, exists_const, and_assoc]
  refine and_congr_right fun ha => and_congr_right fun hb => ?_
  rw [reduce_products_eq_ok_iff ha.1 hb.2 ha.2 hb.1
    (mul_ne_zero a.denominator_pos.ne' (mt toRat_eq_zero_iff.2 hb₀)), ← div_div_div_eq]
  rfl

theorem onlyFails_checkDigits (v : ℤ) (b : ℕ) : OnlyFails .arithmeticLimit (checkDigits v b) :=
  onlyFails_rejectIf _ _

theorem onlyFails_checkBudget (a : ExactAmount) : OnlyFails .arithmeticLimit a.checkBudget :=
  (onlyFails_checkDigits _ _).bind fun _ _ => onlyFails_checkDigits _ _

theorem onlyFails_checkOperands (a b : ExactAmount) :
    OnlyFails .arithmeticLimit (checkOperands a b) :=
  (onlyFails_checkBudget a).bind fun _ _ => onlyFails_checkBudget b

theorem onlyFails_product (l r : ℤ) : OnlyFails .arithmeticLimit (product l r) :=
  (onlyFails_checkDigits _ _).bind fun _ _ => onlyFails_ok _ _

theorem onlyFails_reduce (n : ℤ) (hd : d ≠ 0) : OnlyFails .arithmeticLimit (reduce n d) := by
  rw [reduce, dif_neg hd]
  refine (onlyFails_checkDigits _ _).bind fun _ _ => ?_
  refine (onlyFails_checkDigits _ _).bind fun _ _ => ?_
  exact (onlyFails_checkBudget _).bind fun _ _ => onlyFails_ok _ _

theorem onlyFails_combine (a b : ExactAmount) (subtract : Bool) :
    OnlyFails .arithmeticLimit (combine a b subtract) := by
  refine (onlyFails_checkOperands a b).bind fun _ _ => ?_
  refine (onlyFails_product _ _).bind fun _ _ => ?_
  refine (onlyFails_product _ _).bind fun _ _ => ?_
  refine (onlyFails_checkDigits _ _).bind fun _ _ => ?_
  refine (onlyFails_product _ _).bind fun d hd => onlyFails_reduce _ ?_
  rw [← (product_eq_ok_iff.1 hd).2]
  exact mul_ne_zero a.denominator_pos.ne' b.denominator_pos.ne'

/-! ### Negation -/

/-- The opposite amount. -/
def neg (a : ExactAmount) : ExactAmount :=
  ⟨-a.numerator, a.denominator, a.denominator_pos, by rw [Int.neg_gcd, a.reduced]⟩

@[simp] theorem toRat_neg (a : ExactAmount) : a.neg.toRat = -a.toRat := by
  simp [toRat, neg, neg_div]

@[simp] theorem neg_neg (a : ExactAmount) : a.neg.neg = a :=
  toRat_injective (by simp)

@[simp] theorem inBudget_neg : a.neg.InBudget ↔ a.InBudget := by
  simp [InBudget, neg]

theorem combine_neg (a b : ExactAmount) (subtract : Bool) :
    combine a.neg b.neg subtract = (combine a b subtract).map neg := by
  have hneg : ∀ {a b c : ExactAmount}, combine a b subtract = .ok c →
      combine a.neg b.neg subtract = .ok c.neg := by
    intro a b c h
    rw [combine_eq_ok_iff] at h ⊢
    obtain ⟨ha, hb, hc, hv⟩ := h
    refine ⟨inBudget_neg.2 ha, inBudget_neg.2 hb, inBudget_neg.2 hc, ?_⟩
    rw [toRat_neg, toRat_neg, toRat_neg, hv]
    split <;> ring
  refine (onlyFails_combine a b _).eq_map (onlyFails_combine _ _ _) (fun c h => hneg h) ?_
  intro c h
  have h := hneg h
  rw [neg_neg, neg_neg] at h
  exact ⟨c.neg, h⟩

theorem checkedAdd_neg (a b : ExactAmount) : checkedAdd a.neg b.neg = (checkedAdd a b).map neg :=
  combine_neg a b false

theorem checkedSub_eq (a b : ExactAmount) : checkedSub a b = checkedAdd a b.neg := by
  have h : checkedSub a b = (checkedAdd a b.neg).map id := by
    refine (onlyFails_combine a b.neg false).eq_map (onlyFails_combine a b true) ?_ ?_
    · intro c h
      have h := checkedAdd_eq_ok_iff.1 h
      exact checkedSub_eq_ok_iff.2 (by simpa [sub_eq_add_neg] using h)
    · intro c h
      have h := checkedSub_eq_ok_iff.1 h
      exact ⟨c, checkedAdd_eq_ok_iff.2 (by simpa [sub_eq_add_neg] using h)⟩
  rw [h]
  cases checkedAdd a b.neg <;> rfl

/-! ### Between decimals and fractions -/

theorem natAbs_numerator_normalize_le (n d : ℤ) (hd : d ≠ 0) :
    (normalize n d hd).numerator.natAbs ≤ n.natAbs := by
  rcases eq_or_ne n 0 with rfl | hn
  · simp [normalize]
  · refine Nat.le_of_dvd (Int.natAbs_pos.2 hn) (Int.natAbs_dvd_natAbs.2 ?_)
    rw [← num_toRat, toRat_normalize, ← Rat.divInt_eq_div]
    exact Rat.num_dvd n hd

theorem natAbs_denominator_normalize_le (n d : ℤ) (hd : d ≠ 0) :
    (normalize n d hd).denominator.natAbs ≤ d.natAbs := by
  refine Nat.le_of_dvd (Int.natAbs_pos.2 hd) (Int.natAbs_dvd_natAbs.2 ?_)
  rw [← den_toRat, toRat_normalize, ← Rat.divInt_eq_div]
  exact Rat.den_dvd n d

theorem ten_pow_ne_zero (k : ℕ) : (10 : ℤ) ^ k ≠ 0 := by positivity

/-- All the digits of a decimal, as a reduced fraction. -/
def fromDecimal (d : Decimal) : ExactAmount :=
  normalize d.mantissa (10 ^ d.scale) (ten_pow_ne_zero _)

@[simp] theorem toRat_fromDecimal (d : Decimal) : (fromDecimal d).toRat = d.toRat := by
  rw [fromDecimal, toRat_normalize]
  push_cast
  rfl

theorem toRat_fromDecimal_amount (m : PostedMoney) : (fromDecimal m.amount).toRat = m.value :=
  toRat_fromDecimal _

/-- A fraction whose parts are within a power of ten. -/
def Digits (k : ℕ) (q : ℚ) : Prop :=
  ∃ n d : ℤ, d ≠ 0 ∧ q = n / d ∧ n.natAbs ≤ 10 ^ k ∧ d.natAbs ≤ 10 ^ k

section

variable {j k : ℕ} {p q : ℚ}

theorem Digits.mul (hp : Digits j p) (hq : Digits k q) : Digits (j + k) (p * q) := by
  obtain ⟨n, d, hd, rfl, hn, hd'⟩ := hp
  obtain ⟨m, e, he, rfl, hm, he'⟩ := hq
  refine ⟨n * m, d * e, mul_ne_zero hd he, by push_cast; exact div_mul_div_comm .., ?_, ?_⟩
  all_goals
    rw [Int.natAbs_mul, pow_add]
    exact Nat.mul_le_mul (by assumption) (by assumption)

theorem Digits.inv (hq : Digits k q) (h : q ≠ 0) : Digits k q⁻¹ := by
  obtain ⟨n, d, hd, rfl, hn, hd'⟩ := hq
  refine ⟨d, n, ?_, inv_div .., hd', hn⟩
  rintro rfl
  simp at h

theorem Digits.add (hp : Digits j p) (hq : Digits k q) : Digits (j + k + 1) (p + q) := by
  obtain ⟨n, d, hd, rfl, hn, hd'⟩ := hp
  obtain ⟨m, e, he, rfl, hm, he'⟩ := hq
  have h₁ := Nat.mul_le_mul hn he'
  have h₂ := Nat.mul_le_mul hd' hm
  have h₃ := Nat.mul_le_mul hd' he'
  have h₄ := Int.natAbs_add_le (n * e) (d * m)
  rw [Int.natAbs_mul, Int.natAbs_mul] at h₄
  refine ⟨n * e + d * m, d * e, mul_ne_zero hd he, ?_, ?_, ?_⟩
  · push_cast
    exact div_add_div _ _ (by exact_mod_cast hd) (by exact_mod_cast he)
  · rw [pow_succ, pow_add]
    omega
  · rw [Int.natAbs_mul, pow_succ, pow_add]
    omega

theorem Digits.sub (hp : Digits j p) (hq : Digits k q) : Digits (j + k + 1) (p - q) := by
  obtain ⟨n, d, hd, rfl, hn, hd'⟩ := hq
  rw [sub_eq_add_neg, ← neg_div]
  exact hp.add ⟨-n, d, hd, by push_cast; rfl, by simpa using hn, hd'⟩

theorem Digits.inBudget (h : Digits k a.toRat) (hk : k < 256) :
    a.InBudget ∧ a.numerator.natAbs ≤ 10 ^ k := by
  obtain ⟨n, d, hd, hv, hn, hd'⟩ := h
  obtain rfl : a = normalize n d hd := toRat_injective (hv.trans (toRat_normalize n d hd).symm)
  have hn := (natAbs_numerator_normalize_le n d hd).trans hn
  exact ⟨⟨hn.trans_lt (pow_lt_digitBound hk),
    ((natAbs_denominator_normalize_le n d hd).trans hd').trans_lt (pow_lt_digitBound hk)⟩, hn⟩

/-- A computation that returns every result within the budget returns one of few digits. -/
theorem Digits.exists_ok (h : Digits k q) (hk : k < 256) {x : Except ExactError ExactAmount}
    (hx : ∀ c, c.InBudget → c.toRat = q → x = .ok c) : ∃ c, x = .ok c ∧ c.toRat = q := by
  obtain ⟨n, d, hd, rfl, -⟩ := id h
  have hv := toRat_normalize n d hd
  exact ⟨_, hx _ (inBudget (hv.symm ▸ h) hk).1 hv, hv⟩

theorem Digits.decimal (d : Decimal) : Digits 29 (fromDecimal d).toRat := by
  rw [toRat_fromDecimal]
  refine ⟨d.mantissa, 10 ^ d.scale, ten_pow_ne_zero _, by push_cast; rfl, ?_, ?_⟩
  · exact d.mantissa_lt.le.trans (by decide)
  · exact Nat.pow_le_pow_right (by decide) (d.scale_le.trans (by decide))

end

theorem inBudget_fromDecimal (d : Decimal) : (fromDecimal d).InBudget :=
  ((Digits.decimal d).inBudget (by decide)).1

theorem inBudget_of_toRat_eq {d : Decimal} (h : a.toRat = d.toRat) : a.InBudget := by
  rw [toRat_injective (h.trans (toRat_fromDecimal d).symm)]
  exact inBudget_fromDecimal d

/-- Build the posting of a coefficient at the currency's scale: strip its zeros, then bound it. -/
def posted (coefficient : ℤ) (currency : CurrencySpec) : Except ExactError PostedMoney :=
  if h : 10 ^ 28 ≤ (Decimal.stripZeros coefficient currency.scale).1.natAbs then
    .error (.money .amountOutOfRange)
  else
    (tryNew
      ⟨(Decimal.stripZeros coefficient currency.scale).1,
        (Decimal.stripZeros coefficient currency.scale).2,
        (not_le.1 h).trans (by decide),
        (Decimal.stripZeros_scale_le _ _).trans currency.scale_le⟩ currency).mapError .money

/-- Bounding the significant digits is the only check a posting on the grid can fail. -/
theorem posted_eq (k : ℤ) (c : CurrencySpec) : posted k c =
    if h : Fits c k then .ok (.ofUnits c k h) else .error
      (.money .amountOutOfRange) := by
  unfold posted
  by_cases h : Fits c k
  · rw [dif_neg (not_le.2 h), dif_pos h, mapError_eq_ok_iff, tryNew_eq_ok_iff]
    exact ⟨rfl, rfl⟩
  · rw [dif_pos (not_lt.1 h), dif_neg h]

theorem posted_of_fits {c : CurrencySpec} (h : Fits c k) :
    posted k c = .ok (.ofUnits c k h) := by
  rw [posted_eq, dif_pos h]

theorem onlyFails_posted (k : ℤ) (c : CurrencySpec) :
    OnlyFails (.money .amountOutOfRange) (posted k c) := by
  intro e h
  rw [posted_eq] at h
  split at h
  · cases h
  · cases h
    rfl

theorem posted_eq_ok_iff_units {c : CurrencySpec} :
    posted k c = .ok m ↔ m.currency = c ∧ m.units = k := by
  rw [posted_eq]
  constructor
  · intro h
    split at h
    · cases h
      exact ⟨rfl, units_ofUnits _⟩
    · cases h
  · rintro ⟨rfl, rfl⟩
    rw [dif_pos m.fits_units]
    exact congrArg ok (ext_units rfl (units_ofUnits _))

theorem posted_eq_ok_iff {c : CurrencySpec} :
    posted k c = .ok m ↔ m.currency = c ∧ m.value = k / 10 ^ c.scale := by
  rw [posted_eq_ok_iff_units]
  refine and_congr_right ?_
  rintro rfl
  rw [m.value_eq_units, div_left_inj' (by positivity), Int.cast_inj]

/-- Encode a value at the scale of a currency without rounding. -/
def intoPostedExact (a : ExactAmount) (currency : CurrencySpec) :
    Except ExactError PostedMoney := do
  checkBudget a
  let scaled ← product a.numerator (10 ^ currency.scale)
  rejectIf (scaled % a.denominator ≠ 0) (.money .invalidPostingIncrement)
  posted (scaled / a.denominator) currency

theorem natAbs_ten_pow_lt {k : ℕ} (hk : k ≤ 28) : ((10 : ℤ) ^ k).natAbs < finalBound := by
  exact pow_lt_digitBound (by omega)

theorem intoPostedExact_of_units {c : CurrencySpec} (hb : a.InBudget)
    (h : a.toRat = k / 10 ^ c.scale) : intoPostedExact a c = posted k c := by
  have hu : a.numerator * 10 ^ c.scale = k * a.denominator := by
    rw [toRat, div_eq_div_iff a.denominator_ne_zero (by positivity)] at h
    exact_mod_cast h
  have hp : product a.numerator (10 ^ c.scale) = .ok (k * a.denominator) :=
    product_eq_ok_iff.2 ⟨natAbs_mul_lt_product hb.1 (natAbs_ten_pow_lt c.scale_le), hu⟩
  rw [intoPostedExact, (checkBudget_eq_ok_iff (u := ())).2 hb, ok_bind, hp, ok_bind,
    rejectIf_of_not (by simp), ok_bind, Int.mul_ediv_cancel _ a.denominator_pos.ne']

/-- **Narrowing is exact.**  A value narrows to a posting exactly when some posting of the
currency has that value. -/
theorem intoPostedExact_eq_ok_iff {c : CurrencySpec} :
    intoPostedExact a c = .ok m ↔ m.currency = c ∧ m.value = a.toRat := by
  constructor
  · intro h
    simp only [intoPostedExact, ok_iffs, product_eq_ok_iff, posted_eq_ok_iff, not_not] at h
    obtain ⟨-, -, _, ⟨-, rfl⟩, -, hm, rfl, hv⟩ := h
    refine ⟨rfl, hv.trans ?_⟩
    have ha := a.denominator_ne_zero
    rw [Int.cast_div (Int.dvd_of_emod_eq_zero hm) ha, toRat]
    push_cast
    field_simp
  · rintro ⟨rfl, hv⟩
    rw [intoPostedExact_of_units (inBudget_of_toRat_eq hv.symm) (hv.symm.trans m.value_eq_units),
      posted_eq_ok_iff]
    exact ⟨rfl, m.value_eq_units⟩

/-! ### Rounding -/

/-- Round to a posting increment, keeping the exact fraction. -/
def roundHalfEvenExact (a : ExactAmount) (scale : ℕ) : Except ExactError ExactAmount := do
  rejectIf (28 < scale) (.money .scaleOutOfRange)
  checkBudget a
  let scaled ← product |a.numerator| (10 ^ scale)
  let quotient := scaled / a.denominator
  let remainder := scaled % a.denominator
  let twiceRemainder ← product remainder 2
  let quotient :=
    if twiceRemainder > a.denominator ∨ (twiceRemainder = a.denominator ∧ quotient % 2 ≠ 0) then
      quotient + 1
    else quotient
  let quotient := if a.numerator < 0 then -quotient else quotient
  reduce quotient (10 ^ scale)

/-- Round once at the scale of the currency, ties to an even coefficient. -/
def roundHalfEven (a : ExactAmount) (currency : CurrencySpec) : Except ExactError PostedMoney := do
  let rounded ← roundHalfEvenExact a currency.scale
  intoPostedExact rounded currency

/-- The posting increments a fraction rounds to. -/
def roundedUnits (a : ExactAmount) (scale : ℕ) : ℤ :=
  if a.numerator < 0 then -(halfEven (a.numerator.natAbs * 10 ^ scale) a.denominator.natAbs : ℤ)
  else halfEven (a.numerator.natAbs * 10 ^ scale) a.denominator.natAbs

theorem ite_quotient_eq_halfEven (n d : ℕ) :
    (if (n : ℤ) % d * 2 > d ∨ ((n : ℤ) % d * 2 = d ∧ (n : ℤ) / d % 2 ≠ 0) then (n : ℤ) / d + 1
      else (n : ℤ) / d) = (halfEven n d : ℕ) := by
  unfold halfEven
  have h₁ : ((n : ℤ) % d * 2 > d) ↔ d < 2 * (n % d) := by omega
  have h₂ : ((n : ℤ) % d * 2 = d) ↔ 2 * (n % d) = d := by omega
  have h₃ : ((n : ℤ) / d % 2 ≠ 0) ↔ n / d % 2 ≠ 0 := by omega
  simp only [h₁, h₂, h₃]
  split <;> push_cast <;> rfl

theorem natAbs_roundedUnits_le (a : ExactAmount) (scale : ℕ) :
    (a.roundedUnits scale).natAbs ≤ a.numerator.natAbs * 10 ^ scale := by
  have hd : 0 < a.denominator.natAbs := Int.natAbs_pos.2 a.denominator_pos.ne'
  have h : halfEven (a.numerator.natAbs * 10 ^ scale) a.denominator.natAbs ≤
      a.numerator.natAbs * 10 ^ scale := halfEven_le hd (Nat.le_mul_of_pos_right _ hd)
  unfold roundedUnits
  split <;> simpa using h

theorem roundHalfEvenExact_eq_ok_iff {scale : ℕ} (hs : scale ≤ 28) :
    roundHalfEvenExact a scale = .ok c ↔ a.InBudget ∧ c.InBudget ∧
      c.toRat = a.roundedUnits scale / 10 ^ scale := by
  have hd : (a.denominator.natAbs : ℤ) = a.denominator := Int.natAbs_of_nonneg a.denominator_pos.le
  have hn : |a.numerator| * 10 ^ scale = (a.numerator.natAbs * 10 ^ scale : ℕ) := by
    push_cast [Int.natCast_natAbs]
    rfl
  have hq : (let scaled := |a.numerator| * 10 ^ scale
      let quotient := if scaled % a.denominator * 2 > a.denominator ∨
          (scaled % a.denominator * 2 = a.denominator ∧ scaled / a.denominator % 2 ≠ 0)
        then scaled / a.denominator + 1 else scaled / a.denominator
      if a.numerator < 0 then -quotient else quotient) = a.roundedUnits scale := by
    dsimp only
    rw [hn, ← hd, ite_quotient_eq_halfEven]
    rfl
  dsimp only at hq
  simp only [roundHalfEvenExact, ok_iffs, not_lt, hs, checkBudget_eq_ok_iff,
    product_eq_ok_iff, exists_const, true_and]
  have hp : (10 : ℤ) ^ scale ≠ 0 := ten_pow_ne_zero scale
  constructor
  · rintro ⟨hb, _, ⟨-, rfl⟩, _, ⟨-, rfl⟩, hr⟩
    rw [hq] at hr
    obtain ⟨-, -, hc, hr⟩ := (reduce_eq_ok_iff hp).1 hr
    exact ⟨hb, hc, by rw [hr]; push_cast; rfl⟩
  · rintro ⟨hb, hc, hr⟩
    have h₁ : (|a.numerator| * 10 ^ scale).natAbs < productBound :=
      natAbs_mul_lt_product (by rw [Int.natAbs_abs]; exact hb.1) (natAbs_ten_pow_lt hs)
    have h₂ : (|a.numerator| * 10 ^ scale % a.denominator * 2).natAbs < productBound := by
      refine natAbs_mul_lt_product (lt_of_le_of_lt ?_ hb.2)
        ((show 2 ≤ 10 ^ 1 by decide).trans_lt (pow_lt_digitBound (by decide)))
      have := Int.emod_nonneg (|a.numerator| * 10 ^ scale) a.denominator_pos.ne'
      have := Int.emod_lt_of_pos (|a.numerator| * 10 ^ scale) a.denominator_pos
      omega
    refine ⟨hb, _, ⟨h₁, rfl⟩, _, ⟨h₂, rfl⟩, ?_⟩
    rw [hq]
    refine (reduce_eq_ok_iff hp).2 ⟨?_, ?_, hc, by rw [hr]; push_cast; rfl⟩
    · refine (natAbs_roundedUnits_le a scale).trans_lt (lt_trans ?_ productBound_lt)
      rw [hn] at h₁
      exact h₁
    · exact (natAbs_ten_pow_lt hs).trans_le (by
        rw [productBound_eq]; exact Nat.le_mul_of_pos_right _ (digitBound_pos 256))

/-- **Rounding at a currency.**  The result is the posting of the nearest number of posting
increments. -/
theorem roundHalfEven_eq_ok_iff {c : CurrencySpec} :
    roundHalfEven a c = .ok m ↔ a.InBudget ∧ m.currency = c ∧ m.units = a.roundedUnits c.scale := by
  have hu : ∀ {q : ℤ}, m.currency = c → (m.value = q / 10 ^ c.scale ↔ m.units = q) := by
    rintro q rfl
    rw [m.value_eq_units, div_left_inj' (by positivity), Int.cast_inj]
  simp only [roundHalfEven, bind_eq_ok_iff, roundHalfEvenExact_eq_ok_iff c.scale_le,
    intoPostedExact_eq_ok_iff]
  constructor
  · rintro ⟨r, ⟨hb, -, hr⟩, hc, hv⟩
    exact ⟨hb, hc, (hu hc).1 (hv.trans hr)⟩
  · rintro ⟨hb, hc, hm⟩
    have hv := (hu hc).2 hm
    exact ⟨fromDecimal m.amount,
      ⟨hb, inBudget_fromDecimal _, (toRat_fromDecimal_amount m).trans hv⟩, hc,
      (toRat_fromDecimal_amount m).symm⟩

section

variable {i j k : ℕ} {x y z : ExactAmount}

/-- A ratio of few digits is computed exactly. -/
theorem Digits.exists_ratio (hx : Digits i x.toRat) (hy : Digits j y.toRat) (hz : Digits k z.toRat)
    (hne : z.toRat ≠ 0) (hk : i + j + k < 256) : ∃ product quotient, x.checkedMul y = .ok product ∧
      product.checkedDiv z = .ok quotient ∧ quotient.toRat = x.toRat * y.toRat / z.toRat ∧
      Digits (i + j + k) quotient.toRat := by
  have hp := hx.mul hy
  obtain ⟨product, hproduct, hpv⟩ := hp.exists_ok (by omega) fun c hc hv =>
    checkedMul_eq_ok_iff.2 ⟨(hx.inBudget (by omega)).1, (hy.inBudget (by omega)).1, hc, hv⟩
  rw [← hpv] at hp
  have hq := hp.mul (hz.inv hne)
  rw [← div_eq_mul_inv] at hq
  obtain ⟨quotient, hquotient, hqv⟩ := hq.exists_ok hk fun c hc hv =>
    checkedDiv_eq_ok_iff.2 ⟨hne, (hp.inBudget (by omega)).1, (hz.inBudget (by omega)).1, hc, hv⟩
  exact ⟨product, quotient, hproduct, hquotient, hpv ▸ hqv, hqv ▸ hq⟩

/-- Rounding a fraction of few digits can only fail for the size of the posting. -/
theorem Digits.roundHalfEven_eq (hx : Digits k x.toRat) (hk : k + 28 < 256) {c : CurrencySpec} :
    x.roundHalfEven c = posted (x.roundedUnits c.scale) c := by
  obtain ⟨hb, hn⟩ := hx.inBudget (by omega)
  have hs := Nat.pow_le_pow_right (by decide : 0 < 10) c.scale_le
  have hr : Digits (k + 28) (x.roundedUnits c.scale / 10 ^ c.scale) := by
    refine ⟨_, 10 ^ c.scale, ten_pow_ne_zero _, by push_cast; rfl, ?_, ?_⟩
    · exact (x.natAbs_roundedUnits_le _).trans ((Nat.mul_le_mul hn hs).trans_eq (pow_add ..).symm)
    · exact hs.trans (Nat.pow_le_pow_right (by decide) (by omega))
  obtain ⟨r, hr, hv⟩ := hr.exists_ok hk fun r hr hv =>
    (roundHalfEvenExact_eq_ok_iff c.scale_le).2 ⟨hb, hr, hv⟩
  rw [roundHalfEven, hr, ok_bind]
  exact intoPostedExact_of_units ((roundHalfEvenExact_eq_ok_iff c.scale_le).1 hr).2.1 hv

end

end ExactAmount

end Gears.Money
