import Gears.Lib.Except
import Mathlib.Algebra.Order.Field.Rat
import Mathlib.Data.Rat.Cast.Order
import Mathlib.Tactic.FieldSimp
import Mathlib.Tactic.Linarith
import Mathlib.Tactic.Positivity
import Mathlib.Tactic.Ring

/-!
# Decimal amounts and posted money

The decimal carrier of `bss-money` and the two validated types built on it.

* `Decimal` : a coefficient of at most 96 bits over a power of ten (`mantissa / 10 ^ scale`).
* `Decimal.normalize` : the form without fractional trailing zeros; `Decimal.normalize_unique`
  says that two normalized decimals of one value are equal.
* `CurrencySpec` : a validated currency code with its posting scale.
* `PostedMoney` : a normalized amount that fits 28 digits and its currency's posting grid.
  `PostedMoney.ext_value` : it is determined by its currency and its value.
* `PostedMoney.units` : the amount counted in posting increments.
-/

namespace Gears.Money

/-- A failure to validate decimal money or to combine its metadata. -/
inductive MoneyError
  | invalidDecimal
  | invalidCurrency
  | scaleOutOfRange
  | amountOutOfRange
  | invalidPostingIncrement
  | currencyMismatch
  | scaleMismatch
  deriving DecidableEq, Repr

/-! ### The decimal carrier -/

/-- The decimal carrier: a signed 96-bit coefficient at a scale of at most 28. -/
structure Decimal where
  /-- The signed coefficient. -/
  mantissa : ℤ
  /-- The number of fractional digits. -/
  scale : ℕ
  mantissa_lt : mantissa.natAbs < 2 ^ 96
  scale_le : scale ≤ 28
  deriving DecidableEq, Repr

namespace Decimal

variable (d : Decimal)

/-- The number the carrier stands for. -/
def toRat : ℚ := d.mantissa / 10 ^ d.scale

/-- `Decimal::ZERO`. -/
def zero : Decimal := ⟨0, 0, by decide, by decide⟩

/-- Value order, by cross products over the two scales. -/
def lt (a b : Decimal) : Prop := a.mantissa * 10 ^ b.scale < b.mantissa * 10 ^ a.scale

/-- Value order, by cross products over the two scales. -/
def le (a b : Decimal) : Prop := a.mantissa * 10 ^ b.scale ≤ b.mantissa * 10 ^ a.scale

instance : LT Decimal := ⟨lt⟩
instance : LE Decimal := ⟨le⟩
instance (a b : Decimal) : Decidable (a < b) :=
  inferInstanceAs (Decidable (a.mantissa * 10 ^ b.scale < b.mantissa * 10 ^ a.scale))
instance (a b : Decimal) : Decidable (a ≤ b) :=
  inferInstanceAs (Decidable (a.mantissa * 10 ^ b.scale ≤ b.mantissa * 10 ^ a.scale))

/-- Whether the amount is zero, at any scale. -/
def isZero : Bool := d.mantissa == 0

@[simp] theorem toRat_zero : zero.toRat = 0 := by simp [toRat, zero]

variable {a b : Decimal} {m : ℤ} {s : ℕ}

theorem lt_iff : a < b ↔ a.toRat < b.toRat := by
  rw [toRat, toRat, div_lt_div_iff₀ (by positivity) (by positivity)]
  exact_mod_cast Iff.rfl

theorem le_iff : a ≤ b ↔ a.toRat ≤ b.toRat := by
  rw [toRat, toRat, div_le_div_iff₀ (by positivity) (by positivity)]
  exact_mod_cast Iff.rfl

theorem isZero_iff {d : Decimal} : d.isZero = true ↔ d.toRat = 0 := by
  simp [isZero, toRat]

/-- Strip the trailing zeros of a coefficient as far as its scale allows. -/
def stripZeros (m : ℤ) : ℕ → ℤ × ℕ
  | 0 => (m, 0)
  | s + 1 => if m % 10 = 0 then stripZeros (m / 10) s else (m, s + 1)

theorem stripZeros_scale_le (m : ℤ) (s : ℕ) : (stripZeros m s).2 ≤ s := by
  induction s generalizing m with
  | zero => exact le_rfl
  | succ s ih =>
    rw [stripZeros]
    split
    · exact (ih _).trans s.le_succ
    · exact le_rfl

/-- Stripping zeros keeps the value: it divides the coefficient by the power of ten it takes off
the scale. -/
theorem stripZeros_mul (m : ℤ) (s : ℕ) :
    (stripZeros m s).1 * 10 ^ (s - (stripZeros m s).2) = m := by
  induction s generalizing m with
  | zero => simp [stripZeros]
  | succ s ih =>
    rw [stripZeros]
    split
    · have hle := stripZeros_scale_le (m / 10) s
      rw [Nat.succ_sub hle, pow_succ, ← mul_assoc, ih]
      omega
    · simp

theorem stripZeros_natAbs_le (m : ℤ) (s : ℕ) : (stripZeros m s).1.natAbs ≤ m.natAbs := by
  conv_rhs => rw [← stripZeros_mul m s, Int.natAbs_mul]
  exact Nat.le_mul_of_pos_right _ (Int.natAbs_pos.2 (by positivity))

/-- A coefficient at a scale has no trailing zero left to strip. -/
def Normalized (m : ℤ) (s : ℕ) : Prop := s = 0 ∨ m % 10 ≠ 0

instance (m : ℤ) (s : ℕ) : Decidable (Normalized m s) :=
  inferInstanceAs (Decidable (s = 0 ∨ m % 10 ≠ 0))

theorem stripZeros_normalized (m : ℤ) (s : ℕ) :
    Normalized (stripZeros m s).1 (stripZeros m s).2 := by
  induction s generalizing m with
  | zero => exact .inl rfl
  | succ s ih =>
    rw [stripZeros]
    split
    · exact ih _
    · rename_i h; exact .inr h

theorem stripZeros_of_normalized (h : Normalized m s) : stripZeros m s = (m, s) := by
  cases s with
  | zero => rfl
  | succ s => rw [stripZeros, if_neg (h.resolve_left (by omega))]

/-- Change of sign. -/
def neg : Decimal := ⟨-d.mantissa, d.scale, by simpa using d.mantissa_lt, d.scale_le⟩

@[simp] theorem toRat_neg : d.neg.toRat = -d.toRat := by
  simp [toRat, neg, neg_div]

/-- Strip fractional trailing zeros; every zero becomes `0` at scale `0`. -/
def normalize : Decimal where
  mantissa := (stripZeros d.mantissa d.scale).1
  scale := (stripZeros d.mantissa d.scale).2
  mantissa_lt := (stripZeros_natAbs_le _ _).trans_lt d.mantissa_lt
  scale_le := (stripZeros_scale_le _ _).trans d.scale_le

theorem div_pow_stripZeros (m : ℤ) (s : ℕ) :
    ((stripZeros m s).1 : ℚ) / 10 ^ (stripZeros m s).2 = m / 10 ^ s := by
  have hm : ((stripZeros m s).1 : ℚ) * 10 ^ (s - (stripZeros m s).2) = m := by
    exact_mod_cast stripZeros_mul m s
  rw [div_eq_div_iff (by positivity) (by positivity), ← hm, mul_assoc, ← pow_add,
    Nat.sub_add_cancel (stripZeros_scale_le m s)]

@[simp] theorem toRat_normalize : d.normalize.toRat = d.toRat :=
  div_pow_stripZeros d.mantissa d.scale

theorem normalize_normalized : Normalized d.normalize.mantissa d.normalize.scale :=
  stripZeros_normalized _ _

theorem normalize_eq_self {d : Decimal} (h : Normalized d.mantissa d.scale) : d.normalize = d := by
  simp only [normalize, stripZeros_of_normalized h]

/-- At two scales of one value, a coefficient with nothing to strip has the smaller scale. -/
theorem Normalized.scale_le {n : ℤ} {t : ℕ} (hm : Normalized m s)
    (h : m * 10 ^ t = n * 10 ^ s) : s ≤ t := by
  by_contra hlt
  rcases hm with rfl | hm
  · exact hlt (Nat.zero_le t)
  · obtain ⟨k, rfl⟩ := Nat.exists_eq_add_of_lt (not_le.1 hlt)
    have hk : m = n * 10 ^ (k + 1) := by
      have h10 : (10 : ℤ) ^ t ≠ 0 := by positivity
      refine mul_right_cancel₀ h10 (h.trans ?_)
      rw [show t + k + 1 = (k + 1) + t by omega, pow_add, mul_assoc]
    apply hm
    rw [hk, pow_succ, ← mul_assoc]
    exact Int.mul_emod_left _ _

theorem Normalized.unique {n : ℤ} {t : ℕ} (hm : Normalized m s) (hn : Normalized n t)
    (h : m * 10 ^ t = n * 10 ^ s) : m = n ∧ s = t := by
  have hs : s = t := le_antisymm (hm.scale_le h) (hn.scale_le h.symm)
  subst hs
  exact ⟨mul_right_cancel₀ (by positivity) h, rfl⟩

/-- **A value has one normalized decimal.** -/
theorem normalize_unique (ha : Normalized a.mantissa a.scale)
    (hb : Normalized b.mantissa b.scale) (h : a.toRat = b.toRat) : a = b := by
  rw [toRat, toRat, div_eq_div_iff (by positivity) (by positivity)] at h
  obtain ⟨hm, hs⟩ := ha.unique hb (by exact_mod_cast h)
  cases a
  simp_all

/-- The low `s` decimal digits of `n`, most significant first. -/
def fractionDigits (n : ℕ) : ℕ → List Char
  | 0 => []
  | s + 1 => fractionDigits (n / 10) s ++ [(n % 10).digitChar]

/-- Plain text of a decimal: a sign, the integer digits and, after a point, as many fractional
digits as the scale. -/
def toText : List Char :=
  (if d.mantissa < 0 then ['-'] else []) ++ Nat.toDigits 10 (d.mantissa.natAbs / 10 ^ d.scale) ++
    if d.scale = 0 then [] else '.' :: fractionDigits d.mantissa.natAbs d.scale

end Decimal

/-- Text without fractional trailing zeros or negative zero. -/
def canonicalDecimal (d : Decimal) : String := String.ofList d.normalize.toText

/-! ### Currencies -/

/-- The accepted currency codes: 1 to 16 uppercase ASCII letters or digits. -/
def validCode (code : String) : Bool :=
  !code.isEmpty && decide (code.utf8ByteSize ≤ 16) &&
    code.toList.all fun c => c.isUpper || c.isDigit

/-- Currency code and stored posting scale. -/
structure CurrencySpec where
  code : String
  scale : ℕ
  valid : validCode code = true
  scale_le : scale ≤ 28
  deriving DecidableEq, Repr

namespace CurrencySpec

/-- Dollars. -/
def usd : CurrencySpec := ⟨"USD", 2, by decide, by decide⟩

/-- Validate the code's shape and the scale. -/
def tryNew (code : String) (scale : ℕ) : Except MoneyError CurrencySpec :=
  if hc : validCode code = true then
    if hs : scale ≤ 28 then .ok ⟨code, scale, hc, hs⟩ else .error .scaleOutOfRange
  else .error .invalidCurrency

/-- Require the same code and the same scale. -/
def ensureSame (a b : CurrencySpec) : Except MoneyError Unit := do
  Except.rejectIf (a.code ≠ b.code) .currencyMismatch
  Except.rejectIf (a.scale ≠ b.scale) .scaleMismatch

theorem ext_code_scale {a b : CurrencySpec} (hc : a.code = b.code) (hs : a.scale = b.scale) :
    a = b := by
  cases a
  cases hc
  cases hs
  rfl

@[simp] theorem ensureSame_eq_ok_iff {a b : CurrencySpec} {u : Unit} :
    a.ensureSame b = .ok u ↔ a = b := by
  cases a
  cases b
  simp [ensureSame]

end CurrencySpec

/-! ### Posted money -/

/-- A bounded decimal posting amount with its currency: the amount is normalized, its
coefficient has at most 28 digits and it lies on the posting grid of the currency. -/
structure PostedMoney where
  amount : Decimal
  currency : CurrencySpec
  normalized : Decimal.Normalized amount.mantissa amount.scale
  coefficient_lt : amount.mantissa.natAbs < 10 ^ 28
  on_grid : amount.scale ≤ currency.scale
  deriving DecidableEq, Repr

namespace PostedMoney

/-- Validate a posting in major units without rounding or rescaling: normalize, then check the
coefficient limit (`validate_amount`) and the posting grid. -/
def tryNew (amount : Decimal) (currency : CurrencySpec) : Except MoneyError PostedMoney :=
  if hc : amount.normalize.mantissa.natAbs < 10 ^ 28 then
    if hs : amount.normalize.scale ≤ currency.scale then
      .ok ⟨amount.normalize, currency, amount.normalize_normalized, hc, hs⟩
    else .error .invalidPostingIncrement
  else .error .amountOutOfRange

/-- The amount in major units. -/
def value (m : PostedMoney) : ℚ := m.amount.toRat

/-- The amount in posting increments of its currency. -/
def units (m : PostedMoney) : ℤ := m.amount.mantissa * 10 ^ (m.currency.scale - m.amount.scale)

theorem value_eq_units (m : PostedMoney) : m.value = m.units / 10 ^ m.currency.scale := by
  rw [value, Decimal.toRat, units, div_eq_div_iff (by positivity) (by positivity)]
  push_cast
  rw [mul_assoc, ← pow_add, Nat.sub_add_cancel m.on_grid]

variable {a b m : PostedMoney} {c : CurrencySpec} {k : ℤ}

theorem ext_value (hc : a.currency = b.currency) (hv : a.value = b.value) : a = b := by
  have ha := Decimal.normalize_unique a.normalized b.normalized hv
  cases a
  simp_all

variable (currency : CurrencySpec)

/-- Zero money of a currency. -/
def zero : PostedMoney :=
  ⟨.zero, currency, .inl rfl, by decide, Nat.zero_le _⟩

/-- The significant digits of a number of posting increments fit the coefficient limit. -/
def Fits (units : ℤ) : Prop :=
  (Decimal.stripZeros units currency.scale).1.natAbs < 10 ^ 28

instance (units : ℤ) : Decidable (Fits currency units) :=
  inferInstanceAs (Decidable (_ < _))

/-- The posting of a number of posting increments whose significant digits fit. -/
def ofUnits (units : ℤ) (h : Fits currency units) : PostedMoney where
  amount := ⟨(Decimal.stripZeros units currency.scale).1,
    (Decimal.stripZeros units currency.scale).2, h.trans (by decide),
    (Decimal.stripZeros_scale_le _ _).trans currency.scale_le⟩
  currency := currency
  normalized := Decimal.stripZeros_normalized _ _
  coefficient_lt := h
  on_grid := Decimal.stripZeros_scale_le _ _

/-- So many cents of a dollar, or none where they do not fit. -/
def cents (n : ℕ) : PostedMoney := if h : Fits .usd n then .ofUnits .usd n h else .zero .usd

theorem units_ofUnits (h : Fits c k) : (ofUnits c k h).units = k :=
  Decimal.stripZeros_mul k c.scale

theorem value_ofUnits (h : Fits c k) : (ofUnits c k h).value = k / 10 ^ c.scale := by
  rw [value_eq_units, units_ofUnits]
  rfl

theorem ext_units (hc : a.currency = b.currency) (hu : a.units = b.units) : a = b :=
  ext_value hc (by rw [value_eq_units, value_eq_units, hc, hu])

theorem value_nonneg_iff : 0 ≤ m.value ↔ 0 ≤ m.units := by
  rw [m.value_eq_units, le_div_iff₀ (by positivity), zero_mul]
  exact_mod_cast Iff.rfl

theorem value_pos_iff : 0 < m.value ↔ 0 < m.units := by
  rw [m.value_eq_units, lt_div_iff₀ (by positivity), zero_mul]
  exact_mod_cast Iff.rfl

theorem units_le {n : PostedMoney} (hc : m.currency = n.currency) :
    m.units ≤ n.units ↔ m.value ≤ n.value := by
  rw [m.value_eq_units, n.value_eq_units, hc, div_le_div_iff_of_pos_right (by positivity),
    Int.cast_le]

theorem value_sub {c : PostedMoney} (hb : b.currency = a.currency)
    (hc : c.currency = a.currency) (h : c.units = a.units - b.units) :
    c.value = a.value - b.value := by
  rw [c.value_eq_units, a.value_eq_units, b.value_eq_units, hb, hc, h]
  push_cast
  ring

theorem natAbs_units_le (m : PostedMoney) : m.units.natAbs ≤ 10 ^ 56 := by
  have hscale : m.currency.scale - m.amount.scale ≤ 28 :=
    (Nat.sub_le _ _).trans m.currency.scale_le
  rw [units, Int.natAbs_mul]
  calc m.amount.mantissa.natAbs * 10 ^ (m.currency.scale - m.amount.scale)
      ≤ 10 ^ 28 * 10 ^ 28 :=
        Nat.mul_le_mul m.coefficient_lt.le (Nat.pow_le_pow_right (by decide) hscale)

theorem fits_of_natAbs_lt (h : k.natAbs < 10 ^ 28) : Fits c k :=
  (Decimal.stripZeros_natAbs_le _ _).trans_lt h

theorem fits_units (m : PostedMoney) : Fits m.currency m.units := by
  have hx : (Decimal.stripZeros m.units m.currency.scale).1 = m.amount.mantissa := by
    refine ((Decimal.stripZeros_normalized _ _).unique m.normalized ?_).1
    have hv := m.value_eq_units
    rw [value, Decimal.toRat, ← Decimal.div_pow_stripZeros m.units,
      div_eq_div_iff (by positivity) (by positivity)] at hv
    exact_mod_cast hv.symm
  unfold Fits
  rw [hx]
  exact m.coefficient_lt

theorem tryNew_eq_ok_iff {d : Decimal} :
    tryNew d c = .ok m ↔ m.currency = c ∧ m.value = d.toRat := by
  constructor
  · intro h
    unfold tryNew at h
    split_ifs at h
    cases h
    exact ⟨rfl, d.toRat_normalize⟩
  · rintro ⟨rfl, hv⟩
    have hn : d.normalize = m.amount :=
      Decimal.normalize_unique d.normalize_normalized m.normalized (by simpa [value] using hv.symm)
    simp only [tryNew, hn, m.coefficient_lt, m.on_grid, ↓reduceDIte]

end PostedMoney

end Gears.Money
