import Gears.Money.Decimal
import Gears.Lib.Uuid
import Gears.Lib.Date

/-!
# Prices

The vocabulary of price books and the record of one price, with the rules that a price meets on
its own.

* `PriceData`, `validate` (of a price body) : the money of a price in its entry's model.
* `Price` : one version of an entry's price, for one dimension value or for the default.
* `Price.validate` : the authoring rules, all refusals in order.
-/

namespace Gears.Pricing

open Money Except

/-- A stable validation code. -/
structure RuleError where
  code : String
  deriving DecidableEq, Repr

/-- What an entry charges for, from its SKU's type. -/
inductive ChargeKind
  | recurring
  | usage
  | oneTime
  deriving DecidableEq, Repr

/-- The model an entry prices in. -/
inductive Model
  | flat
  | perUnit
  | graduated
  | volume
  | package
  deriving DecidableEq, Repr

/-- Whether the charge kind permits the model. -/
def modelAllowed : ChargeKind → Model → Bool
  | .usage, model => model != .flat
  | .recurring, model | .oneTime, model => model == .flat || model == .perUnit

/-- Who a price binds: everyone, or new subscriptions only. -/
inductive Eligibility
  | all
  | new
  deriving DecidableEq, Repr

/-- The stored state of a price. -/
inductive PriceState
  | draft
  | pending
  | approved
  | rejected
  | cancelled
  deriving DecidableEq, Repr

/-! ### Numeric limits -/

/-- Why a pricing number was refused. -/
inductive NumericError
  | outOfRange
  | negative
  | notPositive
  | invalidMinimumFee
  deriving DecidableEq, Repr

/-- The rule code of a refused decimal. -/
def NumericError.code : NumericError → String
  | .outOfRange => "AMOUNT_OUT_OF_RANGE"
  | .invalidMinimumFee => "MIN_FEE_INVALID"
  | .negative | .notPositive => "AMOUNT_INVALID"

/-- Most fractional places a rate can have. -/
def rateFractionalDigits : ℕ := 12

/-- Most fractional places a threshold or a quantity can have. -/
def quantityFractionalDigits : ℕ := 28

variable (value : Decimal)

/-- Normalize, refuse a coefficient of more than 28 digits, then a value below zero. -/
def nonNegative : Except NumericError Decimal := do
  let value := value.normalize
  rejectIf (¬ value.mantissa.natAbs < 10 ^ 28) .outOfRange
  rejectIf (value.mantissa < 0) .negative
  pure value

/-- Refuse a normalized value with more than `max` fractional places. -/
def withPlacesUpTo (max : ℕ) : Except NumericError Decimal := do
  rejectIf (max < value.scale) .outOfRange
  pure value

/-- Check a rate. -/
def validateRate : Except NumericError Decimal := do
  withPlacesUpTo (← nonNegative value) rateFractionalDigits

/-- Check a threshold. -/
def validateThreshold : Except NumericError Decimal := do
  withPlacesUpTo (← nonNegative value) quantityFractionalDigits

/-- Check a quantity, which must be above zero. -/
def validatePositiveQuantity : Except NumericError Decimal := do
  let value ← nonNegative value
  rejectIf value.isZero .notPositive
  withPlacesUpTo value quantityFractionalDigits

/-- Check a minimum fee: it has no more places than its currency. -/
def validateMinimumFee (currency : CurrencySpec) : Except NumericError Decimal := do
  let value ← nonNegative value
  rejectIf (currency.scale < value.scale) .invalidMinimumFee
  pure value

/-! ### The money of a price -/

/-- A decimal field of a price, with the limit it follows. -/
inductive PriceField
  | amount
  | rate
  | packagePrice
  | packageSize
  | upTo
  deriving DecidableEq, Repr

namespace PriceField

/-- Check a value against the field's limit. -/
def check : PriceField → Decimal → Except NumericError Decimal
  | .amount, value | .rate, value | .packagePrice, value => validateRate value
  | .packageSize, value => validatePositiveQuantity value
  | .upTo, value => validateThreshold value

/-- The refusal of a value, if any. -/
def refusal (field : PriceField) (value : Decimal) : Option RuleError :=
  match field.check value with
  | .ok _ => none
  | .error e => some ⟨e.code⟩

end PriceField

/-- One band of a tiered price. -/
structure Tier where
  upTo : Option Decimal
  rate : Decimal
  deriving DecidableEq, Repr

/-- The money of a price; the model is its entry's. -/
inductive PriceData
  | flat (amount : Decimal)
  | perUnit (rate : Decimal)
  | package (packageSize packagePrice : Decimal)
  | tiers (tiers : List Tier)
  deriving DecidableEq, Repr

/-- Equality of decimals is equality of values, whatever the scales. -/
def sameValue (a b : Decimal) : Bool := a.mantissa * 10 ^ b.scale == b.mantissa * 10 ^ a.scale

/-- Equality of optional decimals. -/
def sameOptional : Option Decimal → Option Decimal → Bool
  | none, none => true
  | some a, some b => sameValue a b
  | _, _ => false

/-- Equality of tier lists, band by band. -/
def sameTiers : List Tier → List Tier → Bool
  | [], [] => true
  | a :: as, b :: bs => sameOptional a.upTo b.upTo && sameValue a.rate b.rate && sameTiers as bs
  | _, _ => false

/-- Equality of price bodies. -/
def PriceData.same : PriceData → PriceData → Bool
  | .flat a, .flat b => sameValue a b
  | .perUnit a, .perUnit b => sameValue a b
  | .package s p, .package s' p' => sameValue s s' && sameValue p p'
  | .tiers as, .tiers bs => sameTiers as bs
  | _, _ => false

/-- Whether a body has its model's shape. -/
def shapeMatches : Model → PriceData → Bool
  | .flat, .flat _ => true
  | .perUnit, .perUnit _ => true
  | .package, .package _ _ => true
  | .graduated, .tiers _ | .volume, .tiers _ => true
  | _, _ => false

/-- The bands after `previous`, the last of which must be open. -/
def validateBands (previous : Decimal) : List Tier → List RuleError
  | [] => []
  | [tier] =>
    (PriceField.rate.refusal tier.rate).toList ++
      (tier.upTo.bind PriceField.upTo.refusal).toList ++
      if tier.upTo.isSome then [⟨"TIER_TOP_CLOSED"⟩] else []
  | tier :: rest =>
    (PriceField.rate.refusal tier.rate).toList ++
      (tier.upTo.bind PriceField.upTo.refusal).toList ++
      match tier.upTo.filter fun top => decide (previous < top) with
      | some top => validateBands top rest
      | none => ⟨"TIER_BANDS_ORDER"⟩ :: validateBands previous rest

/-- Rates, thresholds and ascending bounds with one open top band. -/
def validateTiers (tiers : List Tier) : List RuleError :=
  if tiers.isEmpty then [⟨"TIER_BAND_EMPTY"⟩] else validateBands Decimal.zero tiers

/-- The refusals of a price body in its model. -/
def validateMoney (model : Model) (data : PriceData) : List RuleError :=
  if !shapeMatches model data then [⟨"PRICE_MISSING"⟩] else
    match data with
    | .flat amount => (PriceField.amount.refusal amount).toList
    | .perUnit rate => (PriceField.rate.refusal rate).toList
    | .package size price =>
      ((PriceField.packageSize.refusal size).or (PriceField.packagePrice.refusal price)).toList
    | .tiers tiers => validateTiers tiers

/-! ### Prices -/

instance lawfulBEqDimension : LawfulBEq (Option String) := inferInstance

/-- One version of a price. -/
structure Price where
  id : Uuid
  priceBookEntryId : Uuid
  versionNo : ℤ
  /-- The dimension value it is for; the default chain has none. -/
  dimValue : Option String
  model : Model
  currency : CurrencySpec
  price : Option PriceData
  minFee : Option Decimal
  eligibility : Eligibility
  effectiveFrom : Date
  /-- The first day it is no longer in force. -/
  effectiveTo : Option Date
  /-- The end a temporary price was written with. -/
  temporaryUntil : Option Date
  pairedPriceId : Option Uuid
  returnOfPriceId : Option Uuid
  closedExplicitly : Bool
  state : PriceState
  deriving DecidableEq, Repr

namespace Price

/-- Two prices of one entry and one dimension value. -/
def SameChain (p q : Price) : Prop :=
  p.priceBookEntryId = q.priceBookEntryId ∧ p.dimValue = q.dimValue

instance (p q : Price) : Decidable (p.SameChain q) :=
  inferInstanceAs (Decidable (_ ∧ _))

/-- An approved price stands in the chain of its entry and dimension value. -/
def Approved (p : Price) : Prop := p.state = .approved

instance (p : Price) : Decidable p.Approved := inferInstanceAs (Decidable (_ = _))

/-- The refusals of the dimension value against the values the entry's key declares. -/
def dimensionErrors (p : Price) (values : Option (List String)) : List RuleError :=
  match p.dimValue, values with
  | none, _ => []
  | some _, none => [⟨"DIM_NOT_DECLARED"⟩]
  | some value, some allowed => if value ∈ allowed then [] else [⟨"DIM_VALUE_UNKNOWN"⟩]

/-- Another approved price of the chain already takes the start. -/
def StartTaken (p : Price) (siblings : List Price) : Prop :=
  ∃ other ∈ siblings, other.id ≠ p.id ∧ other.SameChain p ∧ other.Approved ∧
    other.effectiveFrom = p.effectiveFrom

instance (p : Price) (siblings : List Price) : Decidable (p.StartTaken siblings) :=
  inferInstanceAs (Decidable (∃ _ ∈ _, _))

/-- All refusals of the authoring rules, in the order they are judged. -/
def validate (p : Price) (kind : ChargeKind) (values : Option (List String))
    (siblings : List Price) (today : Date) : List RuleError :=
  (if modelAllowed kind p.model then [] else [⟨"MODEL_KIND_CHARGEKIND_MISMATCH"⟩]) ++
  (match p.price with
    | some data => validateMoney p.model data
    | none => [⟨"PRICE_MISSING"⟩]) ++
  (if p.state ≠ .approved ∧ p.effectiveFrom < today then [⟨"WINDOW_START_IN_PAST"⟩] else []) ++
  (if p.StartTaken siblings then [⟨"WINDOW_OVERLAP"⟩] else []) ++
  p.dimensionErrors values ++
  (match p.minFee with
    | some fee =>
      match validateMinimumFee fee p.currency with
      | .ok _ => []
      | .error _ => [⟨"MIN_FEE_INVALID"⟩]
    | none => [])

theorem not_startTaken_of_validate {p : Price} {kind : ChargeKind} {values : Option (List String)}
    {siblings : List Price} {today : Date}
    (h : p.validate kind values siblings today = []) : ¬ p.StartTaken siblings := by
  intro htaken
  simp [validate, htaken] at h

end Price

end Gears.Pricing
