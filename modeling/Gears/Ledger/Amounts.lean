import Gears.Ledger.Posting

/-!
# Ledger amounts and their errors

The ledger's boundary of exact money: the mapping of money errors onto the domain's error
vocabulary, and the few operations that the payment flows share.

* `DomainError` : the domain errors with their details.
* `matchingSpec`, `subtractPosted`, `zeroPosted` : comparisons and differences of postings.
* `DomainError.ofViolation` : how a breach of the posting rules is reported.
-/

namespace Gears.Ledger

open Money

variable {l r : PostedMoney}

/-- The errors of the modelled flows, each with its detail. -/
inductive DomainError
  | invalidPostingIncrement (detail : String)
  | unbalanced (detail : String)
  | empty (detail : String)
  | mixedPayer (detail : String)
  | inconsistentScale (detail : String)
  | amountOutOfRange (detail : String)
  | invalidRequest (detail : String)
  | scaleOutOfRange (detail : String)
  | currencyMismatch (detail : String)
  | scheduleTooLong (detail : String)
  | entryTooLarge (detail : String)
  | accountClosed (detail : String)
  | negativeBalance (detail : String)
  | concurrentModification (detail : String)
  | moneyOutCapExceeded (detail : String)
  | invalidDisputeTransition (detail : String)
  | chargebackExceedsSettled (detail : String)
  | chargebackOnRefunded (detail : String)
  | refundOriginNotFound (detail : String)
  | refundDisputeHeld (token : String)
  | refundExceedsSettled (detail : String)
  | refundExceedsAllocated (detail : String)
  | refundClawbackDeferred (token : String)
  | dualControlRequired (detail : String)
  | fxOperationUnsupported (detail : String)
  | idempotencyConflict (detail : String)
  | internal (detail : String)
  deriving DecidableEq, Repr

/-- The text of a money error. -/
def moneyErrorText : MoneyError → String
  | .invalidDecimal => "invalid decimal"
  | .invalidCurrency => "invalid currency"
  | .scaleOutOfRange => "currency scale out of range"
  | .amountOutOfRange => "amount out of range"
  | .invalidPostingIncrement => "invalid posting increment"
  | .currencyMismatch => "currency mismatch"
  | .scaleMismatch => "currency scale mismatch"

/-- The one table from money errors to domain errors. -/
def moneyErrorWithDetail (error : MoneyError) (detail : String) : DomainError :=
  match error with
  | .invalidDecimal => .invalidRequest detail
  | .invalidCurrency => .invalidRequest detail
  | .scaleOutOfRange => .scaleOutOfRange detail
  | .amountOutOfRange => .amountOutOfRange detail
  | .invalidPostingIncrement => .invalidPostingIncrement detail
  | .currencyMismatch => .currencyMismatch detail
  | .scaleMismatch => .inconsistentScale detail

/-- A money error with its own text as the detail. -/
def mapMoneyError (error : MoneyError) : DomainError :=
  moneyErrorWithDetail error (moneyErrorText error)

/-- Numeric failures keep their names; structural ones are invariant failures. -/
def mapExactError : ExactError → DomainError
  | .money error => mapMoneyError error
  | .arithmeticLimit => .amountOutOfRange "exact arithmetic limit exceeded"
  | .tooManyTerms => .scheduleTooLong "too many terms"
  | .divisionByZero => .internal "division by zero"
  | .emptyWeights => .internal "allocation weights must be non-empty"
  | .negativeWeight => .internal "allocation weights must be non-negative"

/-- How a breach of the posting rules is reported. -/
def DomainError.ofViolation : PostingViolation → DomainError
  | .empty => .empty "entry has no lines"
  | .mixedPayer => .mixedPayer "entry spans more than one payer tenant"
  | .inconsistentScale => .inconsistentScale "lines in the same currency carry different scales"
  | .unbalanced => .unbalanced "entry does not net to zero per currency"
  | .currencyMismatch => .currencyMismatch "line currency does not match the entry currency"
  | .amountOutOfRange =>
    .amountOutOfRange "line amount must be positive, or zero with a functional amount"
  -- a breach of the functional column is an imbalance as well
  | .functionalPartial => .unbalanced "entry mixes functional and non-functional lines"
  | .functionalUnbalanced =>
    .unbalanced "entry does not net to zero in the functional currency"

/-- Check both dimensions of two currencies. -/
def matchingCurrency (left right : CurrencySpec) : Except DomainError Unit :=
  (left.ensureSame right).mapError mapMoneyError

/-- Check both dimensions of the currencies of two postings, zero included. -/
def matchingSpec (left right : PostedMoney) : Except DomainError Unit :=
  matchingCurrency left.currency right.currency

@[simp] theorem matchingSpec_eq_ok_iff {u : Unit} :
    matchingSpec l r = .ok u ↔ l.currency = r.currency := by
  simp [matchingSpec, matchingCurrency]

/-- The exact difference of two postings of a currency. -/
def subtractPosted (left right : PostedMoney) : Except DomainError PostedMoney := do
  matchingSpec left right
  (subtract left right).mapError mapExactError

/-- Zero in the currency of a posting. -/
def zeroPosted (basis : PostedMoney) : Except DomainError PostedMoney :=
  (PostedMoney.tryNew .zero basis.currency).mapError mapMoneyError

/-- Canonical text and code, for messages. -/
def moneyText (m : PostedMoney) : String := canonicalDecimal m.amount ++ " " ++ m.currency.code

/-- The debug form of a posting. -/
def moneyDebug (m : PostedMoney) : String :=
  "PostedMoney \x7b amount: " ++ String.ofList m.amount.toText ++
    ", currency: CurrencySpec \x7b code: \"" ++ m.currency.code ++ "\", scale: " ++
    toString m.currency.scale ++ " \x7d \x7d"

theorem zeroPosted_eq (m : PostedMoney) : zeroPosted m = .ok (.zero m.currency) := by
  rw [zeroPosted, Except.mapError_eq_ok_iff, PostedMoney.tryNew_eq_ok_iff]
  exact ⟨rfl, rfl⟩

theorem subtractPosted_eq (hc : l.currency = r.currency) : subtractPosted l r =
      (ExactAmount.posted (l.units - r.units) l.currency).mapError mapExactError := by
  rw [subtractPosted, matchingSpec_eq_ok_iff (u := ()).2 hc, Except.ok_bind, subtract_eq hc]

theorem subtractPosted_eq_ok_iff {m : PostedMoney} :
    subtractPosted l r = .ok m ↔ l.currency = r.currency ∧ m.currency = l.currency ∧
      m.units = l.units - r.units := by
  by_cases hc : l.currency = r.currency
  · rw [subtractPosted_eq hc, Except.mapError_eq_ok_iff, ExactAmount.posted_eq_ok_iff_units,
      and_iff_right hc]
  · simp [subtractPosted, hc]

end Gears.Ledger
