import Gears.Ledger.Dispute

/-!
# Chargeback entries

The entry of a dispute phase.  A cash-hold dispute parks the disputed cash, capped at what the
payment holds, and releases or forfeits it; an AR-reclass dispute moves a receivable to its
disputed part, and moves it back or writes it off.

* `buildChargebackEntry` : the entry of a phase, given the cash to size it with.
* `clawedBackOnPost` : the cash that a lost phase claws back.
* `chargebackLines` : the legs of each phase and variant.
-/

namespace Gears.Ledger

open Money

/-- Whether the funds had moved when the dispute was opened. -/
inductive FundsAtOpen
  | withheld
  | notMoved
  deriving DecidableEq, Repr

/-- The variant that the funds select at the opening. -/
def FundsAtOpen.variant : FundsAtOpen → DisputeVariant
  | .withheld => .cashHold
  | .notMoved => .arReclass

/-- One phase to post. -/
structure ChargebackInput where
  tenantId : Uuid
  payerTenantId : Uuid
  paymentId : String
  disputeId : String
  cycle : ℤ
  phase : DisputePhase
  variant : DisputeVariant
  disputedAmount : PostedMoney
  invoiceId : Option String
  effectiveAt : Option Instant
  deriving DecidableEq, Repr

variable (input : ChargebackInput)

/-- The idempotency key of the phase. -/
def ChargebackInput.businessId : String :=
  input.disputeId ++ ":" ++ toString input.cycle ++ ":" ++ input.phase.asStr

/-- The smaller of the supplied cash and the disputed amount. -/
def heldCash (supplied : PostedMoney) : PostedMoney :=
  if supplied.amount < input.disputedAmount.amount then supplied else input.disputedAmount

/-- A cash or expense line. -/
def cashLine (lineId : Uuid) (accountClass : AccountClass) (side : Side)
    (amount : PostedMoney) : NewLine :=
  paymentLine input.tenantId input.payerTenantId lineId accountClass side amount

/-- A line on the disputed receivable, of the whole disputed amount. -/
def arLine (lineId : Uuid) (invoice : String) (side : Side) (status : String) : NewLine :=
  { cashLine input lineId .ar side input.disputedAmount with
    invoiceId := some invoice
    arStatus := some status }

/-- The disputed receivable, which every AR leg needs. -/
def requireInvoiceId : Except DomainError String :=
  match input.invoiceId with
  | some invoice => .ok invoice
  | none => .error (.invalidRequest
      "AR_RECLASS chargeback requires an invoice_id (the disputed receivable)")

variable (fresh : ℕ → Uuid)

section

variable (input : ChargebackInput)

/-- Move the disputed amount between the two parts of the receivable. -/
def arReclassLines (drStatus crStatus : String) : Except DomainError (List NewLine) := do
  let invoice ← requireInvoiceId input
  return [arLine input (fresh 1) invoice .debit drStatus,
    arLine input (fresh 2) invoice .credit crStatus]

/-- Move the held cash from one class to another. -/
def holdLines (debit credit : AccountClass) (held : PostedMoney) : List NewLine :=
  [cashLine input (fresh 1) debit .debit held, cashLine input (fresh 2) credit .credit held]

/-- The cash leaves the clearing for the hold. -/
def openedCashHoldLines (held : PostedMoney) : List NewLine :=
  holdLines fresh input .disputeHold .cashClearing held

/-- The hold returns to the clearing. -/
def wonCashHoldLines (held : PostedMoney) : List NewLine :=
  holdLines fresh input .cashClearing .disputeHold held

/-- The hold is forfeited as a loss. -/
def lostCashHoldLines (held : PostedMoney) : List NewLine :=
  holdLines fresh input .disputeLossExpense .disputeHold held

/-- The receivable becomes disputed. -/
def openedArReclassLines : Except DomainError (List NewLine) :=
  arReclassLines fresh input arStatusDisputed arStatusActive

/-- The receivable is active again. -/
def wonArReclassLines : Except DomainError (List NewLine) :=
  arReclassLines fresh input arStatusActive arStatusDisputed

/-- A lost receivable is written off: no cash moves. -/
def lostArReclassLines : Except DomainError (List NewLine) := do
  let invoice ← requireInvoiceId input
  return [cashLine input (fresh 1) .disputeLossExpense .debit input.disputedAmount,
    arLine input (fresh 2) invoice .credit arStatusDisputed]

/-- The legs of each phase and variant; a split outcome is not built. -/
def chargebackLines (held : PostedMoney) : Except DomainError (List NewLine) :=
  match input.phase, input.variant with
  | .opened, .cashHold => .ok (openedCashHoldLines fresh input held)
  | .opened, .arReclass => openedArReclassLines fresh input
  | .won, .cashHold => .ok (wonCashHoldLines fresh input held)
  | .won, .arReclass => wonArReclassLines fresh input
  | .lost, .cashHold => .ok (lostCashHoldLines fresh input held)
  | .lost, .arReclass => lostArReclassLines fresh input
  | .partialOutcome, _ => .error (.invalidDisputeTransition ("dispute phase " ++
      input.phase.asStr ++ " is behind a flag (split chargeback) and not implemented"))

/-- The entry of a phase.  The supplied cash is the net of the payment at the opening, and the
stored hold afterwards. -/
def buildChargebackEntry (supplied : PostedMoney) : Except DomainError PostEntry := do
  matchingSpec input.disputedAmount supplied
  Except.rejectIf (input.disputedAmount.amount ≤ Decimal.zero)
    (.invalidRequest ("chargeback disputed_amount must be > 0, got " ++
      moneyText input.disputedAmount))
  let cashHold := heldCash input supplied
  Except.rejectIf (input.variant = .cashHold ∧ cashHold.amount ≤ Decimal.zero)
    (.invalidRequest ("chargeback CASH_HOLD net cash must be > 0, got " ++ moneyDebug cashHold))
  let lines ← chargebackLines fresh input cashHold
  return paymentEntry (fresh 0) input.tenantId input.disputedAmount.currency .chargeback
    input.businessId input.effectiveAt lines

end

/-- The cash a phase claws back: the held cash of a lost cash-hold dispute, and zero otherwise. -/
def clawedBackOnPost (supplied : PostedMoney) : Except DomainError PostedMoney := do
  matchingSpec input.disputedAmount supplied
  match input.phase, input.variant with
  | .lost, .cashHold =>
    let held := heldCash input supplied
    Except.rejectIf (held.amount ≤ Decimal.zero)
      (.invalidRequest "chargeback CASH_HOLD held cash must be > 0")
    return held
  | _, _ => zeroPosted input.disputedAmount

end Gears.Ledger
