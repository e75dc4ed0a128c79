import Gears.Ledger.Counters
import Gears.Lib.Text

/-!
# Refund legs

A refund goes through phases.  A two-stage refund opens the refund clearing when it is initiated
and drains it when it is confirmed; a single-step refund moves the cash at once.  A claw-back posts
the same two accounts with the sides swapped.  A rejected or voided refund posts the legs of the
first stage with every side flipped, and a refund whose outcome stays unknown is parked on the
suspense account.

* `validateShape` : the checks that need no stored data.
* `buildRefundLegs` : the legs of the forward phases.
* `invertPlan`, `unknownFinalParkPlan` : the legs of the other phases.
* `RefundLegPlan.clearing`, `buildRefundLegs_spec` : what a plan moves into the refund clearing.
-/

namespace Gears.Ledger

open Money Except

/-! ### Requests -/

/-- The phases of a refund. -/
inductive RefundPhase
  | initiated
  | confirmed
  | rejected
  | voided
  | unknownFinal
  deriving DecidableEq, Repr

/-- The stored token of a phase. -/
def RefundPhase.asStr : RefundPhase → String
  | .initiated => "initiated"
  | .confirmed => "confirmed"
  | .rejected => "rejected"
  | .voided => "voided"
  | .unknownFinal => "unknown_final"

/-- Where the refunded money was: on account, or allocated to an invoice. -/
inductive RefundPattern
  | aUnallocated
  | bRestoreAr
  deriving DecidableEq, Repr

/-- The class that the first stage draws down. -/
def RefundPattern.debitClass : RefundPattern → AccountClass
  | .aUnallocated => .unallocated
  | .bRestoreAr => .ar

/-- Whether the cash leaves, or a prior refund comes back. -/
inductive RefundDirection
  | outbound
  | clawback
  deriving DecidableEq, Repr

/-- One phase of a refund to post. -/
structure RefundRequest where
  tenantId : Uuid
  payerTenantId : Uuid
  refundId : String
  pspRefundId : String
  phase : RefundPhase
  pattern : RefundPattern
  paymentId : String
  invoiceId : Option String
  amount : PostedMoney
  twoStage : Bool
  relatesToRefundId : Option String
  direction : RefundDirection
  deriving DecidableEq, Repr

variable (req : RefundRequest)

/-- A claw-back is linked to the refund that it takes back. -/
def RefundRequest.isClawback : Bool :=
  req.direction = .clawback && req.relatesToRefundId.isSome

/-- The checks of a request that need no stored data. -/
def validateShape : Except DomainError Unit := do
  rejectIf (req.amount.amount < Decimal.zero)
    (.amountOutOfRange ("refund amount must be >= 0, got " ++
      String.ofList req.amount.amount.toText))
  rejectIf (req.direction = .clawback ∧ isBlank req.relatesToRefundId)
    (.invalidRequest ("a claw-back refund-of-refund (direction = CLAWBACK) requires a non-empty " ++
      "relates_to_refund_id (the prior refund it claws back)"))
  match req.pattern with
  | .bRestoreAr => rejectIf (isBlank req.invoiceId) (.invalidRequest
      "Pattern B (B_RESTORE_AR) refund requires a non-empty invoice_id (the AR it restores)")
  | .aUnallocated => rejectIf req.invoiceId.isSome (.invalidRequest
      ("Pattern A (A_UNALLOCATED) refund must not carry an invoice_id (its money never reached " ++
        "an invoice)"))
  rejectIf (req.twoStage = false ∧ req.phase = .confirmed)
    (.invalidRequest ("single-step refund (two_stage = false) has no confirmed stage — its " ++
      "initiated entry already moved the cash"))

/-! ### Plans -/

/-- The state of the clearing, as a refund row records it. -/
inductive ClearingState
  | pending
  | settled
  | reversed
  deriving DecidableEq, Repr

/-- The stored token of a clearing state. -/
def ClearingState.asStr : ClearingState → String
  | .pending => "PENDING"
  | .settled => "SETTLED"
  | .reversed => "REVERSED"

/-- A leg before it is bound to an account. -/
structure PlannedLeg where
  accountClass : AccountClass
  side : Side
  amount : PostedMoney
  revenueStream : Option String
  deriving DecidableEq, Repr

/-- The legs of a phase, and the clearing state that its row records. -/
structure RefundLegPlan where
  legs : List PlannedLeg
  clearingState : ClearingState
  deriving DecidableEq, Repr

/-- The classes that an outbound phase debits and credits, and its clearing state. -/
def routeOutbound : Except DomainError (AccountClass × AccountClass × ClearingState) :=
  match req.phase, req.twoStage with
  | .initiated, true => .ok (req.pattern.debitClass, .refundClearing, .pending)
  | .confirmed, true => .ok (.refundClearing, .cashClearing, .settled)
  | .initiated, false => .ok (req.pattern.debitClass, .cashClearing, .settled)
  | .confirmed, false => .error (.invalidRequest "single-step refund has no confirmed stage")
  | .rejected, _ | .voided, _ | .unknownFinal, _ => .error (.invalidRequest ("refund phase " ++
      req.phase.asStr ++ " has no two-stage posting shape in this group (reversal/disposition " ++
      "are handled elsewhere)"))

/-- A debit and a credit of an amount. -/
def legPair (debit credit : AccountClass) (amount : PostedMoney) : List PlannedLeg :=
  [⟨debit, .debit, amount, none⟩, ⟨credit, .credit, amount, none⟩]

/-- The legs of a forward phase; a claw-back swaps the two accounts. -/
def buildRefundLegs : Except DomainError RefundLegPlan := do
  validateShape req
  let (outDebit, outCredit, clearingState) ← routeOutbound req
  let (debit, credit) := match req.direction with
    | .outbound => (outDebit, outCredit)
    | .clawback => (outCredit, outDebit)
  return ⟨if Decimal.zero < req.amount.amount then legPair debit credit req.amount else [],
    clearingState⟩

/-- The same legs with every side flipped. -/
def invertPlan (plan : RefundLegPlan) : RefundLegPlan :=
  ⟨plan.legs.map fun leg => { leg with side := leg.side.flip }, .reversed⟩

/-- Where an unknown outcome is parked. -/
def unknownFinalParkClass : AccountClass := .suspense

/-- Drain the open clearing against the suspense account. -/
def unknownFinalParkPlan (open_ : PostedMoney) : RefundLegPlan :=
  ⟨legPair .refundClearing unknownFinalParkClass open_, .settled⟩

/-! ### What a plan moves -/

/-- What a leg moves into the refund clearing of a currency, credits positive. -/
def PlannedLeg.clearing (leg : PlannedLeg) (currency : String) : ℚ :=
  if leg.accountClass = .refundClearing ∧ leg.amount.currency.code = currency then
    match leg.side with
    | .credit => leg.amount.value
    | .debit => -leg.amount.value
  else 0

/-- What a plan moves into the refund clearing of a currency. -/
def RefundLegPlan.clearing (plan : RefundLegPlan) (currency : String) : ℚ :=
  (plan.legs.map (·.clearing currency)).sum

/-- An amount in its own currency, and nothing in any other. -/
def inCurrency (amount : PostedMoney) (currency : String) : ℚ :=
  if amount.currency.code = currency then amount.value else 0

/-- The amount of a request with the sign of its direction: a claw-back is negative. -/
def RefundRequest.signed (currency : String) : ℚ :=
  match req.direction with
  | .outbound => inCurrency req.amount currency
  | .clawback => -inCurrency req.amount currency

theorem RefundPattern.debitClass_ne (p : RefundPattern) : p.debitClass ≠ .refundClearing := by
  cases p <;> decide

theorem clearing_legPair (debit credit : AccountClass) (amount : PostedMoney) (currency : String) :
    ((legPair debit credit amount).map (·.clearing currency)).sum =
      (if credit = .refundClearing then inCurrency amount currency else 0) -
        if debit = .refundClearing then inCurrency amount currency else 0 := by
  by_cases hd : debit = .refundClearing <;> by_cases hc : credit = .refundClearing <;>
    by_cases hcur : amount.currency.code = currency <;>
    simp [legPair, PlannedLeg.clearing, inCurrency, hd, hc, hcur]

theorem clearing_invertPlan (plan : RefundLegPlan) (currency : String) :
    (invertPlan plan).clearing currency = -plan.clearing currency := by
  have hleg : ∀ leg : PlannedLeg,
      PlannedLeg.clearing { leg with side := leg.side.flip } currency = -leg.clearing currency := by
    intro leg
    unfold PlannedLeg.clearing
    cases leg.side <;> simp only [Side.flip] <;> split <;> simp
  obtain ⟨legs, state⟩ := plan
  show ((legs.map _).map _).sum = -(legs.map _).sum
  induction legs with
  | nil => simp
  | cons leg legs ih =>
    simp only [List.map_cons, List.sum_cons, ih, hleg, neg_add]

theorem clearing_unknownFinalParkPlan (amount : PostedMoney) (currency : String) :
    (unknownFinalParkPlan amount).clearing currency = -inCurrency amount currency := by
  rw [unknownFinalParkPlan, RefundLegPlan.clearing, clearing_legPair]
  simp [unknownFinalParkClass]

theorem validateShape_clawback {req : RefundRequest} (h : validateShape req = .ok ()) :
    req.isClawback = true ↔ req.direction = .clawback := by
  simp only [validateShape, ok_iffs, exists_const, not_and] at h
  obtain ⟨-, hlink, -⟩ := h
  constructor
  · intro hc
    rw [RefundRequest.isClawback, Bool.and_eq_true, decide_eq_true_iff] at hc
    exact hc.1
  · intro hd
    have hsome : req.relatesToRefundId.isSome = true := by
      by_contra hnone
      rw [Option.not_isSome_iff_eq_none] at hnone
      exact hlink hd (by rw [hnone]; rfl)
    simp [RefundRequest.isClawback, hd, hsome]

/-- **What a forward phase moves into the clearing**: the first stage of a two-stage refund moves
its signed amount in, the second stage moves it out, and a single step moves nothing. -/
theorem buildRefundLegs_spec {req : RefundRequest} {plan : RefundLegPlan}
    (h : buildRefundLegs req = .ok plan) (hpos : 0 < req.amount.value) : (req.phase = .initiated ∧
      plan.clearingState = (if req.twoStage then .pending else .settled) ∧
      ∀ currency, plan.clearing currency = if req.twoStage then req.signed currency else 0) ∨
    (req.phase = .confirmed ∧ req.twoStage = true ∧
      ∀ currency, plan.clearing currency = -req.signed currency) := by
  have hlegs : Decimal.zero < req.amount.amount := by
    rw [Decimal.lt_iff, Decimal.toRat_zero]
    exact hpos
  have hne := req.pattern.debitClass_ne
  simp only [buildRefundLegs, ok_iffs, hlegs] at h
  obtain ⟨-, -, ⟨debit, credit, state⟩, hroute, rfl⟩ := h
  -- only the forward phases are routed; a claw-back turns the sign
  cases hp : req.phase <;> cases ht : req.twoStage <;>
    simp only [routeOutbound, hp, ht] at hroute
  all_goals obtain ⟨rfl, rfl, rfl⟩ := hroute
  · cases hd : req.direction <;> simp [RefundLegPlan.clearing, clearing_legPair, hne]
  · cases hd : req.direction <;>
      simp [RefundLegPlan.clearing, clearing_legPair, hne, RefundRequest.signed, hd]
  · cases hd : req.direction <;>
      simp [RefundLegPlan.clearing, clearing_legPair, RefundRequest.signed, hd]

end Gears.Ledger
