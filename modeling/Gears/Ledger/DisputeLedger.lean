import Gears.Ledger.Chargeback
import Gears.Ledger.RealizedFx
import Gears.Lib.Machine

/-!
# Disputes over whole histories

A chargeback request reads the dispute row and the settlement outside its transaction, sizes and
builds its entry from what it read, and then posts: the transaction checks the current row again,
projects the entry, writes the row and the claw-back counter.  Other postings and other changes of
the settlements happen in between.

* `planPhase` : the part of a request before its transaction.
* `commitPhase` : the transaction.
* `DisputeLedger.step` : a request, or something another flow does.
-/

namespace Gears.Ledger

open Money
open Except hiding error

/-! ### Before the transaction -/

/-- A dispute phase to record. -/
structure ChargebackRequest where
  tenantId : Uuid
  payerTenantId : Uuid
  paymentId : String
  disputeId : String
  invoiceId : Option String
  cycle : ℤ
  phase : DisputePhase
  fundsAtOpen : FundsAtOpen
  disputedAmount : PostedMoney
  effectiveAt : Option Instant
  deriving DecidableEq, Repr

/-- The builder's input for a request. -/
def ChargebackRequest.input (req : ChargebackRequest) (variant : DisputeVariant) :
    ChargebackInput := { req with variant }

/-- What a request reads outside its transaction, and what it is stamped with.  The dispute row is
read `disputeAge` writes before the transaction; the settlement and the carried balance are
whatever was there when they were read. -/
structure PhaseReads where
  disputeAge : ℕ
  netSettlement : Option SettlementState
  refundSettlement : Option SettlementState
  carried : Option (PostedMoney × Option PostedMoney)
  fresh : ℕ → Uuid
  stamp : HeaderStamp
  now : Instant
  createdSeq : ℤ

/-- Check the phase against the row that was read. -/
def guardTransition (existing : Option DisputeState) (req : ChargebackRequest) :
    Except DomainError Unit :=
  (checkTransition req.disputeId (existing.map DisputeState.observed) req.paymentId req.phase
    req.cycle).mapError fun e => .invalidDisputeTransition e.text

/-- The variant: chosen at the opening, and read back from the row for an outcome. -/
def phaseVariant (existing : Option DisputeState) (req : ChargebackRequest) :
    Except DomainError DisputeVariant :=
  match req.phase with
  | .opened => do
    guardTransition existing req
    return req.fundsAtOpen.variant
  | .won | .lost => do
    guardTransition existing req
    match existing with
    | some row => return row.variant
    | none => .error (.invalidDisputeTransition ("dispute " ++ req.disputeId ++
        " has no opened cycle to resolve"))
  | .partialOutcome => .error (.invalidDisputeTransition ("dispute phase " ++ req.phase.asStr ++
      " is behind a flag (split chargeback) and not implemented"))

/-- The dispute must be in the currency and scale of the settlement. -/
def settledSpecCheck (input : ChargebackInput) (settled : PostedMoney) :
    Except DomainError Unit := do
  let request := input.disputedAmount.currency
  let origin := settled.currency
  rejectIf (request.code ≠ origin.code)
    (.currencyMismatch ("chargeback currency " ++ request.code ++ " != settled currency " ++
      origin.code ++ " for payment " ++ input.paymentId))
  rejectIf (request.scale ≠ origin.scale)
    (.inconsistentScale ("chargeback currency scale " ++ toString request.scale ++
      " != settled scale " ++ toString origin.scale ++ " for payment " ++ input.paymentId))

variable (settlement : Option SettlementState)

/-- The net cash of the payment: the settled amount less the fee. -/
def readNet (input : ChargebackInput) : Except DomainError PostedMoney :=
  match settlement with
  | none => .error (.internal ("CASH_HOLD chargeback on payment " ++ input.paymentId ++
      " has no settlement row (cannot size the net cash leg)"))
  | some settlement => do
    settledSpecCheck input settlement.settled
    subtractPosted settlement.settled settlement.fee

/-- The cash to size the legs with: the current net at a cash-hold opening, the stored hold at its
outcome, and zero for a receivable. -/
def suppliedCash (existing : Option DisputeState) (settlement : Option SettlementState)
    (input : ChargebackInput) : Except DomainError PostedMoney :=
  match input.variant, input.phase with
  | .cashHold, .opened => readNet settlement input
  | .cashHold, .won | .cashHold, .lost =>
    match existing with
    | some row => .ok row.cashHold
    | none => zeroPosted input.disputedAmount
  | .arReclass, _ | _, .partialOutcome => zeroPosted input.disputedAmount

/-- The smaller of two postings of a currency. -/
def minPosted (a b : PostedMoney) : Except DomainError PostedMoney := do
  matchingSpec a b
  return if b.amount < a.amount then b else a

/-- Whether a claw-back fits under what was settled. -/
def clawbackFits (settlement : SettlementState) (clawedBack : PostedMoney) :
    Except DomainError Bool := do
  matchingSpec settlement.settled clawedBack
  matchingSpec settlement.settled settlement.refunded
  matchingSpec settlement.settled settlement.clawedBack
  let out ← ((ExactAmount.fromDecimal settlement.refunded.amount).checkedAdd
    (.fromDecimal settlement.clawedBack.amount)).mapError mapExactError
  let total ← (out.checkedAdd (.fromDecimal clawedBack.amount)).mapError mapExactError
  return !decide (ExactAmount.fromDecimal settlement.settled.amount < total)

/-- A claw-back that does not fit because the payment was refunded is reported as such. -/
def guardNotOnRefunded (input : ChargebackInput)
    (clawedBack : PostedMoney) : Except DomainError Unit :=
  match settlement with
  | none => .ok ()
  | some settlement => do
    let fits ← clawbackFits settlement clawedBack
    rejectIf (fits = false ∧ Decimal.zero < settlement.refunded.amount)
      (.chargebackOnRefunded ("dispute " ++ input.disputeId ++ " lost on payment " ++
        input.paymentId ++ ": clawback " ++ String.ofList clawedBack.amount.toText ++
        " cannot fit under the money-out cap (refunded=" ++
        String.ofList settlement.refunded.amount.toText ++ ", clawed=" ++
        String.ofList settlement.clawedBack.amount.toText ++ ", settled=" ++
        String.ofList settlement.settled.amount.toText ++ ")"))

/-- The text of a relief that cannot be computed. -/
def realizedFxErrorText : RealizedFxError → String
  | .nonPositiveCarriedTransaction => "closing leg carried transaction balance must be > 0"
  | .relievedOutOfRange => "closing leg relieved amount must be > 0 and <= carried transaction"
  | .negativeCarriedFunctional => "closing leg carried functional balance must be >= 0"
  | .exact error => exactErrorText error

/-- Stamp the functional value that the closing grain carries.  A chargeback locks no rate: without
a functional balance, or when it relieves more than the grain holds, nothing is stamped. -/
def applyFxCarryForward (carried : Option (PostedMoney × Option PostedMoney)) (entry : PostEntry) :
    Except DomainError PostEntry :=
  match carried, entry.lines with
  | some (balance, some functional), relieved :: _ => do
    matchingSpec balance relieved.money
    if balance.amount ≤ Decimal.zero ∨ balance.amount < relieved.money.amount then return entry
    else
      let lines ← entry.lines.mapM fun line => do
        let f ← (carriedRelief functional balance line.money).mapError fun e =>
          .internal ("chargeback FX carry-forward: " ++ realizedFxErrorText e)
        return { line with functionalMoney := some f }
      return { entry with lines }
  | _, _ => .ok entry

/-- What a request brings to its transaction. -/
structure PhasePlan where
  input : ChargebackInput
  entry : PostEntry
  cashHold : PostedMoney
  clawedBack : PostedMoney
  deriving DecidableEq, Repr

/-- The part of a request before its transaction. -/
def planPhase (accounts : Accounts) (existing : Option DisputeState) (req : ChargebackRequest)
    (reads : PhaseReads) : Except DomainError PhasePlan := do
  let variant ← phaseVariant existing req
  let input := req.input variant
  let net ← suppliedCash existing reads.netSettlement input
  let cashHold ← minPosted net input.disputedAmount
  let clawedBack ← clawedBackOnPost input net
  onlyIf (Decimal.zero < clawedBack.amount)
    (guardNotOnRefunded reads.refundSettlement input clawedBack)
  let built ← buildChargebackEntry reads.fresh input net
  let bound ← bindLines accounts (overwriteHeader reads.stamp built)
  let entry ← applyFxCarryForward reads.carried bound
  return ⟨input, entry, cashHold, clawedBack⟩

/-! ### The transaction -/

/-- An outcome is checked against the current row before anything is projected. -/
def checkBeforeProjection (row : Option DisputeState) (input : ChargebackInput) :
    Except DomainError Unit :=
  match input.phase with
  | .won | .lost => (checkOutcome input.disputeId (row.map DisputeState.observed) input.phase
      input.cycle).mapError fun e => .invalidDisputeTransition e.text
  | _ => .ok ()

/-- How the sidecar reports a repository error. -/
def mapRepoErr : RepoError → DomainError
  | .moneyOutCapExceeded detail => .moneyOutCapExceeded detail
  | other => mapAdjustmentRepoErr "payment sidecar" other

/-- How the sidecar reports a repository error of the claw-back counter. -/
def mapClawbackRepoErr : RepoError → DomainError
  | .moneyOutCapExceeded detail => .chargebackExceedsSettled detail
  | other => mapAdjustmentRepoErr "chargeback sidecar" other

/-- The row that the phase writes. -/
def writeDispute (row : Option DisputeState) (plan : PhasePlan) : Except DomainError DisputeState :=
  let input := plan.input
  match input.phase with
  | .won | .lost => (disputeAdvance row input.disputeId input.phase input.cycle
      input.disputedAmount).mapError mapRepoErr
  | _ => (disputeUpsert row input.tenantId input.disputeId input.paymentId input.variant
      input.cycle input.disputedAmount plan.cashHold).mapError mapRepoErr

/-- An outcome adds what it claws back to the settlement's counter. -/
def writeClawback (plan : PhasePlan) : Except DomainError (Option SettlementState) :=
  let input := plan.input
  match input.phase with
  | .won | .lost =>
    if Decimal.zero < plan.clawedBack.amount then
      (addClawedBack settlement input.tenantId input.paymentId plan.clawedBack).mapError
        mapClawbackRepoErr
    else .ok settlement
  | _ => .ok settlement

/-- Every version of every dispute's row, newest first; the settlements; the caches; and the phases
that were posted, oldest first. -/
structure DisputeLedger where
  disputes : Uuid × String → List DisputeState
  settlements : Uuid × String → Option SettlementState
  caches : Caches
  phases : List PhasePlan

namespace DisputeLedger

/-- A ledger without disputes. -/
def start (settlements : Uuid × String → Option SettlementState) (caches : Caches) :
    DisputeLedger :=
  ⟨fun _ => [], settlements, caches, []⟩

/-- The current row of a dispute. -/
def row (L : DisputeLedger) (dispute : Uuid × String) : Option DisputeState :=
  (L.disputes dispute).head?

end DisputeLedger

/-- The dispute that a plan belongs to. -/
def PhasePlan.dispute (plan : PhasePlan) : Uuid × String :=
  (plan.input.tenantId, plan.input.disputeId)

/-- The transaction of a request: check, project, write the row and the counter. -/
def commitPhase (accounts : Accounts) (L : DisputeLedger) (plan : PhasePlan)
    (reads : PhaseReads) : Except DomainError DisputeLedger := do
  let payment := (plan.input.tenantId, plan.input.paymentId)
  checkBeforeProjection (L.row plan.dispute) plan.input
  let caches ← postEntry accounts reads.now reads.createdSeq L.caches plan.entry
  let next ← writeDispute (L.row plan.dispute) plan
  let settlement ← writeClawback (L.settlements payment) plan
  return {
    disputes := Function.update L.disputes plan.dispute (next :: L.disputes plan.dispute)
    settlements := Function.update L.settlements payment settlement
    caches := caches
    phases := L.phases ++ [plan] }

/-- Record a phase, from the row as it was some writes ago. -/
def recordPhase (accounts : Accounts) (L : DisputeLedger) (req : ChargebackRequest)
    (reads : PhaseReads) : Except DomainError DisputeLedger := do
  let existing := ((L.disputes (req.tenantId, req.disputeId)).drop reads.disputeAge).head?
  let plan ← planPhase accounts existing req reads
  commitPhase accounts L plan reads

/-- Something that happens to the ledger: a chargeback request, a posting of another flow, or
another change of a settlement. -/
inductive LedgerEvent
  | phase (req : ChargebackRequest) (reads : PhaseReads)
  | posting (P : Posting)
  | settlement (payment : Uuid × String) (state : Option SettlementState)

/-- One event. -/
def DisputeLedger.step (accounts : Accounts) (L : DisputeLedger) :
    LedgerEvent → Except DomainError DisputeLedger
  | .phase req reads => recordPhase accounts L req reads
  | .posting P => do
    let caches ← (projectPosting L.caches P).mapError .ofProject
    return { L with caches }
  | .settlement payment state =>
    .ok { L with settlements := Function.update L.settlements payment state }

/-! ### Contributions -/

/-- The amount of a line, debits positive. -/
def NewLine.debitValue (l : NewLine) : ℚ :=
  match l.side with
  | .debit => l.money.value
  | .credit => -l.money.value

/-- What a line moves into the disputed part of a row. -/
def NewLine.disputedAt (l : NewLine) (tenant : Uuid) (k : BusinessKey) : ℚ :=
  if Covers tenant l k ∧ l.arStatus = some arStatusDisputed then l.debitValue else 0

/-- What a line moves into the hold. -/
def NewLine.hold (l : NewLine) : ℚ := if l.accountClass = .disputeHold then l.debitValue else 0

namespace PhasePlan

/-- What the phase moved into the hold. -/
def hold (plan : PhasePlan) : ℚ := (plan.entry.lines.map NewLine.hold).sum

/-- What the phase moved into the disputed part of a row. -/
def disputedAt (plan : PhasePlan) (k : BusinessKey) : ℚ :=
  (plan.entry.lines.map fun l => l.disputedAt plan.entry.tenantId k).sum

end PhasePlan

namespace DisputeLedger

variable (L : DisputeLedger) (dispute : Uuid × String)

/-- The posted phases of a dispute, oldest first. -/
def phasesOf : List PhasePlan := L.phases.filter fun plan => plan.dispute = dispute

/-- The contribution of a dispute to the hold. -/
def holdOf : ℚ := ((L.phasesOf dispute).map PhasePlan.hold).sum

/-- The contribution of a dispute to the disputed part of a row. -/
def disputedOf (k : BusinessKey) : ℚ :=
  ((L.phasesOf dispute).map fun plan => plan.disputedAt k).sum

/-- The last opening of a dispute. -/
def opening : Option PhasePlan :=
  ((L.phasesOf dispute).filter fun plan => plan.input.phase = .opened).getLast?

end DisputeLedger

end Gears.Ledger
