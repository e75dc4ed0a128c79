import Gears.Ledger.Refund
import Gears.Ledger.DisputeLedger

/-!
# Refunds over whole histories

Every phase of a refund is a request of its own.  It is checked against what is stored, routed by
its phase, assembled into an entry and posted; the transaction claims the phase, moves the caps of
the payment, writes the row of the phase and projects the entry.

* `RefundCap.apply` : the caps of a payment and of an invoice.
* `planRefund` : the part of a request before its transaction.
* `commitRefund` : the transaction.
* `RefundLedger.step` : a request, or something another flow does.
-/

namespace Gears.Ledger

open Money
open Except hiding error

/-! ### Caps -/

/-- How a phase moves the caps. -/
inductive CapMode
  | initiate
  | release
  | clawback
  | none
  deriving DecidableEq, Repr

/-- What a phase moves, and on which counters. -/
structure RefundCap where
  tenant : Uuid
  paymentId : String
  amount : PostedMoney
  invoiceId : Option String
  isUnallocatedPattern : Bool
  deriving DecidableEq, Repr

variable (req : RefundRequest)

/-- The caps of a request; only a refund of pattern B has the cap of an invoice. -/
def RefundCap.forRequest : RefundCap where
  tenant := req.tenantId
  paymentId := req.paymentId
  amount := req.amount
  invoiceId := match req.pattern with
    | .bRestoreAr => req.invoiceId
    | .aUnallocated => Option.none
  isUnallocatedPattern := req.pattern = .aUnallocated

/-- Why the caps did not move; a claw-back that does not fit is deferred. -/
inductive CapApplyError
  | repo (error : RepoError)
  | underflowDeferred
  deriving DecidableEq, Repr

/-- The delta of a decrement. -/
def negated (value : PostedMoney) : Except CapApplyError PostedMoney :=
  (PostedMoney.tryNew value.amount.neg value.currency).mapError fun e => .repo (.money e)

/-- Whether a counter is below an amount. -/
def below (current amount : PostedMoney) : Except CapApplyError Bool := do
  rejectIf (current.currency.code ≠ amount.currency.code) (.repo (.money .currencyMismatch))
  rejectIf (current.currency.scale ≠ amount.currency.scale) (.repo (.money .scaleMismatch))
  return decide (current.amount < amount.amount)

/-- A claw-back is deferred when it would drive a counter below zero. -/
def RefundCap.checkUnderflow (cap : RefundCap) (row : Option SettlementState)
    (allocation : Option AllocationRefundState) : Except CapApplyError Unit := do
  match row with
  | Option.none => .error (.repo (.db ("claw-back references payment " ++ cap.paymentId ++
      " with no settlement row")))
  | some settlement => do
    rejectIf ((← below settlement.refunded cap.amount) = true) .underflowDeferred
    onlyIf cap.isUnallocatedPattern do
      rejectIf ((← below settlement.refundedUnallocated cap.amount) = true)
        .underflowDeferred
    onlyIf cap.invoiceId.isSome
      (match allocation with
      | Option.none => .error .underflowDeferred
      | some state => do
        rejectIf ((← below state.refunded cap.amount) = true) .underflowDeferred)

/-- Add a signed amount to the counters of the pattern: the total first. -/
def RefundCap.move (cap : RefundCap) (row : Option SettlementState)
    (allocation : Option AllocationRefundState) (signed : PostedMoney) :
    Except RepoError (Option SettlementState × Option AllocationRefundState) := do
  let row ← addRefunded row cap.tenant cap.paymentId signed
  let row ← (if cap.isUnallocatedPattern then
    addRefundedUnallocated row cap.tenant cap.paymentId signed else .ok row)
  match cap.invoiceId with
  | Option.none => return (row, allocation)
  | some invoice =>
    let allocation ← addAllocationRefundRefunded allocation cap.tenant cap.paymentId invoice signed
    return (row, some allocation)

/-- Move the caps: in for an initiated refund, out for a reversal or a claw-back. -/
def RefundCap.apply (cap : RefundCap) (row : Option SettlementState)
    (allocation : Option AllocationRefundState) (mode : CapMode) :
    Except CapApplyError (Option SettlementState × Option AllocationRefundState) :=
  match mode with
  | .none => .ok (row, allocation)
  | .initiate => (cap.move row allocation cap.amount).mapError .repo
  | .release => do
    let signed ← negated cap.amount
    (cap.move row allocation signed).mapError .repo
  | .clawback => do
    let signed ← negated cap.amount
    cap.checkUnderflow row allocation
    (cap.move row allocation signed).mapError .repo

/-- Whether a text contains another one. -/
def containsText (text part : String) : Bool := (text.toList.tails).any (part.toList.isPrefixOf ·)

/-- A breached cap of an invoice is told from one of the payment by its text. -/
def mapRefundCapErr : RepoError → DomainError
  | .moneyOutCapExceeded detail =>
    if containsText detail "allocation_refund" || containsText detail "chk_par_" then
      .refundExceedsAllocated detail
    else .refundExceedsSettled detail
  | other => mapAdjustmentRepoErr "refund cap sidecar" other

/-- The failure of a request whose caps did not move. -/
def mapCapApplyErr : CapApplyError → DomainError
  | .underflowDeferred => .refundClawbackDeferred
      "claw-back money-out decrement would underflow (out-of-order / over-claw); deferred"
  | .repo error => mapRefundCapErr error

/-! ### Before the transaction -/

/-- What a request reads outside its transaction, and what it is stamped with: the settlement, the
hold token when the payment has an open dispute, the approval that the request needs, and the
carried balance of the grain that its phase relieves. -/
structure RefundReads where
  settlement : Option SettlementState
  openDispute : Option String
  approval : Option String
  carried : Option (PostedMoney × Option PostedMoney)
  fresh : ℕ → Uuid
  stamp : HeaderStamp
  now : Instant
  createdSeq : ℤ

/-- A refund is in the currency and scale of its settlement. -/
def originSpecCheck (settlement : SettlementState) : Except DomainError Unit := do
  let refund := req.amount.currency
  let origin := settlement.settled.currency
  rejectIf (refund.code ≠ origin.code)
    (.currencyMismatch ("refund " ++ req.refundId ++ " currency " ++ refund.code ++
      " does not match the origin payment " ++ req.paymentId ++ " settlement currency " ++
      origin.code))
  rejectIf (refund.scale ≠ origin.scale)
    (.inconsistentScale ("refund " ++ req.refundId ++ " currency scale " ++
      toString refund.scale ++ " does not match the origin payment " ++ req.paymentId ++
      " settlement scale " ++ toString origin.scale))

/-- The phases that pay the customer wait for an open dispute. -/
def isDisputeHoldable : Bool :=
  match req.phase with
  | .initiated | .confirmed => !req.isClawback
  | .rejected | .voided | .unknownFinal => false

/-- The phases that need an approval. -/
def needsApproval : Bool :=
  req.phase = .unknownFinal || (req.phase = .initiated && !req.isClawback)

/-- The idempotency key of a phase. -/
def refundBusinessId (pspRefundId : String) (phase : RefundPhase) : String :=
  pspRefundId ++ ":" ++ phase.asStr

/-- The row of a phase. -/
structure NewRefund where
  tenantId : Uuid
  refundId : String
  pspRefundId : String
  phase : RefundPhase
  pattern : RefundPattern
  paymentId : String
  invoiceId : Option String
  amount : PostedMoney
  clearingState : ClearingState
  relatesToRefundId : Option String
  reversesEntryId : Option Uuid
  createdAtUtc : Instant
  deriving DecidableEq, Repr

/-- The refund row that a phase inserts. -/
def refundRow (clearingState : ClearingState) (reverses : Option Uuid) (now : Instant) :
    NewRefund :=
  { req with
    clearingState
    reversesEntryId := reverses
    createdAtUtc := now }

variable (accounts : Accounts)

/-- Bind a leg to the chart, in the currency of the request. -/
def mkLine (req : RefundRequest) (lineId : Uuid) (leg : PlannedLeg) : Except DomainError NewLine :=
  match accounts.resolve req.tenantId leg.accountClass req.amount.currency.code
      leg.revenueStream with
  | some account =>
    .ok { NewLine.plain lineId req.payerTenantId account leg.accountClass leg.side leg.amount with
      sellerTenantId := some req.tenantId
      invoiceId := req.invoiceId }
  | none => .error (.accountClosed ("no provisioned account for class " ++
      leg.accountClass.asStr ++ " / stream " ++
      leg.revenueStream.elim "None" (fun s => "Some(\"" ++ s ++ "\")") ++ " / currency " ++
      req.amount.currency.code))

/-- Whether the phase relieves no carried grain: an unknown outcome, or a drain without a clearing
leg. -/
def carriesNothing (lines : List NewLine) : Bool :=
  match req.phase with
  | .initiated => false
  | .confirmed | .rejected | .voided => lines.all fun l => l.accountClass ≠ .refundClearing
  | .unknownFinal => true

/-- Stamp the functional value that the relieved grain carries.  A cross-currency claw-back is
refused. -/
def stampFxCarryForward (carried : Option (PostedMoney × Option PostedMoney))
    (lines : List NewLine) : Except DomainError (List NewLine) :=
  if carriesNothing req lines then .ok lines
  else
    match carried, lines with
    | some (balance, some functional), relieved :: _ => do
      rejectIf req.isClawback (.fxOperationUnsupported ("refund " ++ req.refundId ++
        " is a cross-currency claw-back; functional carry-forward at the prior refund's rate is " ++
        "not yet supported (Slice 7) — route it through a manual adjustment"))
      matchingSpec balance relieved.money
      -- an over-relief is left for the projector to refuse
      if balance.amount ≤ Decimal.zero ∨ balance.amount < relieved.money.amount then return lines
      else
        lines.mapM fun line => do
          let f ← (carriedRelief functional balance line.money).mapError fun e =>
            .internal ("refund FX carry-forward: " ++ realizedFxErrorText e)
          return { line with functionalMoney := some f }
    | _, _ => .ok lines

/-- The entry of a phase. -/
def assemblePost (req : RefundRequest) (plan : RefundLegPlan)
    (reverses : Option Uuid) (reads : RefundReads) : Except DomainError PostEntry := do
  let bound ← (plan.legs.zipIdx 1).mapM fun leg => mkLine accounts req (reads.fresh leg.2) leg.1
  let lines ← stampFxCarryForward req reads.carried bound
  return { reads.stamp with
    entryId := reads.fresh 0
    tenantId := req.tenantId
    entryCurrency := req.amount.currency.code
    sourceDocType := .refund
    sourceBusinessId := refundBusinessId req.pspRefundId req.phase
    reversesEntryId := reverses
    reversesPeriodId := reverses.map fun _ => reads.stamp.periodId
    lines }

/-! ### The ledger -/

/-- A phase that was posted: its request, its row and its entry. -/
structure RefundPost where
  req : RefundRequest
  row : NewRefund
  entry : PostEntry
  deriving DecidableEq, Repr

/-- The counters of payments and invoices, the claimed phases with the hash of their entry, the
headers of the journal, the caches, and the phases that were posted, oldest first. -/
structure RefundLedger where
  settlements : Uuid × String → Option SettlementState
  allocations : Uuid × String × String → Option AllocationRefundState
  claims : Uuid × String → Option String
  journal : List NewEntry
  caches : Caches
  posts : List RefundPost

namespace RefundLedger

/-- A ledger without payments. -/
def empty : RefundLedger := ⟨fun _ => none, fun _ => none, fun _ => none, [], .empty, []⟩

/-- The row of a phase of a refund. -/
def readRefundByPspPhase (L : RefundLedger) (tenant : Uuid) (psp : String) (phase : RefundPhase) :
    Option NewRefund :=
  (L.posts.map RefundPost.row).find? fun row =>
    row.tenantId = tenant ∧ row.pspRefundId = psp ∧ row.phase = phase

/-- The entries of a business id, of whatever flow. -/
def entryIdsForBusinessId (L : RefundLedger) (tenant : Uuid) (businessId : String) : List Uuid :=
  (L.journal.filter fun entry =>
    entry.tenantId = tenant ∧ entry.sourceBusinessId = businessId).map NewEntry.entryId

end RefundLedger

variable (L : RefundLedger)

/-- The entry of the first stage, which a reversal negates. -/
def resolveStage1Entry (req : RefundRequest) : Except DomainError Uuid :=
  match L.entryIdsForBusinessId req.tenantId (refundBusinessId req.pspRefundId .initiated) with
  | [] => .error (.invalidRequest ("refund " ++ req.refundId ++ " phase " ++ req.phase.asStr ++
      " has no stage-1 initiated entry to reverse (psp_refund_id " ++ req.pspRefundId ++ ")"))
  | [entryId] => .ok entryId
  | ids => .error (.internal ("refund " ++ req.refundId ++ " found " ++ toString ids.length ++
      " stage-1 initiated entries for psp_refund_id " ++ req.pspRefundId ++ " (expected 1)"))

/-- What a request brings to its transaction. -/
structure RefundPlan where
  capMode : CapMode
  row : NewRefund
  entry : PostEntry
  deriving DecidableEq, Repr

/-- How a forward phase moves the caps: they move at the first stage only. -/
def forwardCapMode : Except DomainError CapMode :=
  match req.phase, req.isClawback with
  | .initiated, false => .ok .initiate
  | .initiated, true => .ok .clawback
  | .confirmed, _ => .ok .none
  | other, _ => .error (.internal ("post_forward reached with non-forward phase " ++ other.asStr))

/-- An initiated or confirmed phase. -/
def planForward (req : RefundRequest) (reads : RefundReads) : Except DomainError RefundPlan := do
  let plan ← buildRefundLegs req
  let capMode ← forwardCapMode req
  let entry ← assemblePost accounts req plan none reads
  return ⟨capMode, refundRow req plan.clearingState none reads.now, entry⟩

/-- A rejected or voided phase: the first stage of the same request with its sides flipped. -/
def planReversal (req : RefundRequest) (reads : RefundReads) : Except DomainError RefundPlan := do
  let stage1 ← resolveStage1Entry L req
  let plan ← buildRefundLegs { req with phase := .initiated }
  let entry ← assemblePost accounts req (invertPlan plan) (some stage1) reads
  return ⟨.release, refundRow req .reversed (some stage1) reads.now, entry⟩

/-- An unknown outcome: the amount of the pending first stage is parked. -/
def planUnknownFinal (req : RefundRequest) (reads : RefundReads) : Except DomainError RefundPlan :=
  match L.readRefundByPspPhase req.tenantId req.pspRefundId .initiated with
  | none => .error (.invalidRequest ("unknown_final disposition for refund " ++ req.refundId ++
      " (psp_refund_id " ++ req.pspRefundId ++ ") has no recorded stage-1 initiated refund — " ++
      "nothing to write off"))
  | some stage1 => do
    rejectIf (stage1.clearingState ≠ .pending) (.invalidRequest
      ("unknown_final disposition for refund " ++ req.refundId ++ " (psp_refund_id " ++
        req.pspRefundId ++ ") is a no-op: the stage-1 refund is already " ++
        stage1.clearingState.asStr ++ " (not PENDING) — its REFUND_CLEARING is not open, so a " ++
        "write-off would over-debit it"))
    let entry ← assemblePost accounts req (unknownFinalParkPlan stage1.amount) none reads
    return ⟨.none, refundRow req .settled none reads.now, entry⟩

/-- A refund unwinds a settled payment of its currency. -/
def checkOrigin (settlement : Option SettlementState) : Except DomainError Unit :=
  match settlement with
  | none => .error (.refundOriginNotFound ("refund " ++ req.refundId ++ " references payment " ++
      req.paymentId ++ " which has no settlement"))
  | some settlement => originSpecCheck req settlement

/-- The part of a request before its transaction. -/
def planRefund (req : RefundRequest) (reads : RefundReads) : Except DomainError RefundPlan := do
  validateShape req
  rejectIf req.amount.amount.isZero (.invalidRequest "refund amount must be > 0")
  checkOrigin req reads.settlement
  onlyIf (isDisputeHoldable req)
    (forSome reads.openDispute fun token => .error (.refundDisputeHeld token))
  onlyIf (needsApproval req) (forSome reads.approval fun approval =>
    .error (.dualControlRequired ("refund requires dual-control approval: " ++ approval)))
  match req.phase with
  | .initiated | .confirmed => planForward accounts req reads
  | .rejected | .voided => planReversal accounts L req reads
  | .unknownFinal => planUnknownFinal accounts L req reads

/-! ### The transaction -/

/-- Insert the row of a phase: its refund id and its phase are new. -/
def insertRefund (rows : List NewRefund) (row : NewRefund) : Except RepoError Unit := do
  rejectIf (row.amount.amount < Decimal.zero) (.moneyOutCapExceeded "negative adjustment amount")
  rejectIf (rows.any fun r => r.tenantId = row.tenantId ∧ r.refundId = row.refundId)
    (.db "duplicate key: ledger_refund_pkey")
  rejectIf (rows.any fun r => r.tenantId = row.tenantId ∧
      r.pspRefundId = row.pspRefundId ∧ r.phase = row.phase)
    (.db "duplicate key: uq_ledger_refund_psp_phase")

/-- The text of a repository error. -/
def repoErrorText : RepoError → String
  | .conflict detail => "concurrent ledger modification: " ++ detail
  | .db detail => "ledger repo db error: " ++ detail
  | .money error => moneyErrorText error
  | .invalidStoredMoney detail => "ledger repo: invalid stored money: " ++ detail
  | .moneyOutCapExceeded detail => "ledger repo: payment money-out cap exceeded: " ++ detail
  | .disputeNotOpen detail =>
    "ledger repo: dispute not OPENED at the requested cycle: " ++ detail

/-- Write the row of a phase. -/
def writeRefundRow (row : NewRefund) (context : String) : Except DomainError Unit :=
  (insertRefund (L.posts.map RefundPost.row) row).mapError fun e =>
    .internal (context ++ ": " ++ repoErrorText e)

variable (payloadHash : PostEntry → String)

/-- The transaction of a fresh phase.  The caps move and the row is written before the entry is
projected; an unknown outcome moves no caps and writes its row afterwards. -/
def applyRefund (L : RefundLedger) (req : RefundRequest) (plan : RefundPlan) (reads : RefundReads) :
    Except DomainError RefundLedger := do
  let cap := RefundCap.forRequest req
  let payment := (req.tenantId, req.paymentId)
  let invoice := (req.tenantId, req.paymentId, cap.invoiceId.getD "")
  let moved ← (cap.apply (L.settlements payment) (L.allocations invoice)
    plan.capMode).mapError mapCapApplyErr
  onlyIf (req.phase ≠ .unknownFinal) (writeRefundRow L plan.row "insert refund")
  let posting := plan.entry.posting accounts reads.now reads.createdSeq
  let caches ← (projectPosting L.caches posting).mapError .ofProject
  onlyIf (req.phase = .unknownFinal)
    (writeRefundRow L plan.row "insert refund (unknown_final)")
  return {
    settlements := Function.update L.settlements payment moved.1
    allocations := Function.update L.allocations invoice moved.2
    claims := Function.update L.claims (req.tenantId, plan.entry.sourceBusinessId)
      (some (payloadHash plan.entry))
    journal := L.journal ++ [posting.entry]
    caches := caches
    posts := L.posts ++ [⟨req, plan.row, plan.entry⟩] }

/-- Post a phase: a claimed phase is replayed when its entry is the same, and refused otherwise. -/
def commitRefund (L : RefundLedger) (req : RefundRequest) (plan : RefundPlan)
    (reads : RefundReads) : Except DomainError RefundLedger := do
  checkEntry plan.entry
  match L.claims (req.tenantId, plan.entry.sourceBusinessId) with
  | some hash =>
    if hash = payloadHash plan.entry then return L
    else .error (.idempotencyConflict "idempotency key reused with a different payload")
  | none => applyRefund accounts payloadHash L req plan reads

/-- A refund request. -/
def postRefund (L : RefundLedger) (req : RefundRequest) (reads : RefundReads) :
    Except DomainError RefundLedger := do
  let plan ← planRefund accounts L req reads
  commitRefund accounts payloadHash L req plan reads

/-- The counters that the other flows move. -/
inductive OtherCounter
  | settled
  | fee
  | allocated
  | clawedBack
  deriving DecidableEq, Repr

/-- The stored counter. -/
def OtherCounter.counter : OtherCounter → SettlementCounter
  | .settled => .settled
  | .fee => .fee
  | .allocated => .allocated
  | .clawedBack => .clawedBack

/-- Something that happens to the ledger: a refund request; a posting of another flow; a payment
that settles, changes another counter, or is allocated to an invoice. -/
inductive RefundEvent
  | refund (req : RefundRequest) (reads : RefundReads)
  | posting (P : Posting)
  | settle (tenant : Uuid) (payment : String) (settled fee : PostedMoney)
  | counters (tenant : Uuid) (payment : String) (deltas : List (OtherCounter × PostedMoney))
  | allocate (tenant : Uuid) (payment invoice : String) (delta : PostedMoney)

/-- One event. -/
def RefundLedger.step (L : RefundLedger) : RefundEvent → Except DomainError RefundLedger
  | .refund req reads => postRefund accounts payloadHash L req reads
  | .posting P => do
    let caches ← (projectPosting L.caches P).mapError .ofProject
    return { L with caches, journal := L.journal ++ [P.entry] }
  | .settle tenant payment settled fee => do
    rejectIf (L.settlements (tenant, payment)).isSome
      (repoToDomain (.db "duplicate key: payment_settlement"))
    let row ← (seedSettlement tenant payment settled fee).mapError mapRepoErr
    return { L with settlements := Function.update L.settlements (tenant, payment) (some row) }
  | .counters tenant payment deltas => do
    let row ← (addSettlementDeltas (L.settlements (tenant, payment)) tenant payment
      (deltas.map fun d => (d.1.counter, d.2))).mapError mapRepoErr
    return { L with settlements := Function.update L.settlements (tenant, payment) row }
  | .allocate tenant payment invoice delta => do
    let row ← (bumpAllocationRefund (L.allocations (tenant, payment, invoice)) tenant payment
      invoice delta).mapError mapRepoErr
    return { L with allocations :=
      Function.update L.allocations (tenant, payment, invoice) (some row) }

/-! ### Contributions -/

/-- What a line moves into the refund clearing of a currency, credits positive. -/
def NewLine.clearing (l : NewLine) (currency : String) : ℚ :=
  if l.accountClass = .refundClearing ∧ l.money.currency.code = currency then
    match l.side with
    | .credit => l.money.value
    | .debit => -l.money.value
  else 0

/-- The refund that a phase belongs to. -/
def RefundPost.refund (p : RefundPost) : Uuid × String := (p.req.tenantId, p.req.pspRefundId)

/-- What a phase moved into the refund clearing of a currency. -/
def RefundPost.clearing (p : RefundPost) (currency : String) : ℚ :=
  (p.entry.lines.map (·.clearing currency)).sum

namespace RefundLedger

section

variable (L : RefundLedger) (refund : Uuid × String)

/-- The posted phases of a refund. -/
def phasesOf : List RefundPost := L.posts.filter (·.refund = refund)

/-- The signed contribution of a refund to the refund clearing of a currency. -/
def clearingOf (currency : String) : ℚ :=
  ((L.phasesOf refund).map (·.clearing currency)).sum

/-- The initiated phase of a refund. -/
def opening : Option RefundPost := (L.phasesOf refund).find? (·.req.phase = .initiated)

/-- Whether a closing phase of the refund was posted. -/
def closed : Prop := ∃ p ∈ L.phasesOf refund, p.req.phase ≠ .initiated

/-- Whether a rejected or voided phase of the refund was posted. -/
def reversed : Prop :=
  ∃ p ∈ L.phasesOf refund, p.req.phase = .rejected ∨ p.req.phase = .voided

instance : Decidable (L.closed refund) :=
  inferInstanceAs (Decidable (∃ p ∈ L.phasesOf refund, p.req.phase ≠ .initiated))

instance : Decidable (L.reversed refund) :=
  inferInstanceAs (Decidable (∃ p ∈ L.phasesOf refund,
    p.req.phase = .rejected ∨ p.req.phase = .voided))

end

end RefundLedger

/-- What an initiated phase opens: its signed amount, or nothing in a single step. -/
def RefundPost.opened (p : RefundPost) (currency : String) : ℚ :=
  if p.req.twoStage then p.req.signed currency else 0

/-- What an initiated phase counts for: a claw-back takes its amount off, an outbound refund adds
it unless it was rejected or voided. -/
def RefundPost.counted (p : RefundPost) : ℚ :=
  match p.req.direction with
  | .clawback => -p.req.amount.value
  | .outbound => if L.reversed p.refund then 0 else p.req.amount.value

/-- The initiated phases of a payment. -/
def RefundLedger.initiatedOf (payment : Uuid × String) : List RefundPost :=
  L.posts.filter fun p =>
    p.req.phase = .initiated ∧ (p.req.tenantId, p.req.paymentId) = payment

/-- What the refunds of a payment amount to. -/
def RefundLedger.refundedOf (payment : Uuid × String) : ℚ :=
  ((L.initiatedOf payment).map (RefundPost.counted L)).sum

end Gears.Ledger
