import Gears.Money.Exact
import Gears.Lib.Uuid

/-!
# The journal data model

The typed literals of the ledger SDK and the rows a posting inserts: a `NewEntry` header and its
`NewLine`s.  Money is validated `PostedMoney` throughout.

* `Side`, `MappingStatus`, `AccountClass`, `SourceDocType` : the wire literals with their tokens
  (`asStr`); `AccountClass.isGuarded` names the classes whose balance must not go negative.
* `Instant`, `NaiveDate` : UTC instants and calendar days.
* `NewEntry`, `NewLine` : the posting inputs.
-/

namespace Gears.Ledger

open Money

/-- A calendar day of the years -262143 to 262142, counted from the common era. -/
structure NaiveDate where
  numDaysFromCe : ℤ
  lower : -95746129 ≤ numDaysFromCe
  upper : numDaysFromCe ≤ 95745399
  deriving DecidableEq, Repr

/-- A UTC instant of the years -9999 to 9999. -/
structure Instant where
  /-- Whole seconds since the Unix epoch. -/
  unixTimestamp : ℤ
  /-- Nanoseconds within the second. -/
  nanosecond : ℕ
  lower : -377705116800 ≤ unixTimestamp
  upper : unixTimestamp ≤ 253402300799
  nanosecond_lt : nanosecond < 10 ^ 9
  deriving DecidableEq, Repr

/-! ### Typed literals -/

/-- Debit or credit. -/
inductive Side
  | debit
  | credit
  deriving DecidableEq, Repr

/-- Whether the mapping of a line to its account is resolved. -/
inductive MappingStatus
  | resolved
  | pending
  deriving DecidableEq, Repr

/-- The account classes of the chart. -/
inductive AccountClass
  | ar
  | cashClearing
  | unallocated
  | reusableCredit
  | contractLiability
  | revenue
  | taxPayable
  | suspense
  | disputeHold
  | refundClearing
  | contraRevenue
  | goodwill
  | disputeLossExpense
  | pspFeeExpense
  | fxGainLoss
  | fxUnrealized
  deriving DecidableEq, Repr

/-- The kinds of source documents a posting comes from. -/
inductive SourceDocType
  | invoicePost
  | reversal
  | mappingCorrection
  | paymentSettle
  | paymentAllocate
  | chargeback
  | creditApply
  | settlementReturn
  | manualAdjustment
  | scheduleBuild
  | recognition
  | creditNote
  | debitNote
  | refund
  | fxRevaluation
  | fxRevalReversal
  deriving DecidableEq, Repr

/-- The stored token of a side. -/
def Side.asStr : Side → String
  | .debit => "DR"
  | .credit => "CR"

/-- The other side. -/
def Side.flip : Side → Side
  | .debit => .credit
  | .credit => .debit

/-- The stored token of a mapping status. -/
def MappingStatus.asStr : MappingStatus → String
  | .resolved => "RESOLVED"
  | .pending => "PENDING"

/-- The stored token of an account class. -/
def AccountClass.asStr : AccountClass → String
  | .ar => "AR"
  | .cashClearing => "CASH_CLEARING"
  | .unallocated => "UNALLOCATED"
  | .reusableCredit => "REUSABLE_CREDIT"
  | .contractLiability => "CONTRACT_LIABILITY"
  | .revenue => "REVENUE"
  | .taxPayable => "TAX_PAYABLE"
  | .suspense => "SUSPENSE"
  | .disputeHold => "DISPUTE_HOLD"
  | .refundClearing => "REFUND_CLEARING"
  | .contraRevenue => "CONTRA_REVENUE"
  | .goodwill => "GOODWILL"
  | .disputeLossExpense => "DISPUTE_LOSS_EXPENSE"
  | .pspFeeExpense => "PSP_FEE_EXPENSE"
  | .fxGainLoss => "FX_GAIN_LOSS"
  | .fxUnrealized => "FX_UNREALIZED"

/-- The stored token of a source document type. -/
def SourceDocType.asStr : SourceDocType → String
  | .invoicePost => "INVOICE_POST"
  | .reversal => "REVERSAL"
  | .mappingCorrection => "MAPPING_CORRECTION"
  | .paymentSettle => "PAYMENT_SETTLE"
  | .paymentAllocate => "PAYMENT_ALLOCATE"
  | .chargeback => "CHARGEBACK"
  | .creditApply => "CREDIT_APPLY"
  | .settlementReturn => "SETTLEMENT_RETURN"
  | .manualAdjustment => "MANUAL_ADJUSTMENT"
  | .scheduleBuild => "SCHEDULE_BUILD"
  | .recognition => "RECOGNITION"
  | .creditNote => "CREDIT_NOTE"
  | .debitNote => "DEBIT_NOTE"
  | .refund => "REFUND"
  | .fxRevaluation => "FX_REVALUATION"
  | .fxRevalReversal => "FX_REVAL_REVERSAL"

/-- The classes whose balance must never go negative. -/
def AccountClass.guarded : List AccountClass :=
  [.ar, .cashClearing, .unallocated, .contractLiability, .disputeHold, .refundClearing]

/-- Whether the class is in the guarded set. -/
def AccountClass.isGuarded (c : AccountClass) : Bool := guarded.contains c

/-- The `ar_status` token of the disputed part of a receivable. -/
def arStatusDisputed : String := "DISPUTED"

/-- The `ar_status` token of the undisputed part of a receivable. -/
def arStatusActive : String := "ACTIVE"

/-- A journal entry header to insert. -/
structure NewEntry where
  entryId : Uuid
  tenantId : Uuid
  legalEntityId : Uuid
  periodId : String
  entryCurrency : String
  sourceDocType : SourceDocType
  sourceBusinessId : String
  reversesEntryId : Option Uuid
  reversesPeriodId : Option String
  postedAtUtc : Instant
  effectiveAt : NaiveDate
  origin : String
  postedByActorId : Uuid
  correlationId : Uuid
  deriving DecidableEq, Repr

/-- A journal line to insert. -/
structure NewLine where
  lineId : Uuid
  payerTenantId : Uuid
  sellerTenantId : Option Uuid
  resourceTenantId : Option Uuid
  accountId : Uuid
  accountClass : AccountClass
  glCode : Option String
  side : Side
  money : PostedMoney
  invoiceId : Option String
  dueDate : Option NaiveDate
  revenueStream : Option String
  mappingStatus : MappingStatus
  functionalMoney : Option PostedMoney
  taxJurisdiction : Option String
  taxFilingPeriod : Option String
  taxRateRef : Option String
  legalEntityId : Option Uuid
  invoiceItemRef : Option String
  skuOrPlanRef : Option String
  priceId : Option String
  pricingSnapshotRef : Option String
  poAllocationGroup : Option String
  creditGrantEventType : Option String
  arStatus : Option String
  deriving DecidableEq, Repr

/-- A line with no optional column set. -/
def NewLine.plain (lineId payer account : Uuid) (accountClass : AccountClass) (side : Side)
    (money : PostedMoney) : NewLine where
  lineId := lineId
  payerTenantId := payer
  sellerTenantId := none
  resourceTenantId := none
  accountId := account
  accountClass := accountClass
  glCode := none
  side := side
  money := money
  invoiceId := none
  dueDate := none
  revenueStream := none
  mappingStatus := .resolved
  functionalMoney := none
  taxJurisdiction := none
  taxFilingPeriod := none
  taxRateRef := none
  legalEntityId := none
  invoiceItemRef := none
  skuOrPlanRef := none
  priceId := none
  pricingSnapshotRef := none
  poAllocationGroup := none
  creditGrantEventType := none
  arStatus := none

/-- An entry to post.  Its lines are journal lines without the legal-entity column. -/
structure PostEntry where
  entryId : Uuid
  tenantId : Uuid
  periodId : String
  entryCurrency : String
  sourceDocType : SourceDocType
  sourceBusinessId : String
  effectiveAt : NaiveDate
  postedByActorId : Uuid
  correlationId : Uuid
  reversesEntryId : Option Uuid
  reversesPeriodId : Option String
  lines : List NewLine
  deriving DecidableEq, Repr

/-- The header the engine writes for an entry posted at `now`. -/
def newEntry (now : Instant) (entry : PostEntry) : NewEntry :=
  { entry with
    legalEntityId := entry.tenantId
    postedAtUtc := now
    origin := "SYSTEM" }

end Gears.Ledger
