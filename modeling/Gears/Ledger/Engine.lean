import Gears.Ledger.Amounts
import Gears.Ledger.Projection

/-!
# The posting engine

The payment flows build entries whose lines are not bound to accounts yet.  The orchestrator
writes the header fields, binds every line to the chart, and the engine checks the entry and
projects it.

* `paymentLine`, `paymentEntry` : lines and entries as the builders leave them.
* `Accounts` : a chart of accounts and the normal sides of its accounts.
* `bindLines` : bind lines to the chart.
* `checkEntry`, `postEntry` : check a bound entry, and project it.
-/

namespace Gears.Ledger

open Money

/-- The table from repository errors to domain errors. -/
def repoToDomain : RepoError → DomainError
  | .conflict detail => .concurrentModification detail
  | .db detail => .internal ("ledger repo db error: " ++ detail)
  | .money error => mapMoneyError error
  | .invalidStoredMoney detail => .internal ("ledger repo: invalid stored money: " ++ detail)
  | .moneyOutCapExceeded detail =>
    .internal ("ledger repo: payment money-out cap exceeded: " ++ detail)
  | .disputeNotOpen detail => .invalidDisputeTransition detail

/-- Repository errors of a sidecar: internal faults and lost races name their context. -/
def mapAdjustmentRepoErr (context : String) (error : RepoError) : DomainError :=
  match repoToDomain error with
  | .internal detail => .internal (context ++ ": " ++ detail)
  | .concurrentModification detail => .concurrentModification (context ++ ": " ++ detail)
  | other => other

/-- The text of an exact-arithmetic error. -/
def exactErrorText : ExactError → String
  | .money error => moneyErrorText error
  | .arithmeticLimit => "exact arithmetic limit exceeded"
  | .tooManyTerms => "too many terms"
  | .divisionByZero => "division by zero"
  | .emptyWeights => "allocation weights must be non-empty"
  | .negativeWeight => "allocation weights must be non-negative"

/-- How a projection failure is reported. -/
def DomainError.ofProject : ProjectError → DomainError
  | .repo error => repoToDomain error
  | .conflict => .concurrentModification "cache version changed"
  | .negativeBalance account balance => .negativeBalance
      ("balance for account " ++ account.text ++ " would go negative (" ++ balance ++ ")")
  | .missingNormalSide account =>
    .accountClosed ("missing normal_side for account " ++ account.text)
  | .missingCreditEventType line =>
    .internal ("REUSABLE_CREDIT line " ++ line.text ++ " missing credit_grant_event_type")
  | .db detail => .internal ("projector: " ++ detail)
  | .arithmetic error => .internal ("projector: " ++ exactErrorText error)

/-- The civil day of an instant. -/
def toNaiveDate (t : Instant) : NaiveDate where
  numDaysFromCe := 719163 + t.unixTimestamp / 86400
  lower := by have := t.lower; omega
  upper := by have := t.upper; omega

/-- The first of January 1970, the placeholder of a missing date. -/
def epochDate : NaiveDate := ⟨719163, by decide, by decide⟩

/-- A line of a payment entry, not bound to an account yet. -/
def paymentLine (tenantId payerTenantId lineId : Uuid) (accountClass : AccountClass) (side : Side)
    (money : PostedMoney) : NewLine :=
  { NewLine.plain lineId payerTenantId Uuid.nil accountClass side money with
    -- the nil account stands until the line is bound
    sellerTenantId := some tenantId }

/-- An entry of a payment flow, with the header fields that are filled in later. -/
def paymentEntry (entryId tenantId : Uuid) (currency : CurrencySpec) (docType : SourceDocType)
    (businessId : String) (effectiveAt : Option Instant) (lines : List NewLine) : PostEntry where
  entryId := entryId
  tenantId := tenantId
  periodId := ""
  entryCurrency := currency.code
  sourceDocType := docType
  sourceBusinessId := businessId
  effectiveAt := effectiveAt.elim epochDate toNaiveDate
  postedByActorId := Uuid.nil
  correlationId := Uuid.nil
  reversesEntryId := none
  reversesPeriodId := none
  lines := lines

/-- The classes whose balance is kept for each revenue stream. -/
def AccountClass.perStream : List AccountClass := [.revenue, .contractLiability]

/-- A chart of accounts: the account of a tenant, a class, a currency and a revenue stream, and the
normal side of every account. -/
structure Accounts where
  byKey : Uuid → AccountClass → String → Option String → Option Uuid
  normalSides : Uuid → Option Side

/-- The account of a class; only the per-stream classes are looked up with a stream. -/
def Accounts.resolve (accounts : Accounts) (tenant : Uuid) (accountClass : AccountClass)
    (currency : String) (stream : Option String) : Option Uuid :=
  accounts.byKey tenant accountClass currency
    (if AccountClass.perStream.contains accountClass then stream else none)

/-- Bind a line to its account. -/
def bindLine (accounts : Accounts) (tenant : Uuid) (line : NewLine) : Except DomainError NewLine :=
  match accounts.resolve tenant line.accountClass line.money.currency.code line.revenueStream with
  | some account => .ok { line with accountId := account }
  | none => .error (.accountClosed ("no provisioned account for class " ++
      line.accountClass.asStr ++ " / stream " ++
      line.revenueStream.elim "None" (fun s => "Some(\"" ++ s ++ "\")") ++ " / currency " ++
      line.money.currency.code))

/-- Bind every line of an entry. -/
def bindLines (accounts : Accounts) (entry : PostEntry) : Except DomainError PostEntry := do
  let lines ← entry.lines.mapM (bindLine accounts entry.tenantId)
  return { entry with lines }

/-- The header fields that the orchestrator writes over the builder's placeholders. -/
structure HeaderStamp where
  periodId : String
  effectiveAt : NaiveDate
  postedByActorId : Uuid
  correlationId : Uuid
  deriving DecidableEq, Repr

/-- Overwrite the placeholder header fields. -/
def overwriteHeader (stamp : HeaderStamp) (entry : PostEntry) : PostEntry :=
  { entry with
    periodId := stamp.periodId
    effectiveAt := stamp.effectiveAt
    postedByActorId := stamp.postedByActorId
    correlationId := stamp.correlationId }

/-! ### Posting -/

/-- The most lines an entry may have. -/
def maxLines : ℕ := 1000

/-- The posting of a bound entry. -/
def PostEntry.posting (entry : PostEntry) (accounts : Accounts) (now : Instant)
    (createdSeq : ℤ) : Posting where
  entry := newEntry now entry
  lines := entry.lines
  normalSides := accounts.normalSides
  createdSeq := createdSeq

/-- The structural checks of a bound entry, made before the first write. -/
def checkEntry (entry : PostEntry) : Except DomainError Unit := do
  (validateBalancedEntry entry.entryCurrency (entry.lines.map NewLine.facts)).mapError .ofViolation
  Except.rejectIf (maxLines < entry.lines.length)
    (.entryTooLarge ("entry has " ++ toString entry.lines.length ++ " lines (max " ++
      toString maxLines ++ ")"))

/-- Check a bound entry and project it. -/
def postEntry (accounts : Accounts) (now : Instant) (createdSeq : ℤ) (caches : Caches)
    (entry : PostEntry) : Except DomainError Caches := do
  checkEntry entry
  (projectPosting caches (entry.posting accounts now createdSeq)).mapError .ofProject

variable {accounts : Accounts}

theorem bindLine_eq_ok_iff {tenant : Uuid} {line bound : NewLine} :
    bindLine accounts tenant line = .ok bound ↔ ∃ account,
      accounts.resolve tenant line.accountClass line.money.currency.code line.revenueStream =
        some account ∧ bound = { line with accountId := account } := by
  unfold bindLine
  cases accounts.resolve tenant line.accountClass line.money.currency.code line.revenueStream with
  | none => simp
  | some account => simp [eq_comm]

theorem bindLines_eq_ok_iff {entry bound : PostEntry} :
    bindLines accounts entry = .ok bound ↔ ∃ lines,
      List.Forall₂ (fun line bound => bindLine accounts entry.tenantId line = .ok bound)
        entry.lines lines ∧ bound = { entry with lines } := by
  simp only [bindLines, Except.ok_iffs, Except.mapM_eq_ok_iff, eq_comm (b := bound)]

end Gears.Ledger
