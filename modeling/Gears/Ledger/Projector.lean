import Gears.Ledger.Model
import Gears.Lib.Coalesce

/-!
# The balance projector

A posting's lines become signed deltas on six balance caches.  `deriveGrains` turns every line
into one delta for each cache it belongs to, sorts the deltas into the lock order and merges the
ones of one grain; `project` then upserts one cache row for each merged delta.

* `GrainDelta` : a derived cache mutation; `GrainDelta.sortKey` is its place in the lock order
  and `GrainDelta.businessKey` the row it reads and writes.
* `deriveGrains` : line deltas, sorted and coalesced.
* `finalBalances` : the balances after a delta, with the no-negative guard.
* `project` : one accepted posting on the caches.
-/

namespace Gears.Ledger

open Money Except ExactAmount

/-- The errors of the repositories. -/
inductive RepoError
  | conflict (detail : String)
  | db (detail : String)
  | money (error : MoneyError)
  | invalidStoredMoney (detail : String)
  | moneyOutCapExceeded (detail : String)
  | disputeNotOpen (detail : String)
  deriving DecidableEq, Repr

/-- A projection failure. -/
inductive ProjectError
  | repo (error : RepoError)
  | conflict
  | negativeBalance (accountId : Uuid) (balance : String)
  | missingNormalSide (accountId : Uuid)
  | missingCreditEventType (lineId : Uuid)
  | arithmetic (error : ExactError)
  | db (detail : String)
  deriving DecidableEq, Repr

/-- Named money errors stay money errors; budget failures are internal. -/
def ProjectError.ofExact : ExactError → ProjectError
  | .money e => .repo (.money e)
  | e => .arithmetic e

/-! ### Grains -/

/-- The six caches, in the order their rows are locked. -/
inductive GrainTable
  | account
  | arPayer
  | arInvoice
  | unallocated
  | reusableCredit
  | tax
  deriving DecidableEq, Repr

/-- The position of a cache in the lock order. -/
def GrainTable.rank : GrainTable → ℕ
  | .account => 0
  | .arPayer => 1
  | .arInvoice => 2
  | .unallocated => 3
  | .reusableCredit => 4
  | .tax => 5

/-- The name of a cache in diagnostics. -/
def GrainTable.name : GrainTable → String
  | .account => "Account"
  | .arPayer => "ArPayer"
  | .arInvoice => "ArInvoice"
  | .unallocated => "Unallocated"
  | .reusableCredit => "ReusableCredit"
  | .tax => "Tax"

/-- One derived cache mutation. -/
structure GrainDelta where
  tableRank : GrainTable
  tenantId : Uuid
  accountId : Uuid
  currency : String
  payerTenantId : Uuid
  invoiceId : String
  taxJurisdiction : String
  taxFilingPeriod : String
  accountClass : AccountClass
  normalSide : Side
  delta : ExactAmount
  currencySpec : CurrencySpec
  functionalDelta : ExactAmount
  functionalCurrency : Option CurrencySpec
  disputedDelta : ExactAmount
  postedAt : Instant
  dueDate : Option NaiveDate
  creditGrantEventType : String
  firstGrantedAt : Option Instant
  deriving DecidableEq, Repr

/-- The lock order of grains: cache, tenant, account, currency, payer, invoice, tax jurisdiction,
tax filing period, credit-grant event type. -/
abbrev GrainSortKey :=
  ℕ ×ₗ ℕ ×ₗ ℕ ×ₗ String ×ₗ ℕ ×ₗ String ×ₗ String ×ₗ String ×ₗ String

/-- Sort by business identity only: the axes that a cache does not key on are placeholders. -/
def GrainDelta.sortKey (g : GrainDelta) : GrainSortKey :=
  toLex (g.tableRank.rank, toLex (g.tenantId.toNat,
    toLex ((if g.tableRank = .unallocated ∨ g.tableRank = .reusableCredit then Uuid.nil
      else g.accountId).toNat,
    toLex (if g.tableRank = .arInvoice ∨ g.tableRank = .tax then "" else g.currency,
    toLex ((if g.tableRank = .account ∨ g.tableRank = .tax then Uuid.nil
      else g.payerTenantId).toNat,
    toLex (g.invoiceId, toLex (g.taxJurisdiction, toLex (g.taxFilingPeriod,
      g.creditGrantEventType))))))))

/-- The business key of a cache row. -/
inductive BusinessKey
  | account (tenant account : Uuid) (currency : String)
  | arPayer (tenant payer account : Uuid) (currency : String)
  | arInvoice (tenant payer account : Uuid) (invoice : String)
  | unallocated (tenant payer : Uuid) (currency : String)
  | reusableCredit (tenant payer : Uuid) (currency event : String)
  | tax (tenant account : Uuid) (jurisdiction filing : String)
  deriving DecidableEq, Repr

/-- The row a delta reads and writes. -/
def GrainDelta.businessKey (g : GrainDelta) : BusinessKey :=
  match g.tableRank with
  | .account => .account g.tenantId g.accountId g.currency
  | .arPayer => .arPayer g.tenantId g.payerTenantId g.accountId g.currency
  | .arInvoice => .arInvoice g.tenantId g.payerTenantId g.accountId g.invoiceId
  | .unallocated => .unallocated g.tenantId g.payerTenantId g.currency
  | .reusableCredit =>
    .reusableCredit g.tenantId g.payerTenantId g.currency g.creditGrantEventType
  | .tax => .tax g.tenantId g.accountId g.taxJurisdiction g.taxFilingPeriod

/-- The business key of a grain, for diagnostics. -/
def grainLabel (g : GrainDelta) : String :=
  let part (name value : String) : String :=
    if value.isEmpty then "" else " " ++ name ++ " " ++ value
  g.tableRank.name ++ " tenant " ++ g.tenantId.text ++ " payer " ++ g.payerTenantId.text ++
    " currency " ++ g.currency ++ part "invoice" g.invoiceId ++
    part "credit_grant_event_type" g.creditGrantEventType ++
    part "tax_jurisdiction" g.taxJurisdiction ++ part "tax_filing_period" g.taxFilingPeriod

/-- A cached row that holds another account than the posting line. -/
def cacheAccountMismatch (g : GrainDelta) (cachedAccount : Uuid) : ProjectError :=
  .db ("projector: cached row for " ++ grainLabel g ++ " holds account " ++ cachedAccount.text ++
    ", the posting targets account " ++ g.accountId.text)

/-! ### Deriving grains -/

/-- Validate currency metadata before arithmetic. -/
def matchCurrency (a b : CurrencySpec) : Except ProjectError Unit :=
  (a.ensureSame b).mapError fun e => .repo (.money e)

/-- Optional functional metadata is immutable, including its absence. -/
def matchFunctional : Option CurrencySpec → Option CurrencySpec → Except ProjectError Unit
  | some a, some b => matchCurrency a b
  | none, none => .ok ()
  | _, _ => .error (.repo (.money .currencyMismatch))

@[simp] theorem matchCurrency_eq_ok_iff {a b : CurrencySpec} {u : Unit} :
    matchCurrency a b = .ok u ↔ a = b := by
  simp [matchCurrency]

@[simp] theorem matchFunctional_eq_ok_iff {a b : Option CurrencySpec} {u : Unit} :
    matchFunctional a b = .ok u ↔ a = b := by
  cases a <;> cases b <;> simp [matchFunctional]

/-- A line's amount with the sign of its side. -/
def signed (side normalSide : Side) (money : PostedMoney) : ExactAmount :=
  .fromDecimal (if side = normalSide then money.amount else money.amount.neg)

/-- The account delta every line derives. -/
def baseGrain (entry : NewEntry) (line : NewLine) (normalSide : Side) : GrainDelta where
  tableRank := .account
  tenantId := entry.tenantId
  accountId := line.accountId
  currency := line.money.currency.code
  payerTenantId := line.payerTenantId
  invoiceId := ""
  taxJurisdiction := ""
  taxFilingPeriod := ""
  accountClass := line.accountClass
  normalSide := normalSide
  delta := signed line.side normalSide line.money
  currencySpec := line.money.currency
  functionalDelta :=
    match line.functionalMoney with
    | none => .fromDecimal .zero
    | some m => signed line.side normalSide m
  functionalCurrency := line.functionalMoney.map (·.currency)
  disputedDelta := .fromDecimal .zero
  postedAt := entry.postedAtUtc
  dueDate := none
  creditGrantEventType := ""
  firstGrantedAt := none

/-- The deltas a line derives besides its account delta. -/
def subGrains (entry : NewEntry) (line : NewLine) (base : GrainDelta) :
    Except ProjectError (List GrainDelta) :=
  match line.accountClass with
  | .ar =>
    .ok ({ base with tableRank := .arPayer } ::
      match line.invoiceId with
      | none => []
      | some invoiceId =>
        [{ base with
          tableRank := .arInvoice
          invoiceId := invoiceId
          disputedDelta :=
            if line.arStatus = some arStatusDisputed then base.delta else .fromDecimal .zero
          dueDate := line.dueDate }])
  | .unallocated => .ok [{ base with tableRank := .unallocated }]
  | .reusableCredit =>
    match line.creditGrantEventType.filter fun s => !s.isEmpty with
    | none => .error (.missingCreditEventType line.lineId)
    | some event =>
      .ok [{ base with
        tableRank := .reusableCredit
        creditGrantEventType := event
        firstGrantedAt := some entry.postedAtUtc }]
  | .taxPayable =>
    match line.taxJurisdiction, line.taxFilingPeriod with
    | some j, some f =>
      .ok [{ base with tableRank := .tax, taxJurisdiction := j, taxFilingPeriod := f }]
    | _, _ => .ok []
  | _ => .ok []

/-- The deltas of one line. -/
def lineGrains (entry : NewEntry) (normalSides : Uuid → Option Side) (line : NewLine) :
    Except ProjectError (List GrainDelta) :=
  match normalSides line.accountId with
  | none => .error (.missingNormalSide line.accountId)
  | some normalSide => do
    let base := baseGrain entry line normalSide
    let sub ← subGrains entry line base
    return base :: sub

/-- Merge a delta into the previous one of its grain. -/
def mergeGrain (last g : GrainDelta) : Except ProjectError GrainDelta := do
  matchCurrency last.currencySpec g.currencySpec
  matchFunctional last.functionalCurrency g.functionalCurrency
  rejectIf (last.accountId ≠ g.accountId ∨ last.accountClass ≠ g.accountClass ∨
      last.normalSide ≠ g.normalSide)
    (.db ("projector: entry lines disagree on account for one grain (" ++ grainLabel g ++
      "): account " ++ last.accountId.text ++ " " ++ last.accountClass.asStr ++ " " ++
      last.normalSide.asStr ++ " vs account " ++ g.accountId.text ++ " " ++
      g.accountClass.asStr ++ " " ++ g.normalSide.asStr))
  let delta ← (last.delta.checkedAdd g.delta).mapError .ofExact
  let disputedDelta ← (last.disputedDelta.checkedAdd g.disputedDelta).mapError .ofExact
  let functionalDelta ← (last.functionalDelta.checkedAdd g.functionalDelta).mapError .ofExact
  return { last with delta, disputedDelta, functionalDelta }

/-- Derive signed deltas, sort them into the lock order and merge the ones of one grain. -/
def deriveGrains (entry : NewEntry) (lines : List NewLine) (normalSides : Uuid → Option Side) :
    Except ProjectError (List GrainDelta) := do
  let grains ← lines.mapM (lineGrains entry normalSides)
  coalesce GrainDelta.sortKey mergeGrain
    (grains.flatten.insertionSort fun a b => a.sortKey ≤ b.sortKey)

/-! ### Cache rows -/

/-- A cache row.  The classification is a column of `account_balance`, the disputed part and the
dates of `ar_invoice_balance`, and the grant instant of `reusable_credit_subbalance`; the other
caches have no such column. -/
structure CacheRow where
  accountId : Uuid
  balance : PostedMoney
  functional : Option PostedMoney
  classification : Option (AccountClass × Side)
  disputed : Option PostedMoney
  originalPostedAt : Option Instant
  dueDate : Option NaiveDate
  firstGrantedAt : Option Instant
  lastEntrySeq : ℤ
  version : ℤ
  deriving DecidableEq, Repr

/-- The six caches: at most one row for each business key. -/
abbrev Caches := BusinessKey → Option CacheRow

/-- No rows. -/
def Caches.empty : Caches := fun _ => none

/-- Add the stored value before the sole bounded narrowing step. -/
def finalAmount (delta : ExactAmount) (stored : Option PostedMoney) (currency : CurrencySpec) :
    Except ProjectError PostedMoney := do
  forSome stored fun m => matchCurrency currency m.currency
  let amount := stored.elim Decimal.zero PostedMoney.amount
  let sum ← (delta.checkedAdd (.fromDecimal amount)).mapError .ofExact
  (sum.intoPostedExact currency).mapError .ofExact

theorem finalAmount_eq_ok_iff {delta : ExactAmount} {stored : Option PostedMoney}
    {c : CurrencySpec} {m : PostedMoney} :
    finalAmount delta stored c = .ok m ↔ (∀ s ∈ stored, s.currency = c) ∧ delta.InBudget ∧
      m.currency = c ∧ m.value = delta.toRat + stored.elim 0 PostedMoney.value := by
  have hd : (stored.elim Decimal.zero PostedMoney.amount).toRat =
      stored.elim 0 PostedMoney.value := by
    cases stored
    · exact Decimal.toRat_zero
    · rfl
  simp only [finalAmount, ok_iffs, forSome_eq_ok_iff, matchCurrency_eq_ok_iff,
    checkedAdd_eq_ok_iff, intoPostedExact_eq_ok_iff,
    toRat_fromDecimal, exists_const, hd, eq_comm (a := c)]
  refine and_congr_right fun _ => ?_
  constructor
  · rintro ⟨sum, ⟨hb, -, -, hs⟩, hc, hv⟩
    exact ⟨hb, hc, hv.trans hs⟩
  · rintro ⟨hb, hc, hv⟩
    -- the posting itself shows that the exact sum is within the budget
    exact ⟨.fromDecimal m.amount, ⟨hb, inBudget_fromDecimal _,
      inBudget_fromDecimal _, (toRat_fromDecimal_amount m).trans hv⟩,
      hc, (toRat_fromDecimal_amount m).symm⟩

/-- The functional balance after a delta: none on the tax grain or without functional money. -/
def finalFunctional (g : GrainDelta) (functional : Option PostedMoney) :
    Except ProjectError (Option PostedMoney) :=
  if g.tableRank = .tax then .ok none
  else
    match g.functionalCurrency with
    | none => .ok none
    | some c => (finalAmount g.functionalDelta functional c).map some

/-- The balances after a delta.  A stored balance means that the row exists; the tax grain carries
no functional balance. -/
def finalBalances (g : GrainDelta) (stored functional : Option PostedMoney) :
    Except ProjectError (PostedMoney × Option PostedMoney) := do
  forSome stored fun m => matchCurrency g.currencySpec m.currency
  onlyIf (stored.isSome ∧ g.tableRank ≠ .tax)
    (matchFunctional g.functionalCurrency (functional.map (·.currency)))
  let balance ← finalAmount g.delta stored g.currencySpec
  rejectIf
    ((g.accountClass.isGuarded = true ∨ g.tableRank = .reusableCredit) ∧
      balance.amount < Decimal.zero)
    (.negativeBalance g.accountId (canonicalDecimal balance.amount))
  let functional ← finalFunctional g functional
  return (balance, functional)

variable {functional : Option PostedMoney} {g : GrainDelta} {b : PostedMoney}

theorem finalFunctional_eq_ok_none_iff : finalFunctional g functional = .ok none ↔
      g.tableRank = .tax ∨ g.functionalCurrency = none := by
  unfold finalFunctional
  by_cases ht : g.tableRank = .tax
  · simp [ht]
  · cases hc : g.functionalCurrency <;> simp [ht]

theorem finalFunctional_eq_ok_some_iff {f : PostedMoney} :
    finalFunctional g functional = .ok (some f) ↔ g.tableRank ≠ .tax ∧
      g.functionalCurrency = some f.currency ∧ (∀ s ∈ functional, s.currency = f.currency) ∧
      g.functionalDelta.InBudget ∧
      f.value = g.functionalDelta.toRat + functional.elim 0 PostedMoney.value := by
  unfold finalFunctional
  by_cases ht : g.tableRank = .tax
  · simp [ht]
  · cases hc : g.functionalCurrency with
    | none => simp [ht]
    | some c =>
      simp only [ht, ↓reduceIte, map_eq_ok_iff, finalAmount_eq_ok_iff, Option.some.injEq,
        exists_eq_right, ne_eq, not_false_eq_true, true_and]
      constructor
      · rintro ⟨hs, hd, rfl, hv⟩
        exact ⟨rfl, hs, hd, hv⟩
      · rintro ⟨rfl, hs, hd, hv⟩
        exact ⟨hs, hd, rfl, hv⟩

theorem finalBalances_eq_ok_iff {stored f : Option PostedMoney} :
    finalBalances g stored functional = .ok (b, f) ↔ (∀ s ∈ stored, s.currency = g.currencySpec) ∧
      (stored.isSome ∧ g.tableRank ≠ .tax → g.functionalCurrency = functional.map (·.currency)) ∧
      g.delta.InBudget ∧ b.currency = g.currencySpec ∧
      b.value = g.delta.toRat + stored.elim 0 PostedMoney.value ∧
      (g.accountClass.isGuarded = true ∨ g.tableRank = .reusableCredit → 0 ≤ b.value) ∧
      finalFunctional g functional = .ok f := by
  have hneg : ∀ m : PostedMoney, ¬((g.accountClass.isGuarded = true ∨
      g.tableRank = .reusableCredit) ∧ m.amount < Decimal.zero) ↔
      (g.accountClass.isGuarded = true ∨ g.tableRank = .reusableCredit → 0 ≤ m.value) := by
    intro m
    rw [Decimal.lt_iff, Decimal.toRat_zero, not_and, not_lt]
    rfl
  simp only [finalBalances, ok_iffs, forSome_eq_ok_iff, matchCurrency_eq_ok_iff,
    onlyIf_eq_ok_iff, matchFunctional_eq_ok_iff, finalAmount_eq_ok_iff, hneg, exists_const,
    Prod.mk.injEq]
  constructor
  · rintro ⟨-, h₂, _, ⟨h₁, h₃, h₄, h₅⟩, h₆, _, h₇, rfl, rfl⟩
    exact ⟨h₁, h₂, h₃, h₄, h₅, h₆, h₇⟩
  · rintro ⟨h₁, h₂, h₃, h₄, h₅, h₆, h₇⟩
    exact ⟨fun s hs => (h₁ s hs).symm, h₂, b, ⟨h₁, h₃, h₄, h₅⟩, h₆, f, h₇, rfl, rfl⟩

/-- Versions are counters: `i64::checked_add`. -/
def nextVersion (version : ℤ) : Except ProjectError ℤ :=
  if version + 1 < 2 ^ 63 then .ok (version + 1) else .error (.db "cache version overflow")

/-- The columns every cache writes when a row is first inserted. -/
def freshRow (g : GrainDelta) (seq : ℤ) (balance : PostedMoney)
    (functional disputed : Option PostedMoney) : CacheRow where
  accountId := g.accountId
  balance := balance
  functional := functional
  classification := none
  disputed := disputed
  originalPostedAt := none
  dueDate := none
  firstGrantedAt := none
  lastEntrySeq := seq
  version := 0

/-- Read a row, compute its post-state and publish it.  The six caches differ in the key they
read, in a further check of the stored row, in the disputed column and in the columns that are
stamped when the row is first written. -/
def upsertRow (key : BusinessKey) (verify : CacheRow → Except ProjectError Unit)
    (dispute : Option CacheRow → PostedMoney → Except ProjectError (Option PostedMoney))
    (stamp : CacheRow → CacheRow) (caches : Caches) (g : GrainDelta) (seq : ℤ) :
    Except ProjectError Caches :=
  match caches key with
  | some r => do
    rejectIf (r.accountId ≠ g.accountId) (cacheAccountMismatch g r.accountId)
    verify r
    let (balance, functional) ← finalBalances g (some r.balance) r.functional
    let disputed ← dispute (some r) balance
    let version ← nextVersion r.version
    return Function.update caches key
      (some { r with balance, functional, disputed, version, lastEntrySeq := seq })
  | none => do
    let (balance, functional) ← finalBalances g none none
    let disputed ← dispute none balance
    return Function.update caches key (some (stamp (freshRow g seq balance functional disputed)))

theorem upsertRow_eq_ok_iff {key : BusinessKey} {verify : CacheRow → Except ProjectError Unit}
    {dispute : Option CacheRow → PostedMoney → Except ProjectError (Option PostedMoney)}
    {stamp : CacheRow → CacheRow} {caches caches' : Caches} {seq : ℤ} :
    upsertRow key verify dispute stamp caches g seq = .ok caches' ↔
      (∃ r b f d v, caches key = some r ∧ r.accountId = g.accountId ∧ verify r = .ok () ∧
        finalBalances g (some r.balance) r.functional = .ok (b, f) ∧
        dispute (some r) b = .ok d ∧ nextVersion r.version = .ok v ∧
        caches' = Function.update caches key (some { r with
          balance := b, functional := f, disputed := d, version := v, lastEntrySeq := seq })) ∨
      ∃ b f d, caches key = none ∧ finalBalances g none none = .ok (b, f) ∧ dispute none b = .ok d ∧
        caches' = Function.update caches key (some (stamp (freshRow g seq b f d))) := by
  unfold upsertRow
  cases hk : caches key with
  | none =>
    simp only [ok_iffs, Prod.exists, reduceCtorEq, false_and, exists_false, true_and,
      false_or, eq_comm (b := caches')]
    constructor
    · rintro ⟨b, f, hb, d, hd, he⟩
      exact ⟨b, f, d, hb, hd, he⟩
    · rintro ⟨b, f, d, hb, hd, he⟩
      exact ⟨b, f, hb, d, hd, he⟩
  | some r =>
    simp only [ok_iffs, not_not, Prod.exists, reduceCtorEq, false_and, exists_false,
      or_false, exists_const, Option.some.injEq, eq_comm (b := caches')]
    constructor
    · rintro ⟨ha, ⟨⟩, hv, b, f, hb, d, hd, v, hv', he⟩
      exact ⟨r, b, f, d, v, rfl, ha, hv, hb, hd, hv', he⟩
    · rintro ⟨_, b, f, d, v, rfl, ha, hv, hb, hd, hv', he⟩
      exact ⟨ha, (), hv, b, f, hb, d, hd, v, hv', he⟩

variable (caches : Caches)

/-- The account cache also stores the account's classification, which must not change. -/
def upsertAccountBalance (g : GrainDelta) (seq : ℤ) : Except ProjectError Caches :=
  upsertRow (.account g.tenantId g.accountId g.currency)
    (fun r => rejectIf (r.classification ≠ some (g.accountClass, g.normalSide))
      (.db "cache account classification mismatch"))
    (fun _ _ => .ok none)
    (fun r => { r with classification := some (g.accountClass, g.normalSide) }) caches g seq

/-- Upsert a payer's receivable balance. -/
def upsertArPayer (g : GrainDelta) (seq : ℤ) : Except ProjectError Caches :=
  upsertRow (.arPayer g.tenantId g.payerTenantId g.accountId g.currency) (fun _ => .ok ())
    (fun _ _ => .ok none) id caches g seq

/-- The disputed part of an invoice balance: the stored part must be within the stored total, and
the new part within the new total. -/
def finalDisputed (g : GrainDelta) (existing : Option CacheRow) (balance : PostedMoney) :
    Except ProjectError (Option PostedMoney) := do
  forSome existing fun r => forSome r.disputed fun d =>
    rejectIf (d.amount < Decimal.zero ∨ r.balance.amount < d.amount)
      (.repo (.invalidStoredMoney "disputed balance outside total"))
  let disputed ← finalAmount g.disputedDelta (existing.bind (·.disputed)) g.currencySpec
  rejectIf (disputed.amount < Decimal.zero ∨ balance.amount < disputed.amount)
    (.db "disputed balance must be within total balance")
  return some disputed

theorem lt_zero_or_lt_iff {d : PostedMoney} :
    ¬(d.amount < Decimal.zero ∨ b.amount < d.amount) ↔ 0 ≤ d.value ∧ d.value ≤ b.value := by
  rw [Decimal.lt_iff, Decimal.lt_iff, Decimal.toRat_zero, not_or, not_lt, not_lt]
  rfl

theorem finalDisputed_eq_ok_iff {existing : Option CacheRow} {o : Option PostedMoney} :
    finalDisputed g existing b = .ok o ↔
      (∀ r ∈ existing, ∀ d ∈ r.disputed, 0 ≤ d.value ∧ d.value ≤ r.balance.value) ∧
      ∃ d, o = some d ∧
        finalAmount g.disputedDelta (existing.bind (·.disputed)) g.currencySpec = .ok d ∧
        0 ≤ d.value ∧ d.value ≤ b.value := by
  simp only [finalDisputed, ok_iffs, forSome_eq_ok_iff, lt_zero_or_lt_iff, exists_const]
  refine and_congr_right fun _ => ?_
  constructor
  · rintro ⟨d, hd, hr, rfl⟩
    exact ⟨d, rfl, hd, hr⟩
  · rintro ⟨d, rfl, hd, hr⟩
    exact ⟨d, hd, hr, rfl⟩

/-- The invoice cache keeps the disputed part, and the dates of its first posting. -/
def upsertArInvoice (g : GrainDelta) (seq : ℤ) : Except ProjectError Caches :=
  upsertRow (.arInvoice g.tenantId g.payerTenantId g.accountId g.invoiceId) (fun _ => .ok ())
    (finalDisputed g)
    (fun r => { r with originalPostedAt := some g.postedAt, dueDate := g.dueDate }) caches g seq

/-- Upsert a payer's unapplied money. -/
def upsertUnallocated (g : GrainDelta) (seq : ℤ) : Except ProjectError Caches :=
  upsertRow (.unallocated g.tenantId g.payerTenantId g.currency) (fun _ => .ok ())
    (fun _ _ => .ok none) id caches g seq

/-- The credit cache keeps the instant of the first grant. -/
def upsertReusableCredit (g : GrainDelta) (seq : ℤ) : Except ProjectError Caches :=
  upsertRow (.reusableCredit g.tenantId g.payerTenantId g.currency g.creditGrantEventType)
    (fun _ => .ok ()) (fun _ _ => .ok none)
    (fun r => { r with firstGrantedAt := g.firstGrantedAt }) caches g seq

/-- Upsert the tax balance of a jurisdiction and filing period. -/
def upsertTax (g : GrainDelta) (seq : ℤ) : Except ProjectError Caches :=
  upsertRow (.tax g.tenantId g.accountId g.taxJurisdiction g.taxFilingPeriod) (fun _ => .ok ())
    (fun _ _ => .ok none) id caches g seq

/-- Upsert one grain. -/
def upsertGrain (seq : ℤ) (caches : Caches) (g : GrainDelta) : Except ProjectError Caches :=
  match g.tableRank with
  | .account => upsertAccountBalance caches g seq
  | .arPayer => upsertArPayer caches g seq
  | .arInvoice => upsertArInvoice caches g seq
  | .unallocated => upsertUnallocated caches g seq
  | .reusableCredit => upsertReusableCredit caches g seq
  | .tax => upsertTax caches g seq

/-- Project a posted entry: derive its grains and upsert them in lock order. -/
def project (entry : NewEntry) (lines : List NewLine)
    (normalSides : Uuid → Option Side) (createdSeq : ℤ) : Except ProjectError Caches := do
  let grains ← deriveGrains entry lines normalSides
  grains.foldlM (upsertGrain createdSeq) caches

end Gears.Ledger
