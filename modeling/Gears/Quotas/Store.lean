import Gears.Quotas.Model
import Gears.Quotas.Apportion

/-!
# Counter rows, holds and records

The tables a quota transaction works on, and the pieces every transaction is made of.

* `Store` : the tables, with the rollover events emitted so far.
* `Store.ensureCurrentPeriod` : the row a consumption quota accumulates into.
* `Store.returnExpiredHolds` : expired holds are given back by whoever holds the row.
* `Store.settleElapsedRows` : elapsed rows without live holds are closed.
* `Store.debitCounter`, `Store.creditCounter` : the two ways a counter moves.

A period row is named by the start of its window, which is unique for each quota.  A deleted
record stays in the list with a mark, so that the movements it recorded stay in view.
-/

namespace Gears.Quotas

/-- The counter row a movement or a hold belongs to; the allocation row has no period. -/
structure RowKey where
  quotaId : Uuid
  period : Option ℤ
  deriving DecidableEq, Repr

/-- A counter row: of one period of a consumption quota, or of an allocation quota. -/
structure CounterRow where
  quotaId : Uuid
  window : Option PeriodWindow
  value : ℕ
  marker : Option ℕ
  settled : Bool
  deriving DecidableEq, Repr

/-- Where a lease stands. -/
inductive LeaseState
  | active
  | committed
  | released
  | autoReleased
  | resolvedByDeactivation
  deriving DecidableEq, Repr

/-- A lease. -/
structure Lease where
  token : Uuid
  tenantId : Uuid
  metric : String
  subjectKey : ℕ
  attribution : ℕ
  state : LeaseState
  reservedAmount : ℕ
  expiryAt : ℤ
  deriving DecidableEq, Repr

/-- What a lease holds on one quota. -/
structure Hold where
  leaseToken : Uuid
  key : RowKey
  heldAmount : ℕ
  returnedAt : Option ℤ
  deriving DecidableEq, Repr

/-- One counter movement, as a record stores it. -/
structure AppliedEntry where
  key : RowKey
  amount : ℕ
  value : ℕ
  deriving DecidableEq, Repr

/-- The operations that write records. -/
inductive OperationType
  | debit
  | credit
  | rollback
  | reserve
  | commit
  | release
  | batchDebit
  deriving DecidableEq, Repr

/-- The key of a record. -/
structure IdempotencyScope where
  tenantId : Uuid
  subjectKey : ℕ
  operationType : OperationType
  key : String
  deriving DecidableEq, Repr

/-- What a caller sends to make an operation repeatable. -/
structure IdempotencyWrite where
  scope : IdempotencyScope
  payloadHash : ℕ
  deriving DecidableEq, Repr

/-- A recorded operation.  `entries` is the column a rollback reads; `moved` is every movement the
operation made, which a batch leaves out of the column. -/
structure IdempotencyRecord where
  scope : IdempotencyScope
  payloadHash : ℕ
  entries : List AppliedEntry
  moved : List AppliedEntry
  attribution : Option ℕ
  reversedByKey : Option String
  expiresAt : ℤ
  deleted : Bool
  deriving DecidableEq, Repr

/-- The event that closes a period. -/
structure PeriodRollover where
  key : RowKey
  closingConsumed : ℕ
  closingCap : Option ℕ
  newPeriodBoundary : ℤ
  deriving DecidableEq, Repr

/-- The tables.  `givenBack` lists the holds whose capacity was given back, in order. -/
structure Store where
  quotas : List Quota
  rows : List CounterRow
  leases : List Lease
  holds : List Hold
  records : List IdempotencyRecord
  rollovers : List PeriodRollover
  givenBack : List (Uuid × Uuid)
  deriving DecidableEq, Repr

/-- The failures of a transaction. -/
inductive StorageError
  | counterOverflow (quotaId : Uuid)
  | counterMissing (key : RowKey)
  | notApplicable (quotaId : Uuid)
  | quotaNotFound (id : Uuid)
  | quotaDeactivated (id : Uuid)
  | quotaExists (id : Uuid)
  | subjectOutOfScope
  | evaluationFailed (engineId : String) (failure : String)
  | planInvariant (failure : DebitPlanInvariant)
  | idempotencyPayloadMismatch
  | raced (scope : IdempotencyScope)
  | operationNotFound (key : String)
  | periodClosed
  | leaseNotFound (token : Uuid)
  | leaseNotActive (token : Uuid)
  | leaseInflightLimitExceeded
  | leaseExists (token : Uuid)
  | overCommitNotAuthorized (reserved actual : ℕ)
  | apportionOverflow
  | amountDoesNotFit
  | capBelowConsumed (newCap consumed : ℕ)
  | thresholdsRequireBoundedCap
  /-- The clock's addition panics past its last instant, and the transaction rolls back. -/
  | instantOverflow
  deriving DecidableEq, Repr

/-- The largest value a counter column stores. -/
def maxStored : ℕ := 2 ^ 63 - 1

namespace CounterRow

/-- The key of the row. -/
def key (row : CounterRow) : RowKey := ⟨row.quotaId, row.window.map (·.start)⟩

/-- The start of the row's period. -/
def start (row : CounterRow) : ℤ := (row.window.map (·.start)).getD 0

/-- The row's period contains the instant. -/
def Contains (row : CounterRow) (now : ℤ) : Prop := ∃ w ∈ row.window, w.Contains now

instance (row : CounterRow) (now : ℤ) : Decidable (row.Contains now) :=
  inferInstanceAs (Decidable (∃ w ∈ row.window, w.Contains now))

/-- The row's period has ended. -/
def HasElapsed (row : CounterRow) (now : ℤ) : Prop := ∃ w ∈ row.window, w.HasElapsed now

instance (row : CounterRow) (now : ℤ) : Decidable (row.HasElapsed now) :=
  inferInstanceAs (Decidable (∃ w ∈ row.window, w.HasElapsed now))

end CounterRow

/-- The lease is active and past its expiry. -/
def Lease.Expired (lease : Lease) (now : ℤ) : Prop := lease.state = .active ∧ lease.expiryAt ≤ now

instance (lease : Lease) (now : ℤ) : Decidable (lease.Expired now) :=
  inferInstanceAs (Decidable (_ ∧ _))

/-- The lease is active and not yet expired. -/
def Lease.Live (lease : Lease) (now : ℤ) : Prop := lease.state = .active ∧ now < lease.expiryAt

instance (lease : Lease) (now : ℤ) : Decidable (lease.Live now) :=
  inferInstanceAs (Decidable (_ ∧ _))

/-- Nobody has given the hold back. -/
def Hold.Unreturned (hold : Hold) : Prop := hold.returnedAt = none

instance (hold : Hold) : Decidable hold.Unreturned := inferInstanceAs (Decidable (_ = none))

namespace Store

/-- The empty tables. -/
def empty : Store := ⟨[], [], [], [], [], [], []⟩

/-! ### Counter rows -/

variable (s : Store) (key : RowKey)

/-- The row with a key. -/
def findRow : Option CounterRow := s.rows.find? (·.key = key)

/-- The period rows of a quota. -/
def periodRows (quotaId : Uuid) : List CounterRow :=
  s.rows.filter fun row => row.quotaId = quotaId ∧ row.window.isSome

-- the order of the integers has a noncomputable instance too; this names the one that computes
local instance (priority := high) intOrder : Preorder ℤ := Int.instLinearOrder.toPreorder

/-- The quota's most recent period row. -/
def findLatest (quotaId : Uuid) : Option CounterRow :=
  (s.periodRows quotaId).argmax (·.start)

variable (quota : Quota) (now : ℤ)

/-- The window a quota's period type puts `now` in. -/
def windowOf : PeriodWindow :=
  (quota.period.getD .oneTime).windowContaining now

/-- A new period row with a zero counter and no threshold marker. -/
def newPeriod : CounterRow :=
  ⟨quota.id, some (windowOf quota now), 0, none, false⟩

/-- Insert a counter row. -/
def addRow (row : CounterRow) : Store := { s with rows := s.rows ++ [row] }

/-- The row a consumption quota accumulates into at `now`.  The key of the row is unique: an
insert that meets it reads the latest row instead. -/
def ensureCurrentPeriod : Except StorageError (CounterRow × Store) :=
  let current := (s.findLatest quota.id).filter fun row => row.Contains now
  match current with
  | some row => .ok (row, s)
  | none =>
    let row := newPeriod quota now
    if (s.findRow row.key).isSome then
      match s.findLatest quota.id with
      | some latest => .ok (latest, s)
      | none => .error (.counterMissing row.key)
    else .ok (row, s.addRow row)

/-- The row a charge of the quota at `now` moves. -/
def chargedRow : Except StorageError (CounterRow × Store) :=
  match quota.quotaType with
  | .consumption => s.ensureCurrentPeriod quota now
  | .allocation =>
    match s.findRow ⟨quota.id, none⟩ with
    | some row => .ok (row, s)
    | none => .error (.counterMissing ⟨quota.id, none⟩)

/-- Write a row's counter and threshold marker. -/
def writeCounter (value : ℕ) (marker : Option ℕ) : Store :=
  { s with
    rows := s.rows.map fun row => if row.key = key then { row with value, marker } else row }

/-! ### Holds -/

/-- The hold's lease is active and expired. -/
def ExpiredHold (hold : Hold) : Prop :=
  ∃ lease ∈ s.leases, lease.token = hold.leaseToken ∧ lease.Expired now

instance (hold : Hold) : Decidable (s.ExpiredHold now hold) :=
  inferInstanceAs (Decidable (∃ lease ∈ s.leases, _))

/-- The expired holds of a row that nobody has given back. -/
def unreturnedExpiredHolds : List Hold :=
  s.holds.filter fun hold => hold.key = key ∧ hold.Unreturned ∧ s.ExpiredHold now hold

/-- What expired holds still occupy on a row. -/
def unreturnedExpired : ℕ :=
  ((s.unreturnedExpiredHolds key now).map (·.heldAmount)).sum

/-- Stamp the holds that a test selects and that nobody has given back. -/
def stampHolds (select : Hold → Prop) [DecidablePred select] (now : ℤ) : Store :=
  { s with
    holds := s.holds.map fun hold =>
      if hold.Unreturned ∧ select hold then { hold with returnedAt := some now } else hold
    givenBack := s.givenBack ++ (s.holds.filter fun hold => hold.Unreturned ∧ select hold).map
      fun hold => (hold.leaseToken, hold.key.quotaId) }

/-- Give back every expired hold on a row, and say what that came to. -/
def returnExpiredHolds : ℕ × Store :=
  (s.unreturnedExpired key now,
    s.stampHolds (fun hold => hold.key = key ∧ s.ExpiredHold now hold) now)

/-- A live lease still holds something on the row. -/
def HasLiveHolds : Prop :=
  ∃ hold ∈ s.holds, hold.key = key ∧ hold.Unreturned ∧
    ∃ lease ∈ s.leases, lease.token = hold.leaseToken ∧ lease.Live now

instance : Decidable (s.HasLiveHolds key now) :=
  inferInstanceAs (Decidable (∃ hold ∈ s.holds, _))

/-- The lease's hold on one quota. -/
def ofLease (token quotaId : Uuid) (hold : Hold) : Prop :=
  hold.leaseToken = token ∧ hold.key.quotaId = quotaId

instance (token quotaId : Uuid) : DecidablePred (ofLease token quotaId) :=
  fun _ => inferInstanceAs (Decidable (_ ∧ _))

/-- Stamp one hold; false when it was stamped before. -/
def markHoldReturned (token quotaId : Uuid) (now : ℤ) : Bool × Store :=
  (decide (∃ hold ∈ s.holds, ofLease token quotaId hold ∧ hold.Unreturned),
    s.stampHolds (ofLease token quotaId) now)

/-- Mark a row settled, with the event that says so. -/
def closeRow (event : PeriodRollover) : Store :=
  { s with
    rows := s.rows.map fun row => if row.key = key then { row with settled := true } else row
    rollovers := s.rollovers ++ [event] }

/-- Close one elapsed row unless a live lease still holds something on it. -/
def settleRow (s : Store) (row : CounterRow) : Store :=
  if s.HasLiveHolds row.key now then s
  else
    let (owed, s) := s.returnExpiredHolds row.key now
    s.closeRow row.key
      ⟨row.key, row.value - owed, quota.cap, (row.window.map (·.end)).getD 0⟩

/-- The elapsed rows of a quota that are not settled, oldest first. -/
def elapsedUnsettled (quotaId : Uuid) (now : ℤ) : List CounterRow :=
  (s.rows.filter fun row => row.quotaId = quotaId ∧ !row.settled ∧ row.HasElapsed now).sortByKey
    (·.start)

/-- Settle every elapsed row of a quota, with one rollover event each. -/
def settleElapsedRows : Store :=
  (s.elapsedUnsettled quota.id now).foldl (settleRow quota now) s

/-- Raise one quota's counter, with the thresholds the move crossed. -/
def debitCounter (amount : ℕ) (now : ℤ) :
    Except StorageError (AppliedEntry × Option ThresholdCrossing × Store) := do
  let (row, s) ← s.chargedRow quota now
  let (expired, s) := s.returnExpiredHolds row.key now
  let pre := row.value - expired
  let post := pre + amount
  .rejectIf (maxStored < post) (.counterOverflow quota.id)
  let crossing := thresholdCrossings quota.id pre post quota.cap quota.notificationThresholds
    row.marker
  let marker := (crossing.map (·.highestCrossedThreshold)).or row.marker
  -- thresholds of a period that is over are marked but not reported
  let silent := row.HasElapsed now
  return (⟨row.key, amount, post⟩, if silent then none else crossing,
    s.writeCounter row.key post marker)

/-- Lower one counter, flooring at zero. -/
def creditCounter (amount : ℕ) (now : ℤ) : Except StorageError (ℕ × Store) :=
  match s.findRow key with
  | none => .error (.counterMissing key)
  | some row =>
    let (expired, s) := s.returnExpiredHolds key now
    let pre := row.value - expired
    if expired = 0 ∧ amount = 0 then .ok (pre, s)
    else .ok (pre - amount, s.writeCounter key (pre - amount) row.marker)

/-- The record under a key that has neither expired nor been deleted. -/
def findRecord (scope : IdempotencyScope) (now : ℤ) : Option IdempotencyRecord :=
  s.records.find? fun record => record.scope = scope ∧ !record.deleted ∧ now < record.expiresAt

/-- The record an attempt repeats; a different payload under its key is refused. -/
def replayOf (write : IdempotencyWrite) (now : ℤ) :
    Except StorageError (Option IdempotencyRecord) :=
  match s.findRecord write.scope now with
  | none => .ok none
  | some record =>
    if record.payloadHash = write.payloadHash then .ok (some record)
    else .error .idempotencyPayloadMismatch

/-- Delete the expired record under a key. -/
def deleteExpiredAtKey (scope : IdempotencyScope) (now : ℤ) : Store :=
  { s with
    records := s.records.map fun record =>
      if record.scope = scope ∧ record.expiresAt ≤ now then { record with deleted := true }
      else record }

/-- A clock reading plus a duration in nanoseconds. -/
def addDuration (now : ℤ) (duration : ℕ) : Except StorageError ℤ := do
  .rejectIf (maxInstant < now + duration) .instantOverflow
  return now + duration

/-- The retention deadline of a record written now.  Retentions are configured in seconds. -/
def expiresAt (retention : ℕ) (now : ℤ) : Except StorageError ℤ :=
  addDuration now (retention * 1000000000)

/-- Insert the record of an operation; a record that is already there wins. -/
def writeRecord (write : IdempotencyWrite) (entries moved : List AppliedEntry)
    (attribution : Option ℕ) (expiresAt now : ℤ) : Except StorageError Store :=
  let s := s.deleteExpiredAtKey write.scope now
  if ∃ record ∈ s.records, record.scope = write.scope ∧ record.deleted = false then
    .error (.raced write.scope)
  else
    .ok { s with
      records := s.records ++
        [⟨write.scope, write.payloadHash, entries, moved, attribution, none, expiresAt, false⟩] }

/-- Mark the record under a key as reversed. -/
def markReversed (scope : IdempotencyScope) (byKey : String) : Store :=
  { s with
    records := s.records.map fun record =>
      if record.scope = scope ∧ record.deleted = false ∧ record.reversedByKey = none then
        { record with reversedByKey := some byKey }
      else record }

end Store

end Gears.Quotas
