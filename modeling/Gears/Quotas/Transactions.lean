import Gears.Lib.Machine
import Gears.Quotas.Store

/-!
# Quota transactions

Each transaction is one function on the tables: it commits a new state or fails and leaves the
tables as they were.

* `Store.debit`, `Store.batchDebit`, `Store.acquireLease` : transactions that evaluate a policy.
* `Store.settleLease` : the commit and the release of a lease.
* `Store.reclaimExpiredLeases`, `Store.deactivateQuota` : leases resolved by somebody else.
* `Store.updateQuota`, `Store.applyRollback`, `Store.applyCredit` : the rest.
* `Event`, `Store.step` : one committed transaction.
-/

namespace Gears.Quotas

/-- The quotas an operation draws on. -/
structure ApplicableQuotas where
  tenantId : Uuid
  metric : String
  subjects : List SubjectRef
  deriving DecidableEq, Repr

/-- One evaluated operation: who it is for, how much, and the engine its policy selects. -/
structure EvaluatedMutation where
  applicable : ApplicableQuotas
  userProjection : Option String
  amount : ℕ
  idempotency : IdempotencyWrite
  authorized : ℕ
  engineId : String
  evaluate : EvaluationContext → Except String Decision
  /-- How long its metric's records are kept, in seconds. -/
  retention : ℕ

/-- How a lease is settled. -/
inductive Settlement
  | commit (actual : Option ℕ)
  | release
  deriving DecidableEq, Repr

namespace Settlement

/-- The operation a settlement records. -/
def operation : Settlement → OperationType
  | commit _ => .commit
  | release => .release

/-- The state a settlement leaves the lease in. -/
def state : Settlement → LeaseState
  | commit _ => .committed
  | release => .released

/-- What a settlement keeps of the reserved amount. -/
def kept : Settlement → ℕ → ℕ
  | commit actual, reserved => actual.getD reserved
  | release, _ => 0

end Settlement

/-- The answer of a transaction: a repetition, or the decisions it took. -/
inductive TransitionOutcome
  | noOp
  | applied (decisions : List Decision)
  deriving DecidableEq

/-- The plan that a settlement, a rollback or a credit reports. -/
def Decision.allowedWithPlan (plan : DebitPlan) : Decision := ⟨.allowed, plan⟩

namespace Store

/-! ### Evaluation -/

variable (s : Store)

/-- The active quotas of an applicable set, ascending by identifier. -/
def lockApplicable (applicable : ApplicableQuotas) : List Quota :=
  (s.quotas.filter fun quota => quota.active ∧ quota.tenantId = applicable.tenantId ∧
    quota.metric = applicable.metric ∧ quota.subject ∈ applicable.subjects).sortByKey (·.id.toNat)

/-- The row a quota's counter is read from, if it is there. -/
def currentRow (quota : Quota) (now : ℤ) : Option CounterRow :=
  match quota.quotaType with
  | .consumption => (s.findLatest quota.id).filter fun row => row.Contains now
  | .allocation => s.findRow ⟨quota.id, none⟩

/-- What an evaluation sees of a quota: its counter less the expired holds not yet returned. -/
def snapshotOf (now : ℤ) (quota : Quota) : QuotaSnapshot :=
  let current := s.currentRow quota now
  let stored := (current.map (·.value)).getD 0
  let owed := s.unreturnedExpired ⟨quota.id, current.bind fun row => row.key.period⟩ now
  ⟨quota.id, quota.subject, quota.quotaType, quota.cap, stored - owed, quota.validityWindow⟩

/-- The tier of a quota for one mutation. -/
def tierOf (m : EvaluatedMutation) (snapshot : QuotaSnapshot) : QuotaScopeTier :=
  if m.userProjection = some snapshot.subject.projectionType then .user else .tenant

/-- What the engine of a mutation decides on. -/
def contextOf (snapshots : List QuotaSnapshot) (m : EvaluatedMutation) (now : ℤ) :
    EvaluationContext :=
  ⟨m.engineId, m.amount, now, snapshots.map fun snapshot => ⟨snapshot, tierOf m snapshot⟩⟩

/-- Run the engine of a mutation over snapshots and check what it decides. -/
def decideOn (snapshots : List QuotaSnapshot) (m : EvaluatedMutation) (now : ℤ) :
    Except StorageError Decision := do
  let context := contextOf snapshots m now
  let decision ← (m.evaluate context).mapError (.evaluationFailed m.engineId)
  (EvaluationOutcome.validate decision context).mapError .planInvariant

/-- Charge one entry of a plan: settle what the quota outgrew, then move its counter. -/
def chargeEntry (settles : Quota → Bool) (missing : Uuid → StorageError) (quotas : List Quota)
    (now : ℤ) (done : List AppliedEntry × Store) (planned : Uuid × ℕ) :
    Except StorageError (List AppliedEntry × Store) :=
  match quotas.find? (·.id = planned.1) with
  | none => .error (missing planned.1)
  | some quota => do
    let s := if settles quota then done.2.settleElapsedRows quota now else done.2
    let (entry, _, s) ← s.debitCounter quota planned.2 now
    return (done.1 ++ [entry], s)

/-- Charge a plan, one quota after another. -/
def chargePlan (settles : Quota → Bool) (missing : Uuid → StorageError)
    (quotas : List Quota) (plan : DebitPlan) (now : ℤ) :
    Except StorageError (List AppliedEntry × Store) :=
  plan.entries.foldlM (chargeEntry settles missing quotas now) ([], s)

/-- Apply the plan of a debit. -/
def applyPlan (quotas : List Quota) (decision : Decision) (now : ℤ) :
    Except StorageError (List AppliedEntry × Store) :=
  s.chargePlan (fun quota => quota.quotaType = .consumption) .notApplicable quotas
    decision.debitPlan now

/-- Apply the plan of an acquisition: the same movements. -/
def holdPlan (quotas : List Quota) (decision : Decision) (now : ℤ) :
    Except StorageError (List AppliedEntry × Store) :=
  s.chargePlan (fun _ => true) .quotaNotFound quotas decision.debitPlan now

/-- Debit: evaluate, apply and record. -/
def debit (m : EvaluatedMutation) (now : ℤ) : Except StorageError (TransitionOutcome × Store) := do
  let quotas := s.lockApplicable m.applicable
  match ← s.replayOf m.idempotency now with
  | some _ => return (.noOp, s)
  | none =>
    let decision ← decideOn (quotas.map (s.snapshotOf now)) m now
    -- this denial leaves no record: the key can be used again once there is a quota
    if decision.deniedReason = some noApplicableQuota then return (.applied [decision], s)
    else
      let (entries, s) ←
        if decision.result = .allowed then s.applyPlan quotas decision now else .ok ([], s)
      let deadline ← expiresAt m.retention now
      let s ← s.writeRecord m.idempotency entries entries (some m.authorized) deadline now
      return (.applied [decision], s)

/-- Add what an allowed item would charge to the snapshots that later items see. -/
def planOnto (decision : Decision) (snapshots : List QuotaSnapshot) : List QuotaSnapshot :=
  if decision.result = .allowed then
    snapshots.map fun snapshot =>
      match decision.debitPlan.entries.find? (·.1 = snapshot.quotaId) with
      | some planned => { snapshot with consumed := snapshot.consumed + planned.2 }
      | none => snapshot
  else snapshots

/-- Evaluate one item of a batch against what the items before it would leave. -/
def evaluateItem (quotasOf : EvaluatedMutation → List Quota) (now : ℤ)
    (done : List Decision × List QuotaSnapshot) (m : EvaluatedMutation) :
    Except StorageError (List Decision × List QuotaSnapshot) := do
  let seen := (quotasOf m).filterMap fun quota => done.2.find? (·.quotaId = quota.id)
  let decision ← decideOn seen m now
  return (done.1 ++ [decision], planOnto decision done.2)

/-- Apply one item of a batch. -/
def applyItem (quotasOf : EvaluatedMutation → List Quota) (now : ℤ)
    (done : List AppliedEntry × Store) (item : EvaluatedMutation × Decision) :
    Except StorageError (List AppliedEntry × Store) := do
  let (entries, s) ← done.2.applyPlan (quotasOf item.1) item.2 now
  return (done.1 ++ entries, s)

/-- Batch debit: every item is applied, or none. -/
def batchDebit (items : List EvaluatedMutation) (envelope : IdempotencyWrite)
    (retention : ℕ) (now : ℤ) : Except StorageError (TransitionOutcome × Store) := do
  let quotasOf (m : EvaluatedMutation) := s.lockApplicable m.applicable
  match ← s.replayOf envelope now with
  | some _ => return (.noOp, s)
  | none =>
    let union := s.quotas.filter fun quota => ∃ m ∈ items, quota ∈ quotasOf m
    let (decisions, _) ← items.foldlM (evaluateItem quotasOf now) ([], union.map (s.snapshotOf now))
    -- every item is decided before the first one is applied
    let (entries, s) ←
      if ∀ decision ∈ decisions, decision.result = .allowed then
        (items.zip decisions).foldlM (applyItem quotasOf now) ([], s)
      else .ok ([], s)
    if ∃ decision ∈ decisions, decision.deniedReason = some noApplicableQuota then
      return (.applied decisions, s)
    else
      let deadline ← expiresAt retention now
      let s ← s.writeRecord envelope [] entries none deadline now
      return (.applied decisions, s)

/-! ### Leases -/

/-- The live leases of a tenant and metric. -/
def countLive (tenantId : Uuid) (metric : String) (now : ℤ) : ℕ :=
  (s.leases.filter fun lease =>
    lease.tenantId = tenantId ∧ lease.metric = metric ∧ lease.Live now).length

/-- Insert a lease with one hold for each movement of its plan. -/
def insertLease (lease : Lease) (entries : List AppliedEntry) : Except StorageError Store := do
  .rejectIf (∃ other ∈ s.leases, other.token = lease.token) (.leaseExists lease.token)
  .rejectIf (maxStored < lease.reservedAmount ∨ ∃ entry ∈ entries, maxStored < entry.amount)
    .amountDoesNotFit
  return { s with
    leases := s.leases ++ [lease]
    holds := s.holds ++ entries.map fun entry => ⟨lease.token, entry.key, entry.amount, none⟩ }

/-- Acquire a lease: hold the evaluated plan on every quota it names, or hold nothing. -/
def acquireLease (m : EvaluatedMutation) (token : Uuid) (ttl leaseCap : ℕ) (now : ℤ) :
    Except StorageError (TransitionOutcome × Store) := do
  let quotas := s.lockApplicable m.applicable
  match ← s.replayOf m.idempotency now with
  | some _ => return (.noOp, s)
  | none =>
    let decision ← decideOn (quotas.map (s.snapshotOf now)) m now
    if decision.deniedReason = some noApplicableQuota then return (.applied [decision], s)
    else
      let s ←
        if decision.result = .allowed ∧ decision.debitPlan.entries ≠ [] then do
          .rejectIf (leaseCap ≤ s.countLive m.applicable.tenantId m.applicable.metric now)
            .leaseInflightLimitExceeded
          let (entries, s) ← s.holdPlan quotas decision now
          let expiry ← addDuration now ttl
          s.insertLease ⟨token, m.applicable.tenantId, m.applicable.metric,
            m.idempotency.scope.subjectKey, m.authorized, .active, m.amount, expiry⟩ entries
        else .ok s
      let deadline ← expiresAt m.retention now
      let s ← s.writeRecord m.idempotency [] [] (some m.authorized) deadline now
      return (.applied [decision], s)

/-- The holds of a lease, ascending by quota. -/
def holdsOf (token : Uuid) : List Hold :=
  (s.holds.filter (·.leaseToken = token)).sortByKey (·.key.quotaId.toNat)

/-- The counter value of the row of a hold. -/
def counterValueOf (key : RowKey) : Except StorageError ℕ :=
  match s.findRow key with
  | some row => .ok row.value
  | none => .error (.counterMissing key)

/-- Move an active lease to its final state. -/
def markState (token : Uuid) (state : LeaseState) : Store :=
  { s with
    leases := s.leases.map fun lease =>
      if lease.token = token ∧ lease.state = .active then { lease with state } else lease }

/-- Split what a settlement keeps across the holds of the lease. -/
def keptOf (held : List ℕ) (reserved actual : ℕ) : Except StorageError (List ℕ) :=
  if reserved = 0 then .ok (held.map fun _ => 0)
  else
    (apportion held actual reserved).mapError fun
      | .overCommit => .overCommitNotAuthorized reserved actual
      | .overflow => .apportionOverflow

/-- Settle one hold: stamp it, and return what is not kept. -/
def settleHold (now : ℤ) (done : List AppliedEntry × Store) (item : Hold × ℕ) :
    Except StorageError (List AppliedEntry × Store) := do
  let hold := item.1
  let returned := hold.heldAmount - item.2
  let value ← done.2.counterValueOf hold.key
  let (owed, s) := done.2.markHoldReturned hold.leaseToken hold.key.quotaId now
  -- whoever stamped the hold before has returned its capacity
  .rejectIf (owed = false) (.leaseNotActive hold.leaseToken)
  let (value, s) ← if 0 < returned then s.creditCounter hold.key returned now else .ok (value, s)
  return (if 0 < item.2 then done.1 ++ [⟨hold.key, item.2, value⟩] else done.1, s)

/-- Settle a lease: a commit keeps its share, a release keeps nothing. -/
def settleLease (token : Uuid) (settlement : Settlement) (tenantId : Uuid)
    (key : String) (payloadHash retention : ℕ) (now : ℤ) :
    Except StorageError (TransitionOutcome × Store) :=
  match s.leases.find? (·.token = token) with
  | none => .error (.leaseNotFound token)
  | some lease => do
    .rejectIf (lease.tenantId ≠ tenantId) (.leaseNotFound token)
    let write : IdempotencyWrite :=
      ⟨⟨tenantId, lease.subjectKey, settlement.operation, key⟩, payloadHash⟩
    match ← s.replayOf write now with
    | some _ => return (.noOp, s)
    | none =>
      .rejectIf (¬ lease.Live now) (.leaseNotActive token)
      let holds := s.holdsOf token
      let kept ← keptOf (holds.map (·.heldAmount)) lease.reservedAmount
        (settlement.kept lease.reservedAmount)
      let (entries, s) ← (holds.zip kept).foldlM (settleHold now) ([], s)
      let s := s.markState token settlement.state
      let deadline ← expiresAt retention now
      -- only a commit is a debit that its own key can reverse
      let recorded := if settlement.operation = .commit then entries else []
      let attribution := if settlement.operation = .commit then some lease.attribution else none
      let s ← s.writeRecord write recorded recorded attribution deadline now
      return (.applied [], s)

/-- Give one hold back unless somebody already did. -/
def giveBack (now : ℤ) (s : Store) (hold : Hold) : Except StorageError Store := do
  let _ ← s.counterValueOf hold.key
  let (owed, s) := s.markHoldReturned hold.leaseToken hold.key.quotaId now
  if owed ∧ 0 < hold.heldAmount then
    let (_, s) ← s.creditCounter hold.key hold.heldAmount now
    return s
  else return s

/-- Resolve a lease for its holder: give every hold back and close it. -/
def resolveLease (state : LeaseState) (now : ℤ) (s : Store) (lease : Lease) :
    Except StorageError Store := do
  let s ← (s.holdsOf lease.token).foldlM (giveBack now) s
  return s.markState lease.token state

/-- The expiry sweep: expired leases are released, oldest expiry first. -/
def reclaimExpiredLeases (batchSize : ℕ) (before : ℤ) : Except StorageError Store :=
  (((s.leases.filter fun lease => lease.Expired before).sortByKey (·.expiryAt)).take
    batchSize).foldlM (resolveLease .autoReleased before) s

/-! ### Quotas -/

/-- Create a quota; an allocation quota starts with its counter row. -/
def createQuota (quota : Quota) : Except StorageError Store := do
  .rejectIf (∃ other ∈ s.quotas, other.id = quota.id) (.quotaExists quota.id)
  let row : CounterRow := ⟨quota.id, none, 0, none, false⟩
  let s := { s with quotas := s.quotas ++ [{ quota with active := true }] }
  if quota.quotaType = .allocation then
    .rejectIf (s.findRow row.key).isSome (.quotaExists quota.id)
    return s.addRow row
  else return s

/-- The quota, which must be active. -/
def lockActive (quotaId : Uuid) : Except StorageError Quota :=
  match s.quotas.find? (·.id = quotaId) with
  | none => .error (.quotaNotFound quotaId)
  | some quota => if quota.active then .ok quota else .error (.quotaDeactivated quotaId)

/-- Replace the quota of an identifier. -/
def setQuota (quotaId : Uuid) (f : Quota → Quota) : Store :=
  { s with quotas := s.quotas.map fun quota => if quota.id = quotaId then f quota else quota }

/-- Deactivate a quota and resolve the live leases that hold something on it. -/
def deactivateQuota (quotaId : Uuid) (now : ℤ) : Except StorageError Store := do
  let _ ← s.lockActive quotaId
  let s := s.setQuota quotaId fun quota => { quota with active := false }
  let holders := (s.leases.filter fun lease => lease.Live now ∧ ∃ hold ∈ s.holds,
    hold.leaseToken = lease.token ∧ hold.key.quotaId = quotaId ∧ hold.Unreturned).sortByKey
      (·.token.toNat)
  holders.foldlM (resolveLease .resolvedByDeactivation now) s

/-- The fields of a quota that an update sets. -/
structure QuotaUpdate where
  cap : Option (Option ℕ)
  notificationThresholds : Option (List ℕ)
  validity : Option (Option ValidityWindow)
  deriving DecidableEq, Repr

/-- The quota with the fields of an update. -/
def QuotaUpdate.merge (update : QuotaUpdate) (quota : Quota) : Quota :=
  { quota with
    cap := update.cap.getD quota.cap
    notificationThresholds := update.notificationThresholds.getD quota.notificationThresholds
    validityWindow := update.validity.getD quota.validityWindow }

/-- What the quota has consumed of its current period, with its expired holds given back. -/
def consumedUnderLock (quota : Quota) (now : ℤ) : Except StorageError (ℕ × Store) :=
  match quota.quotaType with
  | .allocation => s.creditCounter ⟨quota.id, none⟩ 0 now
  | .consumption =>
    match s.currentRow quota now with
    | some row => s.creditCounter row.key 0 now
    | none => .ok (0, s)

/-- The merged quota does not promise less than was used. -/
def checkMerged (merged : Quota) (consumed : ℕ) : Except StorageError Unit := do
  .forSome merged.cap fun cap => .rejectIf (cap < consumed) (.capBelowConsumed cap consumed)
  .rejectIf (merged.cap = none ∧ merged.notificationThresholds ≠ []) .thresholdsRequireBoundedCap

/-- Update a quota. -/
def updateQuota (quotaId : Uuid) (update : QuotaUpdate) (now : ℤ) : Except StorageError Store := do
  let quota ← s.lockActive quotaId
  let (consumed, s) ← s.consumedUnderLock quota now
  checkMerged (update.merge quota) consumed
  return s.setQuota quotaId update.merge

/-! ### Rollbacks and credits -/

/-- The row of an entry can still be reversed. -/
def checkReversible (key : String) (entry : AppliedEntry) : Except StorageError Unit := do
  .rejectIf (¬ ∃ quota ∈ s.quotas, quota.id = entry.key.quotaId) (.operationNotFound key)
  if entry.key.period.isSome then
    match s.findRow entry.key with
    | none => .error (.operationNotFound key)
    | some row => .rejectIf (row.settled = true) .periodClosed
  else .ok ()

/-- Credit one reversed entry. -/
def reverseEntry (now : ℤ) (s : Store) (entry : AppliedEntry) : Except StorageError Store := do
  let (_, s) ← s.creditCounter entry.key entry.amount now
  return s

/-- Credit back every entry of a record, unless one of its periods has settled. -/
def reverseEntries (key : String) (entries : List AppliedEntry) (now : ℤ) :
    Except StorageError Store := do
  let ordered := entries.sortByKey (·.key.quotaId.toNat)
  ordered.forM (s.checkReversible key)
  ordered.foldlM (reverseEntry now) s

/-- Reverse a recorded debit or commit, once. -/
def applyRollback (original : IdempotencyScope) (authorized : ℕ)
    (write : IdempotencyWrite) (retention : ℕ) (now : ℤ) :
    Except StorageError (TransitionOutcome × Store) := do
  match ← s.replayOf write now with
  | some _ => return (.noOp, s)
  | none =>
    match s.findRecord original now with
    | none => .error (.operationNotFound original.key)
    | some record => do
      .rejectIf (record.attribution ≠ some authorized) (.operationNotFound original.key)
      .rejectIf (record.entries = [] ∧ original.operationType ≠ .commit)
        (.operationNotFound original.key)
      -- a second rollback of the same operation is recorded and moves nothing
      if record.reversedByKey.isSome then
        let deadline ← expiresAt retention now
        let s ← s.writeRecord write [] [] none deadline now
        return (.applied [], s)
      else
        let s ← s.reverseEntries original.key record.entries now
        let deadline ← expiresAt retention now
        let s ← s.writeRecord write [] [] none deadline now
        return (.applied [], s.markReversed original write.scope.key)

/-- The row a credit goes to: the current one, materialized when the quota has none. -/
def creditedRow (quota : Quota) (now : ℤ) : Except StorageError (RowKey × Store) :=
  match quota.quotaType with
  | .allocation => .ok (⟨quota.id, none⟩, s)
  | .consumption => do
    .rejectIf (∃ row ∈ s.findLatest quota.id, row.HasElapsed now) .periodClosed
    let (row, s) ← s.ensureCurrentPeriod quota now
    return (row.key, s.settleElapsedRows quota now)

/-- Credit one quota explicitly. -/
def applyCredit (quotaId : Uuid) (amount : ℕ) (tenantId : Uuid) (subjectKey : ℕ)
    (key : String) (payloadHash retention : ℕ) (now : ℤ) :
    Except StorageError (TransitionOutcome × Store) :=
  match s.quotas.find? (·.id = quotaId) with
  | none => .error (.quotaNotFound quotaId)
  | some quota => do
    .rejectIf (quota.tenantId ≠ tenantId) .subjectOutOfScope
    let write : IdempotencyWrite := ⟨⟨tenantId, subjectKey, .credit, key⟩, payloadHash⟩
    match ← s.replayOf write now with
    | some _ => return (.noOp, s)
    | none =>
      .rejectIf (quota.active = false) (.quotaDeactivated quotaId)
      let (key, s) ← s.creditedRow quota now
      let (_, s) ← s.creditCounter key amount now
      let deadline ← expiresAt retention now
      let s ← s.writeRecord write [] [] none deadline now
      return (.applied [.allowedWithPlan (.single quotaId amount)], s)

end Store

/-- One committed transaction, with the clock it read. -/
inductive Event
  | createQuota (quota : Quota)
  | debit (mutation : EvaluatedMutation) (now : ℤ)
  | batchDebit (items : List EvaluatedMutation) (envelope : IdempotencyWrite) (retention : ℕ)
      (now : ℤ)
  | acquireLease (mutation : EvaluatedMutation) (token : Uuid) (ttl leaseCap : ℕ) (now : ℤ)
  | settleLease (token : Uuid) (settlement : Settlement) (tenantId : Uuid) (key : String)
      (payloadHash retention : ℕ) (now : ℤ)
  | reclaimExpiredLeases (batchSize : ℕ) (before : ℤ)
  | deactivateQuota (quotaId : Uuid) (now : ℤ)
  | updateQuota (quotaId : Uuid) (update : Store.QuotaUpdate) (now : ℤ)
  | rollback (original : IdempotencyScope) (authorized : ℕ) (write : IdempotencyWrite)
      (retention : ℕ) (now : ℤ)
  | credit (quotaId : Uuid) (amount : ℕ) (tenantId : Uuid) (subjectKey : ℕ) (key : String)
      (payloadHash retention : ℕ) (now : ℤ)

/-- Commit one transaction. -/
def Store.step (s : Store) : Event → Except StorageError Store
  | .createQuota quota => s.createQuota quota
  | .debit m now => (s.debit m now).map Prod.snd
  | .batchDebit items envelope retention now =>
    (s.batchDebit items envelope retention now).map Prod.snd
  | .acquireLease m token ttl leaseCap now =>
    (s.acquireLease m token ttl leaseCap now).map Prod.snd
  | .settleLease token settlement tenantId key payloadHash retention now =>
    (s.settleLease token settlement tenantId key payloadHash retention now).map Prod.snd
  | .reclaimExpiredLeases batchSize before => s.reclaimExpiredLeases batchSize before
  | .deactivateQuota quotaId now => s.deactivateQuota quotaId now
  | .updateQuota quotaId update now => s.updateQuota quotaId update now
  | .rollback original authorized write retention now =>
    (s.applyRollback original authorized write retention now).map Prod.snd
  | .credit quotaId amount tenantId subjectKey key payloadHash retention now =>
    (s.applyCredit quotaId amount tenantId subjectKey key payloadHash retention now).map Prod.snd

end Gears.Quotas
