import Gears.Outbox.Model

/-!
# The outbox: tables, statements and the two transactions of a pass

* `Db` : the tables a leased pass reads and writes.
* `acquireLeaseAndRead` : the transaction that opens a pass.
* `leaseGuardedAck` : the transaction that closes it; `none` when it was rolled back.
* `traceProgress` : how much of each trace an ack takes to its end.

The messages of a partition are listed in ascending order of their sequence numbers, which is the
order the statements read them in.
-/

namespace Gears.Outbox

/-- The databases the statements are written for. -/
inductive Dialect
  | postgres
  | sqlite
  | mySql
  deriving DecidableEq, Repr

/-- Whether an update can return the rows it wrote. -/
def Dialect.supportsReturning : Dialect → Bool
  | mySql => false
  | _ => true

/-- The cursor and the lease of a partition. -/
structure ProcessorRow where
  processedSeq : ℤ
  attempts : ℤ
  lastError : Option String
  lockedBy : Option String
  lockedUntil : Option ℤ
  deriving DecidableEq, Repr

/-- A message that will not be delivered. -/
structure DeadLetter where
  partitionId : ℤ
  seq : ℤ
  payload : List UInt8
  payloadType : String
  createdAt : ℤ
  lastError : String
  attempts : ℤ
  trace : Option String
  deriving DecidableEq, Repr

/-- The account of one trace. -/
structure TraceRow where
  trace : String
  ownerInstance : String
  entities : ℤ
  pending : ℤ
  failures : ℤ
  attempts : ℤ
  lastError : Option String
  retryingSince : Option ℤ
  completedAt : Option ℤ
  notifiedAt : Option ℤ
  deriving DecidableEq, Repr

/-- What is handed to whoever waits for a trace. -/
structure TraceOutcome where
  trace : String
  entities : ℤ
  failures : ℤ
  attempts : ℤ
  completedAt : Option ℤ
  deriving DecidableEq, Repr

/-- The tables a leased pass works on. -/
structure Db where
  partitions : Finset ℤ
  processor : ℤ → ProcessorRow
  outgoing : ℤ → List OutgoingRow
  deadLetters : List DeadLetter
  traces : List TraceRow
  vacuumCounter : ℤ → ℕ

/-- Where and when a transaction of a pass runs. -/
structure ProcessContext where
  dialect : Dialect
  partitionId : ℤ
  instanceId : String
  now : ℤ
  deriving DecidableEq, Repr

/-- The trace of each traced message of a pass, by sequence number. -/
abbrev TraceIds := List (ℤ × String)

/-! ### Opening a pass -/

variable (db : Db)

/-- Write the processor row of a partition. -/
def Db.setProcessor (partitionId : ℤ) (row : ProcessorRow) : Db :=
  { db with processor := Function.update db.processor partitionId row }

/-- The lease of the row is free, or over. -/
def ProcessorRow.free (row : ProcessorRow) (now : ℤ) : Bool :=
  row.lockedBy.isNone || row.lockedUntil.any (· < now)

/-- `lease_acquire`: the cursor and the attempts of the partition, when its lease was taken. -/
def leaseAcquire (leaseId : String) (leaseSecs : ℤ) (ctx : ProcessContext) :
    Option ((ℤ × ℤ) × Db) :=
  let row := db.processor ctx.partitionId
  if ctx.partitionId ∈ db.partitions ∧ row.free ctx.now then
    some ((row.processedSeq, row.attempts + 1), db.setProcessor ctx.partitionId
      { row with
        lockedBy := some leaseId
        lockedUntil := some (ctx.now + leaseSecs)
        attempts := row.attempts + 1 })
  else none

/-- A row as its handler sees it. -/
def OutgoingRow.message (partitionId attempts : ℤ) (row : OutgoingRow) : OutboxMessage :=
  ⟨partitionId, row.seq, row.body.payload, row.body.payloadType, row.body.createdAt, attempts⟩

/-- The first rows beyond a cursor. -/
def Db.readOutgoingBatch (partitionId processedSeq : ℤ) (batchSize : ℕ) : List OutgoingRow :=
  ((db.outgoing partitionId).filter fun row => processedSeq < row.seq).take batchSize

/-- The trace of each traced row, by sequence number. -/
def traceIdsOf (rows : List OutgoingRow) : TraceIds :=
  rows.filterMap fun row => row.body.trace.map fun trace => (row.seq, trace)

/-- The messages of a pass and their traces. -/
def readMessages (partitionId processedSeq attempts : ℤ) (batchSize : ℕ) :
    List OutboxMessage × TraceIds :=
  let rows := db.readOutgoingBatch partitionId processedSeq batchSize
  (rows.map (·.message partitionId attempts), traceIdsOf rows)

/-- `lease_release`: give the lease back, if it is still held. -/
def leaseRelease (partitionId : ℤ) (leaseId : String) : Db :=
  let row := db.processor partitionId
  if row.lockedBy = some leaseId then
    db.setProcessor partitionId { row with attempts := 0, lockedBy := none, lockedUntil := none }
  else db

/-- The transaction that opens a pass: the cursor it starts from, its messages and their traces.
The handler is shown the attempts before this one. -/
def acquireLeaseAndRead (leaseId : String) (leaseSecs : ℤ) (batchSize : ℕ)
    (ctx : ProcessContext) : Option ((ℤ × List OutboxMessage × TraceIds) × Db) :=
  (leaseAcquire db leaseId leaseSecs ctx).map fun ((processedSeq, attempts), db') =>
    ((processedSeq, readMessages db' ctx.partitionId processedSeq (attempts - 1) batchSize), db')

/-! ### Traces -/

/-- How much of one trace an ack takes to its end. -/
structure TraceCountdown where
  trace : String
  terminal : ℕ
  failures : ℕ
  deriving DecidableEq, Repr

/-- Count one message of a trace. -/
def countInto (trace : String) (failed : Bool) : List TraceCountdown → List TraceCountdown
  | [] => [⟨trace, 1, if failed then 1 else 0⟩]
  | entry :: entries =>
    if entry.trace = trace then
      { entry with
        terminal := entry.terminal + 1
        failures := entry.failures + if failed then 1 else 0 } :: entries
    else entry :: countInto trace failed entries

variable (msgs : List OutboxMessage)

/-- How much of each trace an ack takes to its end, in the order of the traces. -/
def traceProgress (traceIds : TraceIds) (uptoSeq : ℤ) (failed : List ℤ) : List TraceCountdown :=
  let perTrace := (msgs.filter fun m => m.seq ≤ uptoSeq).foldl
    (fun entries msg =>
      match traceIds.lookup msg.seq with
      | some trace => countInto trace (failed.contains msg.seq) entries
      | none => entries) []
  perTrace.sortByKey TraceCountdown.trace

/-- What an advance of a trace reports. -/
inductive TraceAdvance
  | completed
  | stillPending
  | notAffected
  | unknown
  deriving DecidableEq, Repr

/-- The row of a trace that an advance counts down. -/
def TraceRow.advance (row : TraceRow) (countdown : TraceCountdown) (now : ℤ) : TraceRow :=
  { row with
    pending := row.pending - countdown.terminal
    failures := row.failures + countdown.failures
    attempts := if row.pending - countdown.terminal ≤ 0 then row.attempts else 0
    retryingSince := none
    lastError := none
    completedAt := if row.pending - countdown.terminal ≤ 0 then some now else row.completedAt }

/-- The rows an advance is made for. -/
def TraceRow.advances (row : TraceRow) (trace : String) : Bool :=
  row.trace = trace && 0 < row.pending

variable (ctx : ProcessContext)

/-- `trace_advance`. -/
def execTraceAdvance (countdown : TraceCountdown) : TraceAdvance × Db :=
  let db' := { db with
    traces := db.traces.map fun row =>
      if row.advances countdown.trace then row.advance countdown ctx.now else row }
  match db.traces.find? (·.advances countdown.trace) with
  | none => (.notAffected, db')
  | some row =>
    if ctx.dialect.supportsReturning then
      if row.pending - countdown.terminal ≤ 0 then (.completed, db') else (.stillPending, db')
    else (.unknown, db')

/-- The mail of a trace that is complete, undelivered and owned by this instance. -/
def TraceRow.claimable (row : TraceRow) (trace : String) (instanceId : String) : Bool :=
  row.trace = trace && row.pending ≤ 0 && row.notifiedAt.isNone && row.ownerInstance = instanceId

/-- `trace_claim_mail`. -/
def execClaimTraceMail (trace : String) : Option TraceOutcome × Db :=
  ((db.traces.find? (·.claimable trace ctx.instanceId)).map fun row =>
      ⟨row.trace, row.entities, row.failures, row.attempts, row.completedAt⟩,
    { db with
      traces := db.traces.map fun row =>
        if row.claimable trace ctx.instanceId then { row with notifiedAt := some ctx.now }
        else row })

/-- Count one trace down and claim its completion. -/
def advanceTrace (acc : List TraceOutcome × Db)
    (countdown : TraceCountdown) : List TraceOutcome × Db :=
  let (claimed, db) := acc
  match execTraceAdvance db ctx countdown with
  | (.stillPending, db) => (claimed, db)
  | (.notAffected, db) => (claimed, db)
  | (_, db) =>
    match execClaimTraceMail db ctx countdown.trace with
    | (some outcome, db) => (claimed ++ [outcome], db)
    | (none, db) => (claimed, db)

/-- Count each trace down, and claim the completions this instance owns. -/
def applyTraceProgress (progress : List TraceCountdown) : List TraceOutcome × Db :=
  progress.foldl (advanceTrace ctx) ([], db)

/-- The traces of the messages past a sequence number. -/
def tracesBeyond (traceIds : TraceIds) (uptoSeq : ℤ) : TraceIds :=
  (msgs.filter fun m => uptoSeq < m.seq).filterMap fun m =>
    (traceIds.lookup m.seq).map fun trace => (m.seq, trace)

/-- `trace_retry`. -/
def traceRetry (reason : String) (now : ℤ) (trace : String) : Db :=
  { db with
    traces := db.traces.map fun row =>
      if row.trace = trace ∧ row.completedAt = none then
        { row with
          attempts := row.attempts + 1
          lastError := some reason
          retryingSince := row.retryingSince.or (some now) }
      else row }

/-- Record that every trace of these is being retried. -/
def recordTraceRetry (traceIds : TraceIds) (reason : String) (now : ℤ) : Db :=
  (((traceIds.map (·.2)).sortByKey id).dedup).foldl (traceRetry · reason now) db

/-! ### Closing a pass -/

/-- The sequence numbers a list of rejections refers to. -/
def rejectedSeqs (rejections : List Rejection) : List ℤ :=
  rejections.filterMap fun rej => (msgs[rej.index]?).map (·.seq)

/-- The dead letter of a message. -/
def OutboxMessage.deadLetter (msg : OutboxMessage) (partitionId : ℤ) (reason : String)
    (trace : Option String) : DeadLetter :=
  ⟨partitionId, msg.seq, msg.payload, msg.payloadType, msg.createdAt, reason, msg.attempts, trace⟩

/-- Add one dead letter. -/
def insertDeadLetter (msg : OutboxMessage) (reason : String) (trace : Option String) : Db :=
  { db with deadLetters := db.deadLetters ++ [msg.deadLetter ctx.partitionId reason trace] }

/-- Keep the messages a handler rejected as dead letters. -/
def persistRejections (msgs : List OutboxMessage)
    (rejections : List Rejection) (traceIds : TraceIds) : Db :=
  rejections.foldl
    (fun db rej =>
      match msgs[rej.index]? with
      | some msg => insertDeadLetter db ctx msg rej.reason (traceIds.lookup msg.seq)
      | none => db) db

/-- Move the cursor and release the lease; `none` when the lease is not held any more. -/
def advanceCursor (seq : ℤ) (leaseId : String) : Option Db :=
  let row := db.processor ctx.partitionId
  if seq = 0 then some (leaseRelease db ctx.partitionId leaseId)
  else if row.lockedBy = some leaseId then
    let db := db.setProcessor ctx.partitionId
      { processedSeq := seq, attempts := 0, lastError := none, lockedBy := none,
        lockedUntil := none }
    some { db with
      vacuumCounter := Function.update db.vacuumCounter ctx.partitionId
        (db.vacuumCounter ctx.partitionId + 1) }
  else none

/-- Release the lease and keep the error; `none` when the lease is not held any more. -/
def recordRetry (reason : String) (leaseId : String) : Option Db :=
  let row := db.processor ctx.partitionId
  if row.lockedBy = some leaseId then
    some (db.setProcessor ctx.partitionId
      { row with lastError := some reason, lockedBy := none, lockedUntil := none })
  else none

/-- The sequence number of the last processed message, or zero. -/
def processedAdvanceSeq (processed : ℕ) : ℤ :=
  if 0 < processed then ((msgs[processed - 1]?).map (·.seq)).getD 0 else 0

/-- The transaction that closes a pass: the completions to deliver, or `none` when the lease was
lost and everything was rolled back. -/
def leaseGuardedAck (msgs : List OutboxMessage)
    (traceIds : TraceIds) (leaseId : String) (result : HandlerResult) (processed : ℕ)
    (rejections : List Rejection) : Option (List TraceOutcome × Db) :=
  let db := persistRejections db ctx msgs rejections traceIds
  let rejected := rejectedSeqs msgs rejections
  match result with
  | .success => do
    let seq := processedAdvanceSeq msgs processed
    let db ← advanceCursor db ctx seq leaseId
    return applyTraceProgress db ctx (traceProgress msgs traceIds seq rejected)
  | .retry reason =>
    let seq := processedAdvanceSeq msgs processed
    if 0 < seq then do
      let db ← advanceCursor db ctx seq leaseId
      let (claimed, db) := applyTraceProgress db ctx (traceProgress msgs traceIds seq rejected)
      return (claimed, recordTraceRetry db (tracesBeyond msgs traceIds seq) reason ctx.now)
    else do
      let db := recordTraceRetry db traceIds reason ctx.now
      let db ← recordRetry db ctx reason leaseId
      return ([], db)
  | .reject reason => do
    let tail := msgs.drop processed
    let db := tail.foldl
      (fun db msg => insertDeadLetter db ctx msg reason (traceIds.lookup msg.seq)) db
    let lastSeq := (msgs.getLast?.map (·.seq)).getD 0
    let db ← advanceCursor db ctx lastSeq leaseId
    return applyTraceProgress db ctx
      (traceProgress msgs traceIds lastSeq (rejected ++ tail.map (·.seq)))

end Gears.Outbox
