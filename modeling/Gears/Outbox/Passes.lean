import Gears.Lib.Machine
import Gears.Outbox.Statements

/-!
# The outbox: workers and their passes

A worker takes one pass after another over a partition.  A pass opens with one transaction, runs
its handler outside any, and closes with another; between them the lease may run out and change
hands.

* `Pass` : what a worker remembers between the transactions of a pass.
* `System` : the tables, the passes under way, and the acks that moved a cursor.
* `System.step` : one transaction or one handler call of one worker.
-/

namespace Gears.Outbox

/-- How far a pass is. -/
inductive Phase
  /-- nothing was read: the lease is to be given back -/
  | releasing
  /-- the handler has the messages -/
  | handling
  /-- the handler is done, or was dropped -/
  | acking (turn : OutboxMessage → Turn) (result : HandlerResult) (batch : Batch)

/-- A pass under way, and the cursor it started from. -/
structure Pass where
  base : ℤ
  msgs : List OutboxMessage
  traceIds : TraceIds
  phase : Phase

/-- An ack that moved the cursor of a partition, and the pass it closed. -/
structure Commit where
  partitionId : ℤ
  start : ℤ
  upto : ℤ
  msgs : List OutboxMessage
  traceIds : TraceIds
  turn : OutboxMessage → Turn

/-- The tables, the passes under way by worker and partition, and the history of acks. -/
structure System where
  db : Db
  passes : String → ℤ → Option Pass
  commits : List Commit

/-- What may happen next. -/
inductive Event
  /-- a worker opens a pass -/
  | acquire (worker : String) (leaseSecs : ℤ) (batchSize : ℕ) (ctx : ProcessContext)
  /-- a worker gives back the lease of a pass that read nothing -/
  | release (worker : String) (partitionId : ℤ)
  /-- the handler of a pass returns, or is dropped -/
  | handled (worker : String) (partitionId : ℤ) (turn : OutboxMessage → Turn)
  /-- a worker closes a pass -/
  | ack (worker : String) (ctx : ProcessContext)
  /-- a pass is lost: a transaction failed, or the process died -/
  | abandon (worker : String) (partitionId : ℤ)

/-- Why an event cannot happen now. -/
inductive Refusal
  /-- a worker finishes a pass over a partition before it opens the next -/
  | passUnderWay
  /-- there is no pass at this point of its life -/
  | noSuchPass
  deriving DecidableEq, Repr

namespace System

/-- Set what a worker remembers about a partition. -/
def setPass (s : System) (worker : String) (partitionId : ℤ) (pass : Option Pass) : System :=
  { s with
    passes := Function.update s.passes worker
      (Function.update (s.passes worker) partitionId pass) }

/-- Open a pass. -/
def acquire (s : System) (worker : String) (leaseSecs : ℤ) (batchSize : ℕ)
    (ctx : ProcessContext) : System :=
  match acquireLeaseAndRead s.db worker leaseSecs batchSize ctx with
  | none => s
  | some ((base, msgs, traceIds), db) =>
    let phase := if msgs.isEmpty then .releasing else .handling
    { s with db }.setPass worker ctx.partitionId (some ⟨base, msgs, traceIds, phase⟩)

/-- Close a pass; an ack that moved the cursor goes into the history. -/
def ack (s : System) (worker : String) (ctx : ProcessContext) (pass : Pass)
    (turn : OutboxMessage → Turn) (result : HandlerResult) (batch : Batch) : System :=
  match leaseGuardedAck s.db ctx pass.msgs pass.traceIds worker result batch.processed
      batch.rejections with
  | none => s.setPass worker ctx.partitionId none
  | some (_, db) =>
    let start := (s.db.processor ctx.partitionId).processedSeq
    let upto := (db.processor ctx.partitionId).processedSeq
    let commits := if start = upto then s.commits
      else s.commits ++ [⟨ctx.partitionId, start, upto, pass.msgs, pass.traceIds, turn⟩]
    { s with db, commits }.setPass worker ctx.partitionId none

/-- One transaction or one handler call of one worker. -/
def step (s : System) : Event → Except Refusal System
  | .acquire worker leaseSecs batchSize ctx =>
    match s.passes worker ctx.partitionId with
    | some _ => .error .passUnderWay
    | none => .ok (s.acquire worker leaseSecs batchSize ctx)
  | .release worker partitionId =>
    match s.passes worker partitionId with
    | some ⟨_, _, _, .releasing⟩ =>
      .ok ({ s with db := leaseRelease s.db partitionId worker }.setPass worker partitionId none)
    | _ => .error .noSuchPass
  | .handled worker partitionId turn =>
    match s.passes worker partitionId with
    | some ⟨base, msgs, traceIds, .handling⟩ =>
      let (result, batch) := LeasedHandler.handle turn (Batch.new msgs)
      .ok (s.setPass worker partitionId
        (some ⟨base, msgs, traceIds, .acking turn result batch⟩))
    | _ => .error .noSuchPass
  | .ack worker ctx =>
    match s.passes worker ctx.partitionId with
    | some ⟨base, msgs, traceIds, .acking turn result batch⟩ =>
      .ok (s.ack worker ctx ⟨base, msgs, traceIds, .acking turn result batch⟩ turn result batch)
    | _ => .error .noSuchPass
  | .abandon worker partitionId =>
    match s.passes worker partitionId with
    | some _ => .ok (s.setPass worker partitionId none)
    | none => .error .noSuchPass

end System

end Gears.Outbox
