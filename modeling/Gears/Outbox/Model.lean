import Gears.Lib.Keyed
import Mathlib.Data.Finset.Basic
import Mathlib.Data.String.Basic

/-!
# The outbox: messages, batches and handlers

* `Batch` : the messages of one pass, with the progress its handler has made.
* `LeasedHandler.handle` : the loop that turns a per-message handler into a batch handler.

A pass may lose its handler at any await point.  `Turn` says what becomes of one call: it answers,
or the call is dropped.
-/

namespace Gears.Outbox

open List

/-- What a message carries. -/
structure Body where
  payload : List UInt8
  payloadType : String
  createdAt : ℤ
  trace : Option String
  deriving DecidableEq, Repr

/-- A sequenced message of a partition. -/
structure OutgoingRow where
  seq : ℤ
  body : Body
  deriving DecidableEq, Repr

/-- A message as a handler sees it. -/
structure OutboxMessage where
  partitionId : ℤ
  seq : ℤ
  payload : List UInt8
  payloadType : String
  createdAt : ℤ
  attempts : ℤ
  deriving DecidableEq, Repr

/-- A message marked for dead-lettering, by its index in the batch. -/
structure Rejection where
  index : ℕ
  reason : String
  deriving DecidableEq, Repr

/-- The messages of one pass, and how far its handler got. -/
structure Batch where
  msgs : List OutboxMessage
  cursor : ℕ
  processed : ℕ
  rejections : List Rejection
  deriving DecidableEq, Repr

/-- The result of handling a batch. -/
inductive HandlerResult
  | success
  | retry (reason : String)
  | reject (reason : String)
  deriving DecidableEq, Repr

/-- The result of handling one message. -/
inductive MessageResult
  | ok
  | retry
  | reject (reason : String)
  deriving DecidableEq, Repr

namespace Batch

/-- A batch that nobody has touched. -/
def new (msgs : List OutboxMessage) : Batch := ⟨msgs, 0, 0, []⟩

/-- The next message that was not started. -/
def nextMsg (batch : Batch) : Option (OutboxMessage × Batch) :=
  (batch.msgs[batch.cursor]?).map fun msg => (msg, { batch with cursor := batch.cursor + 1 })

/-- Mark the last message as processed. -/
def ack (batch : Batch) : Batch := { batch with processed := batch.processed + 1 }

/-- Mark the last message for dead-lettering; it counts as processed. -/
def reject (batch : Batch) (reason : String) : Batch :=
  { batch with
    rejections := batch.rejections ++ [⟨batch.cursor - 1, reason⟩]
    processed := batch.processed + 1 }

end Batch

/-! ### Handlers -/

/-- Why the future of a handler was dropped. -/
inductive Drop
  | leaseExpired
  | shuttingDown
  deriving DecidableEq, Repr

/-- The reason a dropped batch is retried for. -/
def Drop.reason : Drop → String
  | leaseExpired => "lease expired"
  | shuttingDown => "outbox shutting down"

/-- What becomes of the call for one message; `stop` is what `should_stop` says right after it. -/
inductive Turn
  | dropped (why : Drop)
  | answered (result : MessageResult) (stop : Bool)
  deriving DecidableEq, Repr

namespace LeasedHandler

/-- The loop of the per-message handler, for at most `fuel` messages. -/
def handleFrom (turn : OutboxMessage → Turn) : ℕ → Batch → HandlerResult × Batch
  | 0, batch => (.success, batch)
  | fuel + 1, batch =>
    match batch.nextMsg with
    | none => (.success, batch)
    | some (msg, batch) =>
      match turn msg with
      | .dropped why => (.retry why.reason, batch)
      | .answered .retry _ => (.retry "message handler returned Retry", batch)
      | .answered .ok stop =>
        if stop then (.success, batch.ack) else handleFrom turn fuel batch.ack
      | .answered (.reject reason) stop =>
        if stop then (.success, batch.reject reason)
        else handleFrom turn fuel (batch.reject reason)

/-- Handle a batch message by message. -/
def handle (turn : OutboxMessage → Turn) (batch : Batch) : HandlerResult × Batch :=
  handleFrom turn (batch.msgs.length + 1) batch

end LeasedHandler

/-- The handler finished with the message: it acknowledged or rejected it. -/
def Turn.Settles : Turn → Prop
  | .answered .ok _ => True
  | .answered (.reject _) _ => True
  | _ => False

/-- The reason a message was rejected for. -/
def Turn.rejection : Turn → Option String
  | .answered (.reject reason) _ => some reason
  | _ => none

/-- The rejections of the first messages of a batch, in order. -/
def rejectionsOf (turn : OutboxMessage → Turn) (msgs : List OutboxMessage) : List Rejection :=
  msgs.zipIdx.filterMap fun (msg, index) => (turn msg).rejection.map (⟨index, ·⟩)

theorem rejectionsOf_append_singleton (turn : OutboxMessage → Turn) (msgs : List OutboxMessage)
    (msg : OutboxMessage) : rejectionsOf turn (msgs ++ [msg]) =
      rejectionsOf turn msgs ++ ((turn msg).rejection.map (⟨msgs.length, ·⟩)).toList := by
  rw [rejectionsOf, zipIdx_append, filterMap_append, ← rejectionsOf]
  cases h : (turn msg).rejection <;> simp [h]

/-- What is known of a batch when its handler is done: a prefix of it was answered. -/
structure Handled (turn : OutboxMessage → Turn) (msgs : List OutboxMessage) (start : ℕ)
    (outcome : HandlerResult × Batch) : Prop where
  /-- nothing is undone -/
  start_le : start ≤ outcome.2.processed
  /-- no more was processed than there is -/
  processed_le : outcome.2.processed ≤ msgs.length
  /-- every processed message was acknowledged or rejected -/
  settled : ∀ msg ∈ msgs.take outcome.2.processed, (turn msg).Settles
  /-- the rejections are those of the processed messages -/
  rejections : outcome.2.rejections = rejectionsOf turn (msgs.take outcome.2.processed)
  /-- a message handler never rejects a batch -/
  not_reject : ∀ reason, outcome.1 ≠ .reject reason
  /-- a batch succeeds with progress, or at its end -/
  progress : outcome.1 = .success → start < outcome.2.processed ∨ msgs.length ≤ start

namespace LeasedHandler

/-- The batch right before its message `k` is started. -/
def batchAt (turn : OutboxMessage → Turn) (msgs : List OutboxMessage) (k : ℕ) : Batch :=
  ⟨msgs, k, k, rejectionsOf turn (msgs.take k)⟩

variable {turn : OutboxMessage → Turn} {msgs : List OutboxMessage} {msg : OutboxMessage} {k : ℕ}

theorem batchAt_succ (hmsg : msgs[k]? = some msg) : batchAt turn msgs (k + 1) =
      ⟨msgs, k + 1, k + 1, rejectionsOf turn (msgs.take k) ++
        ((turn msg).rejection.map (⟨k, ·⟩)).toList⟩ := by
  have hk : k < msgs.length := (List.getElem?_eq_some_iff.1 hmsg).1
  have hlen : (msgs.take k).length = k := length_take_of_le hk.le
  rw [batchAt, take_add_one, hmsg, Option.toList_some, rejectionsOf_append_singleton, hlen]

theorem settles_take_succ (hmsg : msgs[k]? = some msg) (hturn : (turn msg).Settles)
    (hk : ∀ m ∈ msgs.take k, (turn m).Settles) : ∀ m ∈ msgs.take (k + 1), (turn m).Settles := by
  intro m hm
  rw [take_add_one, hmsg, Option.toList_some, mem_append, mem_singleton] at hm
  rcases hm with hm | rfl
  · exact hk m hm
  · exact hturn

theorem handleFrom_spec (fuel k : ℕ) (hfuel : msgs.length < fuel + k) (hk : k ≤ msgs.length)
    (hset : ∀ m ∈ msgs.take k, (turn m).Settles) :
    Handled turn msgs k (handleFrom turn fuel (batchAt turn msgs k)) := by
  induction fuel generalizing k with
  | zero => omega
  | succ fuel ih =>
    rw [handleFrom, Batch.nextMsg]
    simp only [batchAt]
    cases hmsg : msgs[k]? with
    | none =>
      refine ⟨le_rfl, hk, hset, rfl, nofun, fun _ => .inr ?_⟩
      exact List.getElem?_eq_none_iff.1 hmsg
    | some msg =>
      have hlt : k < msgs.length := (List.getElem?_eq_some_iff.1 hmsg).1
      -- what is left when the message was settled: stop here, or go on from the next one
      have hgo : ∀ stop : Bool, (turn msg).Settles →
          Handled turn msgs k (if stop then (.success, batchAt turn msgs (k + 1))
            else handleFrom turn fuel (batchAt turn msgs (k + 1))) := by
        intro stop hturn
        have hset' := settles_take_succ hmsg hturn hset
        cases stop with
        | true => exact ⟨Nat.le_succ k, hlt, hset', rfl, nofun, fun _ => .inl (Nat.lt_succ_self k)⟩
        | false =>
          have h := ih (k + 1) (by omega) hlt hset'
          exact ⟨Nat.le_of_succ_le h.start_le, h.processed_le, h.settled, h.rejections,
            h.not_reject, fun _ => .inl h.start_le⟩
      have hretry : ∀ reason, Handled turn msgs k
          (.retry reason, ⟨msgs, k + 1, k, rejectionsOf turn (msgs.take k)⟩) :=
        fun reason => ⟨le_rfl, hk, hset, rfl, nofun, nofun⟩
      simp only [Option.map_some]
      cases hturn : turn msg with
      | dropped why => exact hretry _
      | answered result stop =>
        rw [batchAt_succ hmsg, hturn] at hgo
        cases result with
        | ok => simpa [Turn.rejection, Batch.ack] using hgo stop trivial
        | retry => exact hretry _
        | reject reason => simpa [Turn.rejection, Batch.reject] using hgo stop trivial

/-- **A handled batch is a prefix of settled messages**, with their rejections. -/
theorem handle_spec (turn : OutboxMessage → Turn) (msgs : List OutboxMessage) :
    Handled turn msgs 0 (handle turn (Batch.new msgs)) :=
  handleFrom_spec (msgs.length + 1) 0 (by omega) (Nat.zero_le _) (by simp)

end LeasedHandler

end Gears.Outbox
