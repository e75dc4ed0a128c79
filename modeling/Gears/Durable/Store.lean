import Gears.Durable.Journal
import Gears.Lib.Versioned

/-!
# Starting runs under a coalescing key

One slot holds the active run of a coalescing key and at most one parked successor.  A start names
the run that will serve it: the parked successor, the active run if no attempt of it has begun, or a
new run.  Workers claim what was enqueued; a pass over the slots promotes a successor once the
active run has ended.  Starts and promotions are transactions; workers and commands load a journal,
compute, and save it under its revision.

* `Journal.attempt` : a call together with whether it asks for a save.
* `Store.startOnce`, `Store.promote`, `Store.save` : the transactions.
* `StoreEvent`, `Store.step` : the histories of one slot, all starts having one input.
-/

namespace Gears.Durable

open Except hiding error

/-- The id of a run. -/
abbrev RunId := ℕ

/-- The runs of a coalescing key. -/
structure Slot where
  active : Option RunId
  successor : Option RunId
  requestedGeneration : ℤ

/-- The answer to a start. -/
structure StartResult where
  runId : RunId
  requestedGeneration : ℤ
  coalesced : Bool
  deriving DecidableEq, Repr

/-- The transactions that fail. -/
inductive StoreError where
  | conflict
  | duplicate
  | outOfRange
  /-- There is nothing to claim or to save. -/
  | notLoaded
  | notDelivered
  | domain (e : DomainError)
  deriving DecidableEq, Repr

/-- A cancel, an abort, a retry or a resume. -/
def JournalCall.isCommand : JournalCall → Bool
  | .requestCancelAt .. | .requestAbortAt .. | .continueExecution .. => true
  | _ => false

/-- Whether the save enqueues the next delivery, if there is one. -/
def JournalCall.enqueues : JournalCall → Bool
  | .heartbeat .. | .requestCancelAt .. => false
  | _ => true

namespace Journal

variable (digest : ExecutionContract → String)

/-- Whether the call asks for a save, and the journal to save. -/
def attempt (j : Journal) : JournalCall → Except DomainError (Bool × Journal)
  | .claimTarget generation target now lease =>
    (j.claimTarget digest j.execution.contract generation target now lease).map fun r =>
      (r.1.isSome, r.2)
  | .heartbeat claim now lease =>
    (j.heartbeat claim now lease).map (j.execution.owns claim.step claim.fence now, ·)
  | .complete claim result now => (j.complete claim result now).map (true, ·)
  | .fail claim error now jitter => (j.fail claim error now jitter).map (true, ·)
  | .release claim now => (j.release claim now).map (true, ·)
  | .recover now =>
    (j.recover now).map (j.execution.instances.any (ExecutionState.leaseExpired now), ·)
  | .requestCancelAt expectedEpoch now reason => j.requestCancelAt expectedEpoch now reason
  | .requestAbortAt expectedEpoch now reason => j.requestAbortAt expectedEpoch now reason
  | .continueExecution expectedEpoch from_ definition now =>
    j.continueExecution digest expectedEpoch from_ definition now

/-- A parked run has no next attempt. -/
def parked (j : Journal) : Journal := { j with run := { j.run with nextAttemptAt := none } }

/-- A promoted run is due at once. -/
def promoted (j : Journal) (now : ℤ) : Journal :=
  { j with run := { j.run with nextAttemptAt := some now, updatedAt := now } }

end Journal

/-! ### The store -/

/-- The tables around one slot, and what was read from them. -/
structure Store where
  runs : RunId → Option (Versioned Journal)
  slot : Option (Versioned Slot)
  /-- The runs and delivery generations that were enqueued. -/
  enqueued : List (RunId × ℤ)
  /-- The answers given under an idempotency key. -/
  startKeys : List (String × RunId × ℤ)
  /-- What workers and commands have loaded. -/
  runReads : List (RunId × Versioned Journal)
  /-- What passes over the slots have loaded. -/
  slotReads : List (Versioned Slot)

namespace Store

/-- No run was started. -/
def empty : Store where
  runs _ := none
  slot := none
  enqueued := []
  startKeys := []
  runReads := []
  slotReads := []

variable (st : Store) (id : RunId)

/-- Put a row in its place. -/
def setRun (row : Versioned Journal) : Store :=
  { st with runs := Function.update st.runs id (some row) }

/-- Insert a run under a new id. -/
def insertRun (j : Journal) : Except StoreError Store := do
  rejectIf (st.runs id).isSome .duplicate
  pure (st.setRun id ⟨j, 0⟩)

/-- Write a run under its next revision. -/
def writeRun (row : Versioned Journal) (j : Journal) : Store :=
  st.setRun id (row.write j)

/-- The statuses of a run that is delivered. -/
def isDeliverable : RunStatus → Bool
  | .queued | .retryWait | .running | .compensating => true
  | _ => false

/-- Enqueue the next delivery of a run, if it has one. -/
def enqueue (j : Journal) : Except StoreError Store :=
  if isDeliverable j.run.status && j.run.nextAttemptAt.isSome then do
    rejectIf ((id, j.deliveryGeneration) ∈ st.enqueued) .duplicate
    pure { st with enqueued := (id, j.deliveryGeneration) :: st.enqueued }
  else pure st

/-- The earlier answer under the same idempotency key. -/
def replay (key : Option String) : Option StartResult :=
  (key.bind fun key => st.startKeys.lookup key).map fun (runId, requestedGeneration) =>
    { runId, requestedGeneration, coalesced := false }

/-- Keep the answer under an idempotency key. -/
def remember (key : Option String) (result : StartResult) : Store :=
  match key with
  | none => st
  | some key =>
    { st with startKeys := (key, result.runId, result.requestedGeneration) :: st.startKeys }

/-- The next number of a request. -/
def nextGeneration (slot : Slot) : Except StoreError ℤ := do
  rejectIf (2 ^ 63 - 1 ≤ slot.requestedGeneration) .outOfRange
  pure (slot.requestedGeneration + 1)

/-- The active run of a slot, unless it has ended. -/
def liveActive (slot : Slot) : Option (RunId × Versioned Journal) :=
  slot.active.bind fun id =>
    ((st.runs id).filter fun row => !row.value.run.status.isTerminal).map (id, ·)

/-- A start that finds the slot. -/
def coalesce (slot : Versioned Slot) (id : RunId) (candidate : Journal) :
    Except StoreError (StartResult × Store) :=
  match slot.value.successor with
  | some successor =>
    .ok ({ runId := successor, requestedGeneration := slot.value.requestedGeneration
           coalesced := true }, { st with slot := some (slot.write slot.value) })
  | none =>
    match st.liveActive slot.value with
    | some (activeId, active) =>
      if active.value.run.activities.all (fun a => a.attempts = 0) then do
        -- the run is written again, so that a worker that claims it has to load it anew
        rejectIf (2 ^ 63 - 1 ≤ active.revision) .outOfRange
        pure ({ runId := activeId, requestedGeneration := slot.value.requestedGeneration
                coalesced := true },
          { st.writeRun activeId active active.value with slot := some (slot.write slot.value) })
      else do
        -- the request came after execution began: the run is parked
        let requestedGeneration ← nextGeneration slot.value
        let st ← st.insertRun id candidate.parked
        pure ({ runId := id, requestedGeneration, coalesced := false }, { st with
          slot := some (slot.write { slot.value with successor := some id, requestedGeneration }) })
    | none => do
      let requestedGeneration ← nextGeneration slot.value
      let st ← st.insertRun id candidate
      let st ← st.enqueue id candidate
      pure ({ runId := id, requestedGeneration, coalesced := false }, { st with
        slot := some (slot.write { slot.value with active := some id, requestedGeneration }) })

/-- A start without a slot yet. -/
def openSlot (candidate : Journal) : Except StoreError (StartResult × Store) := do
  let st ← st.insertRun id candidate
  let st ← st.enqueue id candidate
  pure ({ runId := id, requestedGeneration := 1, coalesced := false }, { st with
    slot := some ⟨{ active := some id, successor := none, requestedGeneration := 1 }, 0⟩ })

/-- One start: an earlier answer, or a place in the slot. -/
def startOnce (candidate : Journal) (key : Option String) :
    Except StoreError (StartResult × Store) :=
  match st.replay key with
  | some previous => .ok (previous, st)
  | none => do
    let (result, st) ← match st.slot with
      | some slot => st.coalesce slot id candidate
      | none => st.openSlot id candidate
    pure (result, st.remember key result)

/-- The transaction of one slot in a pass over the slots. -/
def promote (load : ℕ) (now : ℤ) : Except StoreError Store :=
  match st.slotReads[load]? with
  | none => .error .notLoaded
  | some loaded =>
    if (st.liveActive loaded.value).isSome then .ok st
    else match loaded.value.successor with
      | none => .ok st
      | some id =>
        match st.runs id, st.slot with
        | some row, some slot => do
          rejectIf (slot.revision ≠ loaded.revision) .conflict
          if row.value.run.status.isTerminal then
            pure { st with
              slot := some (slot.write { slot.value with active := none, successor := none }) }
          else
            ({ st.writeRun id row (row.value.promoted now) with
              slot := some (slot.write { slot.value with active := some id, successor := none })
              : Store }).enqueue id (row.value.promoted now)
        | _, _ => .error .conflict

/-- A delivery is made of what was enqueued, for a run that has not ended. -/
def delivered (j : Journal) : JournalCall → Bool
  | .claimTarget generation _ _ _ =>
    !j.run.status.isTerminal && (id, generation) ∈ st.enqueued
  | _ => true

/-- A worker or a command computes on what it loaded and saves it under its revision. -/
def save (digest : ExecutionContract → String) (load : ℕ) (c : JournalCall) :
    Except StoreError Store :=
  match st.runReads[load]? with
  | none => .error .notLoaded
  | some (id, loaded) => do
    rejectIf (!st.delivered id loaded.value c) .notDelivered
    let (changed, j) ← (loaded.value.attempt digest c).mapError .domain
    if changed then
      match st.runs id with
      | none => .error .conflict
      | some row => do
        rejectIf (row.revision ≠ loaded.revision) .conflict
        if c.enqueues then (st.writeRun id row j).enqueue id j else pure (st.writeRun id row j)
    else pure st

end Store

/-- What happens around one slot. -/
inductive StoreEvent where
  | start (id : RunId) (contract : ExecutionContract) (now : ℤ) (key : Option String)
  | loadRun (id : RunId)
  | save (load : ℕ) (c : JournalCall)
  | loadSlot
  | promote (load : ℕ) (now : ℤ)

namespace Store

variable (digest : ExecutionContract → String) (input : Value)

/-- A start under the coalescing key; the caller builds the candidate. -/
def start (st : Store) (id : RunId) (contract : ExecutionContract) (now : ℤ)
    (key : Option String) : Except StoreError (StartResult × Store) := do
  let candidate ← (Journal.new digest contract input now).mapError .domain
  st.startOnce id candidate key

/-- One event. -/
def step (st : Store) : StoreEvent → Except StoreError Store
  | .start id contract now key => (st.start digest input id contract now key).map (·.2)
  | .loadRun id =>
    match st.runs id with
    | none => .error .notLoaded
    | some row => .ok { st with runReads := st.runReads ++ [(id, row)] }
  | .save load c => st.save digest load c
  | .loadSlot =>
    match st.slot with
    | none => .error .notLoaded
    | some slot => .ok { st with slotReads := st.slotReads ++ [slot] }
  | .promote load now => st.promote load now

end Store

end Gears.Durable
