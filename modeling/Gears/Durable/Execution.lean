import Mathlib.Data.Finset.Card
import Mathlib.Data.Finset.Insert
import Mathlib.Order.Interval.Finset.Nat
import Gears.Durable.Contract

/-!
# The execution of a run

The state of a run is a list of instances: the forward activities of the stages begun so far,
followed by the compensations once the run is being reversed.  A worker claims an instance under a
fence and a lease and finishes it; a lost lease is recovered; a business command pauses, aborts or
continues the run.  After each of these `advance` moves the run on: it fails what has used up its
attempts, starts or ends the reversal, and begins the next stage.

Instants are nanoseconds.  A call that fails is not saved, so its state is the one before it.

* `ExecutionState.routable`, `ready`, `canClaim`, `nextDue`, `status` : what can run and when.
* `ExecutionState.advance` : expansion of the stages and reversal.
* `ExecutionState.claim`, `heartbeat`, `finish`, `release`, `recover`, `pause`, `abort`,
  `continueRun` : the calls.
-/

namespace Gears.Durable

open Except hiding error

/-! ### Errors and statuses -/

/-- The errors of a call. -/
inductive DomainError where
  | definition (e : DefinitionError)
  | invalidState (message : String)
  | internal (message : String)
  | leaseLost
  | concurrentUpdate
  | definitionMismatch
  deriving DecidableEq, Repr

/-- How an attempt failed. -/
inductive ActivityError where
  | retryable (code : String) (retryAfter : Option ℕ)
  | permanent (code : String)
  | cancelled
  deriving DecidableEq, Repr

/-- The code that is recorded. -/
def ActivityError.code : ActivityError → String
  | .retryable code _ | .permanent code => code
  | .cancelled => "cancelled"

/-- The status of a run as it is reported. -/
inductive RunStatus where
  | queued
  | running
  | retryWait
  | succeeded
  | failed
  | cancelling
  | cancelled
  | blocked
  | compensating
  | compensationFailed
  | compensated
  deriving DecidableEq, Repr

/-- The run has ended. -/
def RunStatus.isTerminal : RunStatus → Bool
  | .succeeded | .failed | .cancelled | .compensated => true
  | _ => false

/-- The status of an instance or of an attempt. -/
inductive ActivityStatus where
  | pending
  | running
  | retryWait
  | succeeded
  | failed
  | cancelled
  deriving DecidableEq, Repr

/-- The original failure or the explicit termination. -/
inductive Cause where
  | failure (code : String)
  | abort (reason : Option String)
  deriving DecidableEq, Repr

/-- Where a run stands; a saga that stops is reversed. -/
inductive Phase where
  | forward
  | stopping (cause : Cause)
  | reversing (cause : Cause)
  | reverseFailed (cause : Cause)
  | reversed (cause : Cause)
  deriving DecidableEq, Repr

/-- The phase an instance belongs to. -/
inductive ExecutionPhase where
  | forward
  | compensation
  deriving DecidableEq, Repr

/-! ### Instances -/

/-- An activity, the branch of a fan-out, and the phase. -/
structure ActivityInstanceId where
  step : String
  itemIndex : Option ℕ
  phase : ExecutionPhase
  deriving DecidableEq, Repr

/-- The key of an instance in storage and delivery. -/
def ActivityInstanceId.key (id : ActivityInstanceId) : String :=
  match id.phase, id.itemIndex with
  | .forward, none => id.step
  | .forward, some index => "f/" ++ id.step ++ "/" ++ toString index
  | .compensation, index => "c/" ++ id.step ++ "/" ++ (index.map toString).getD "single"

/-- One attempt under its fence. -/
structure ActivityAttempt where
  number : ℕ
  epoch : ℕ
  fence : ℕ
  startedAt : ℤ
  finishedAt : Option ℤ
  status : ActivityStatus
  errorCode : Option String
  deriving DecidableEq, Repr

/-- The progress of an instance. -/
structure ActivityRun where
  id : String
  status : ActivityStatus
  attempts : ℕ
  attemptHistory : List ActivityAttempt
  /-- The attempts used of the current retry budget. -/
  budgetAttempts : ℕ
  result : Option Value
  errorCode : Option String
  startedAt : Option ℤ
  finishedAt : Option ℤ

/-- An activity, or a compensation, to be run. -/
structure Instance where
  identity : ActivityInstanceId
  stage : ℕ
  /-- The index of the activity in the contract. -/
  template : ℕ
  input : Value
  /-- The forward result that a compensation is given. -/
  receipt : Option Value
  state : ActivityRun
  fence : ℕ
  leaseUntil : Option ℤ
  dueAt : ℤ

namespace Instance

/-- A new instance, due at once. -/
def new (identity : ActivityInstanceId) (stage template : ℕ) (input : Value)
    (receipt : Option Value) (now : ℤ) : Instance where
  identity
  stage
  template
  input
  receipt
  state := {
    id := identity.key
    status := .pending
    attempts := 0
    attemptHistory := []
    budgetAttempts := 0
    result := none
    errorCode := none
    startedAt := none
    finishedAt := none }
  fence := 0
  leaseUntil := none
  dueAt := now

variable (i : Instance)

/-- The end of an attempt. -/
def finish (status : ActivityStatus) (error : Option String) (now : ℤ) : Instance :=
  { i with
    state := { i.state with
      status
      errorCode := error
      finishedAt := some now
      attemptHistory := i.state.attemptHistory.modify (i.state.attemptHistory.length - 1) fun a =>
        { a with status, finishedAt := some now, errorCode := error } }
    leaseUntil := none }

/-- An instance of the forward phase. -/
def isForward : Bool := i.identity.phase = .forward

/-- An instance of the reversal. -/
def isCompensation : Bool := i.identity.phase = .compensation

/-- The instance is claimed. -/
def isRunning : Bool := i.state.status = .running

/-- The instance has a result. -/
def isSucceeded : Bool := i.state.status = .succeeded

/-- The instance waits for an attempt. -/
def isWaiting : Bool := i.state.status = .pending || i.state.status = .retryWait

end Instance

/-- The policy of the phase an instance belongs to. -/
def ExecutionContract.policyOf (c : ExecutionContract) (i : Instance) :
    Except DomainError RetryPolicy :=
  match c.activities[i.template]? with
  | none => .error (.internal "template out of range")
  | some template =>
    match i.identity.phase with
    | .forward => .ok template.retry
    | .compensation =>
      match template.compensation with
      | none => .error (.internal "compensator policy missing")
      | some policy => .ok policy.retry

/-- The last instant there is: the end of the year 262142. -/
def lastInstant : ℤ := 8210266876799999999999

/-- The instant a duration ahead, if there is one. -/
def deadline (now : ℤ) (duration : ℕ) : Except DomainError ℤ :=
  if now + duration ≤ lastInstant then .ok (now + duration)
  else .error (.internal "duration out of range")

/-- The next value of a counter that ends at `last`. -/
def checkedNext (last n : ℤ) (message : String) : Except DomainError Unit :=
  rejectIf (last ≤ n) (.internal message)

mutual

/-- The value that a source names, from the input of the run and the checkpoints. -/
def readSource (root : Value) (values : List (String × Value)) :
    InputSource → Except DomainError Value
  | .runInput => .ok root
  | .checkpoint id | .fanOutResults id =>
    match values.lookup id with
    | some value => .ok value
    | none => .error (.invalidState "checkpoint is not ready")
  | .fanOutBranch step index =>
    match ((values.lookup step).bind Value.asArray).bind (·[index]?) with
    | some value => .ok value
    | none => .error (.invalidState "branch is not ready")
  | .tuple items | .list items => (readSources root values items).map Value.array

/-- The values of some sources. -/
def readSources (root : Value) (values : List (String × Value)) :
    List InputSource → Except DomainError (List Value)
  | [] => .ok []
  | source :: sources =>
    match readSource root values source with
    | .error e => .error e
    | .ok value => (readSources root values sources).map (value :: ·)

end

/-! ### The state -/

/-- The state of a run. -/
structure ExecutionState where
  contract : ExecutionContract
  instances : List Instance
  stageError : Option String
  stages : List (List String)
  materialized : Finset ℕ
  completed : Finset ℕ
  phase : Phase
  paused : Bool
  epoch : ℕ

namespace ExecutionState

variable (s : ExecutionState)

/-- The run is being reversed, or was. -/
def isCompensation : Bool :=
  match s.phase with
  | .reversing _ | .reverseFailed _ | .reversed _ => true
  | .forward | .stopping _ => false

/-- Why the run stops. -/
def cause : Option Cause :=
  match s.phase with
  | .forward => none
  | .stopping c | .reversing c | .reverseFailed c | .reversed c => some c

/-- The run waits to be reversed. -/
def isStopping : Bool :=
  match s.phase with
  | .stopping _ => true
  | _ => false

/-- Some instance is claimed. -/
def anyRunning : Bool := s.instances.any (·.isRunning)

/-- The first stage that is not complete. -/
def currentStage : Option ℕ := (List.range s.stages.length).find? fun stage => stage ∉ s.completed

/-- The instances that may be delivered, whether or not a slot is free. -/
def routable : List ℕ :=
  if s.paused then []
  else match s.phase with
    | .forward =>
      if s.stageError.isSome then []
      else match s.currentStage with
        | none => []
        | some stage =>
          (List.range s.instances.length).filter fun index =>
            s.instances[index]?.any fun i => i.stage = stage && i.isForward && i.isWaiting
    | .reversing _ =>
      -- only the first compensation that has not succeeded, and only if it waits
      match s.instances.findIdx? fun i => i.isCompensation && !i.isSucceeded with
      | none => []
      | some index => if s.instances[index]?.any (·.isWaiting) then [index] else []
    | .stopping _ | .reverseFailed _ | .reversed _ => []

/-- The instances of the stage that may still be claimed at once. -/
def availableSlots (index : ℕ) : ℕ :=
  match s.instances[index]? with
  | none => 0
  | some i =>
    if i.isCompensation then 1
    else
      let limit := (((s.contract.activities[i.template]?).bind (·.fanout)).map
        (·.concurrency)).getD 128
      limit - (s.instances.filter fun j => j.stage = i.stage && j.isRunning).length

/-- The instance is due. -/
def isDue (now : ℤ) (index : ℕ) : Bool := s.instances[index]?.any fun i => i.dueAt ≤ now

/-- The instances that are due and find a free slot. -/
def ready (now : ℤ) : List ℕ :=
  let slots := (s.routable.head?.map s.availableSlots).getD 0
  (s.routable.filter (s.isDue now)).take slots

/-- The instance may be claimed now. -/
def canClaim (index : ℕ) (now : ℤ) : Bool :=
  s.routable.contains index && s.isDue now index && 0 < s.availableSlots index

/-- What is published for delivery: all of a stage that has not begun, or what is ready. -/
def publicationCandidates (at_ : ℤ) : List ℕ :=
  let fresh := ((s.routable.head?.bind (s.instances[·]?)).map (·.stage)).any fun stage =>
    (s.instances.filter fun i => i.stage = stage && i.isForward).all fun i => i.state.attempts = 0
  if fresh then s.routable else s.ready at_

/-- The earliest due time at which an instance becomes ready. -/
def nextDue : Option ℤ :=
  (((s.instances.filter (·.isWaiting)).map (·.dueAt)).filter fun at_ => s.ready at_ ≠ []).min?

/-- The claim is current and its lease has not run out. -/
def owns (index : ℕ) (fence now : ℤ) : Bool :=
  s.instances[index]?.any fun i =>
    (i.fence : ℤ) = fence && i.isRunning && i.leaseUntil.any fun t => now < t

/-- The attempts in flight are asked to stop. -/
def cancellationRequested : Bool := s.paused || s.isStopping

/-- The status of the run. -/
def status (now : ℤ) : RunStatus :=
  match s.phase with
  | .reversing _ => .compensating
  | .reverseFailed _ => .compensationFailed
  | .reversed _ => .compensated
  | .stopping _ => .cancelling
  | .forward =>
    -- a confirmed final checkpoint wins over a pause that raced with it
    if s.completed.card = s.stages.length then .succeeded
    else if s.paused then if s.anyRunning then .cancelling else .cancelled
    else if s.anyRunning then .running
    else match s.nextDue with
      | some at_ => if now < at_ then .retryWait else .queued
      | none => .failed

/-- The results of an activity in its stage, in the order of the instances. -/
def resultsOf (stage : ℕ) (id : String) : List Value :=
  (s.instances.filter fun i =>
    i.stage = stage && i.isForward && i.identity.step = id && i.isSucceeded).filterMap
      (·.state.result)

/-- The results that later stages can read, latest first. -/
def checkpoints : List (String × Value) :=
  s.stages.zipIdx.foldl (fun values (ids, stage) =>
    ids.foldl (fun values id =>
      let results := s.resultsOf stage id
      if (s.contract.activities.find? (·.id = id)).any (·.fanout.isSome) then
        if stage ∈ s.completed then (id, .array results) :: values else values
      else match results with
        | value :: _ => (id, value) :: values
        | [] => values) values) []

/-! ### Moving on -/

/-- A failed instance ends the phase: a reversal fails, a saga stops. -/
def failPhase (saga : Bool) (code : String) : Phase → Phase
  | .reversing cause => .reverseFailed cause
  | .forward => if saga then .stopping (.failure code) else .forward
  | phase => phase

/-- Pending instances whose attempts are used up fail, one after the other. -/
def exhaust (c : ExecutionContract) (now : ℤ) :
    Phase → List Instance → Except DomainError (List Instance × Phase)
  | phase, [] => .ok ([], phase)
  | phase, i :: rest => do
    let policy ← c.policyOf i
    if i.state.status = .pending ∧ policy.maxAttempts ≤ i.state.budgetAttempts then
      let (rest, phase) ← exhaust c now (failPhase c.saga "attempts_exhausted" phase) rest
      pure (i.finish .failed (some "attempts_exhausted") now :: rest, phase)
    else
      let (rest, phase) ← exhaust c now phase rest
      pure (i :: rest, phase)

/-- The compensation of a forward instance. -/
def compensationOf (now : ℤ) (i : Instance) : Instance :=
  .new { i.identity with phase := .compensation } i.stage i.template i.input i.state.result now

/-- The forward instances to undo, last one first. -/
def reversals : List Instance :=
  s.instances.reverse.filter fun i =>
    i.isForward && i.isSucceeded && (s.contract.activities[i.template]?).any (·.compensation.isSome)

/-- A run that stops is reversed once nothing runs any more. -/
def beginReversal (now : ℤ) : ExecutionState :=
  match s.phase with
  | .stopping cause =>
    if s.anyRunning then s
    else { s with
      instances := s.instances ++ s.reversals.map (compensationOf now)
      phase := .reversing cause }
  | _ => s

/-- A reversal ends with its last compensation. -/
def endReversal : ExecutionState :=
  match s.phase with
  | .reversing cause =>
    if (s.instances.filter (·.isCompensation)).all (·.isSucceeded) then
      { s with phase := .reversed cause }
    else s
  | _ => s

/-- The part of `advance` before the stages are expanded. -/
def wind (now : ℤ) : Except DomainError ExecutionState := do
  let (instances, phase) ← exhaust s.contract now s.phase s.instances
  pure (({ s with instances, phase }).beginReversal now).endReversal

/-- A stage that is too large is not begun and stops a saga. -/
def rejectExpansion (stage : ℕ) (now : ℤ) : Except DomainError ExecutionState :=
  let s := { s with
    stageError := some "fanout_limit_exceeded"
    materialized := insert stage s.materialized }
  if s.contract.saga then
    { s with phase := .stopping (.failure "fanout_limit_exceeded") }.wind now
  else .ok s

/-- The number of forward instances of one run. -/
def maxInstances : ℕ := 4096

/-- The forward instances so far. -/
def forwardCount : ℕ := (s.instances.filter (·.isForward)).length

/-- The instances of a stage, activity by activity; none if there would be too many. -/
def planStage (stage : ℕ) (root : Value) (now : ℤ) :
    List String → List Instance → Except DomainError (Option (List Instance))
  | [], pending => .ok (some pending)
  | id :: ids, pending =>
    match s.contract.activities.findIdx? (·.id = id) with
    | none => .error (.internal "stage template missing")
    | some template =>
      let source := (s.contract.flow.inputs.get id).getD .runInput
      match readSource root s.checkpoints source with
      | .error e => .error e
      | .ok input =>
        match (s.contract.activities[template]?).bind (·.fanout) with
        | some options =>
          match input.asArray with
          | none => .error (.invalidState "fan-out input must be a list")
          | some items =>
            if options.maxItems < items.length ∨
                maxInstances < s.forwardCount + pending.length + items.length then .ok none
            else planStage stage root now ids (pending ++ items.zipIdx.map fun (item, index) =>
              .new { step := id, itemIndex := some index, phase := .forward } stage template item
                none now)
        | none =>
          if maxInstances ≤ s.forwardCount + pending.length then .ok none
          else planStage stage root now ids (pending ++
            [.new { step := id, itemIndex := none, phase := .forward } stage template input none
              now])

/-- Every forward instance of the stage has succeeded. -/
def stageDone (stage : ℕ) : Bool :=
  (s.instances.filter fun i => i.stage = stage && i.isForward).all (·.isSucceeded)

/-- The stages in order: a complete stage is recorded and the next one is begun. -/
def expand (root : Value) (now : ℤ) : List ℕ → ExecutionState → Except DomainError ExecutionState
  | [], s => .ok s
  | stage :: rest, s =>
    if stage ∈ s.completed then expand root now rest s
    else if stage ∈ s.materialized then
      if s.stageDone stage then
        expand root now rest { s with completed := insert stage s.completed }
      else .ok s
    else if s.paused then .ok s
    else
      match s.planStage stage root now ((s.stages[stage]?).getD []) [] with
      | .error e => .error e
      | .ok none => s.rejectExpansion stage now
      | .ok (some pending) =>
        let s := { s with
          instances := s.instances ++ pending
          materialized := insert stage s.materialized }
        if s.stageDone stage then
          expand root now rest { s with completed := insert stage s.completed }
        else .ok s

/-- Move the run on after a call. -/
def advance (root : Value) (now : ℤ) : Except DomainError ExecutionState := do
  let s ← s.wind now
  if s.phase = .forward ∧ s.stageError = none then
    expand root now (List.range s.stages.length) s
  else pure s

/-! ### Calls -/

/-- The state of a run that starts. -/
def new (contract : ExecutionContract) (root : Value) (now : ℤ) :
    Except DomainError ExecutionState := do
  let stages ← contract.stages.mapError .definition
  { contract
    instances := []
    stageError := none
    stages
    materialized := ∅
    completed := ∅
    phase := .forward
    paused := false
    epoch := 0 : ExecutionState }.advance root now

/-- The instance under its claim. -/
def claimed (i : Instance) (epoch : ℕ) (now until_ : ℤ) : Instance :=
  { i with
    fence := i.fence + 1
    leaseUntil := some until_
    state := { i.state with
      status := .running
      attempts := i.state.attempts + 1
      budgetAttempts := i.state.budgetAttempts + 1
      startedAt := some now
      finishedAt := none
      errorCode := none
      attemptHistory := i.state.attemptHistory ++ [{
        number := i.state.attempts + 1
        epoch
        fence := i.fence + 1
        startedAt := now
        finishedAt := none
        status := .running
        errorCode := none }] } }

/-- A worker takes an instance under the next fence. -/
def claim (index : ℕ) (now : ℤ) (lease : ℕ) : Except DomainError (ℕ × ExecutionState) := do
  rejectIf (!s.canClaim index now) (.invalidState "instance is not eligible")
  match s.instances[index]? with
  | none => .error (.invalidState "instance is not eligible")
  | some i =>
    checkedNext (2 ^ 63 - 1) i.fence "fence overflow"
    let until_ ← deadline now lease
    checkedNext (2 ^ 32 - 1) i.state.attempts "attempt overflow"
    checkedNext (2 ^ 32 - 1) i.state.budgetAttempts "attempt overflow"
    pure (i.fence + 1, { s with instances := s.instances.set index (claimed i s.epoch now until_) })

/-- A worker extends its lease. -/
def heartbeat (index : ℕ) (fence now : ℤ) (lease : ℕ) :
    Except DomainError (Bool × ExecutionState) := do
  if !s.owns index fence now then pure (false, s)
  else
    let until_ ← deadline now lease
    pure (true, { s with
      instances := s.instances.modify index fun i => { i with leaseUntil := some until_ } })

/-- A failed attempt: cancelled while the run stops, tried again, or failed for good. -/
def failAttempt (i : Instance) (policy : RetryPolicy) (error : ActivityError) (now : ℤ)
    (jitter : ℕ) : Except DomainError (Instance × Phase) :=
  if s.paused || s.isStopping then .ok (i.finish .cancelled (some error.code) now, s.phase)
  else
    let failed := (i.finish .failed (some error.code) now, match s.phase with
      | .reversing cause => .reverseFailed cause
      | phase => if s.contract.saga then .stopping (.failure error.code) else phase)
    match error with
    | .retryable code retryAfter =>
      if i.state.budgetAttempts < policy.maxAttempts then do
        let dueAt ← deadline now (policy.delay i.state.budgetAttempts retryAfter jitter)
        pure (({ i with dueAt }).finish .retryWait (some code) now, s.phase)
      else .ok failed
    | .permanent _ | .cancelled => .ok failed

/-- The owner of a claim reports its result. -/
def finish (index : ℕ) (fence : ℤ) (result : Except ActivityError Value) (root : Value) (now : ℤ)
    (jitter : ℕ) : Except DomainError ExecutionState := do
  rejectIf (!s.owns index fence now) .leaseLost
  match s.instances[index]? with
  | none => .error .leaseLost
  | some i =>
    let policy ← s.contract.policyOf i
    match result with
    | .ok value =>
      let i := { i with state := { i.state with result := some value } }
      { s with
        instances := s.instances.set index (i.finish .succeeded none now) }.advance root now
    | .error error =>
      let (i, phase) ← s.failAttempt i policy error now jitter
      { s with instances := s.instances.set index i, phase }.advance root now

/-- Stop claiming; a reversal goes on. -/
def pause : Except DomainError ExecutionState := do
  rejectIf (s.isCompensation || s.isStopping)
    (.invalidState "compensation cannot be paused by a business command")
  pure { s with paused := true }

/-- Stop the run for good. -/
def abort (reason : Option String) (root : Value) (now : ℤ) :
    Except DomainError (Bool × ExecutionState) := do
  if s.cause.isSome || ((s.status now).isTerminal && !s.paused) then pure (false, s)
  else
    let s ← { s with paused := false, phase := .stopping (.abort reason) }.advance root now
    pure (true, s)

/-- A compensation has failed for good. -/
def isReverseFailed : Bool :=
  match s.phase with
  | .reverseFailed _ => true
  | _ => false

/-- A failed or cancelled instance gets a new budget. -/
def renew (i : Instance) (now : ℤ) : Instance :=
  { i with
    state := { i.state with status := .pending, budgetAttempts := 0, errorCode := none }
    dueAt := now }

/-- The failed and cancelled instances of the phase that is continued. -/
def renewed (reverse : Bool) (now : ℤ) (i : Instance) : Instance :=
  if i.isCompensation = reverse ∧ (i.state.status = .failed ∨ i.state.status = .cancelled) then
    renew i now
  else i

/-- Resume a paused run, or retry a failed one or a failed reversal. -/
def continueRun (expectedEpoch : ℕ) (resume : Bool) (root : Value) (now : ℤ) :
    Except DomainError ExecutionState := do
  rejectIf (s.epoch ≠ expectedEpoch) .concurrentUpdate
  rejectIf s.anyRunning (.invalidState "run is still executing")
  let reverse := s.isReverseFailed
  rejectIf
    ((reverse && resume) ||
      (!reverse && (resume ≠ s.paused || (!resume && s.status now ≠ .failed))) ||
      (match s.phase with | .reversed _ => true | _ => false))
    (.invalidState "run cannot continue from its current phase")
  rejectIf (s.stageError.isSome && !reverse)
    (.invalidState "fan-out limits require a new run")
  checkedNext (2 ^ 64 - 1) s.epoch "epoch overflow"
  { s with
    epoch := s.epoch + 1
    phase := match s.phase with
      | .reverseFailed cause => .reversing cause
      | phase => phase
    paused := false
    -- what has succeeded is not run again
    instances := s.instances.map (renewed reverse now) }.advance root now

/-- A worker gives an instance back. -/
def release (index : ℕ) (fence now : ℤ) (root : Value) : Except DomainError ExecutionState := do
  rejectIf (!s.owns index fence now) .leaseLost
  { s with
    instances := s.instances.modify index fun i =>
      { i.finish .pending (some "interrupted") now with dueAt := now } }.advance root now

/-- The claim of the instance has run out. -/
def leaseExpired (now : ℤ) (i : Instance) : Bool :=
  i.isRunning && i.leaseUntil.all fun t => t ≤ now

/-- The claims whose leases have run out are taken back. -/
def recover (root : Value) (now : ℤ) : Except DomainError (Bool × ExecutionState) := do
  if s.instances.any (leaseExpired now) then
    let s ← { s with
      instances := s.instances.map fun i =>
        if leaseExpired now i then
          { i.finish .pending (some "lease_expired") now with dueAt := now }
        else i }.advance root now
    pure (true, s)
  else pure (false, s)

end ExecutionState

end Gears.Durable
