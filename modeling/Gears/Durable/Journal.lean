import Gears.Durable.Calls
import Gears.Lib.Text

/-!
# The journal of a run

The journal wraps the execution of a run with what is stored and delivered: the public status, the
time of the next attempt, the delivery generation that makes older deliveries stale, and the
snapshots of earlier epochs.  Every call that changes the execution derives all of these from it
again.  The fingerprint of a contract is a parameter `digest`.

* `Journal.claimTarget`, `heartbeat`, `complete`, `fail`, `release`, `recover`, `requestCancelAt`,
  `requestAbortAt`, `continueExecution` : the calls of workers and users.
* `Journal.publicationActivities` : what is published for delivery.
* `JournalCall`, `Journal.call` : the calls as events.
* `Journal.Sound`, `Journal.Sound.call` : the stored status and schedule are those of the execution.
-/

namespace Gears.Durable

open Except hiding error

variable {now : ℤ}

/-- What is kept of an earlier epoch. -/
structure ExecutionSnapshot where
  compensationCause : Option Cause
  errorCode : Option String
  instances : List (ActivityInstanceId × ℕ)
  completedAt : Option ℤ
  epoch : ℕ
  status : RunStatus
  endedAt : ℤ
  activities : List ActivityRun
  stopReason : Option String

/-- The public view of a run. -/
structure Run where
  status : RunStatus
  activities : List ActivityRun
  updatedAt : ℤ
  nextAttemptAt : Option ℤ
  errorCode : Option String
  executionEpoch : ℕ
  stopReason : Option String
  previousExecutions : List ExecutionSnapshot

/-- A run as it is stored. -/
structure Journal where
  execution : ExecutionState
  run : Run
  input : Value
  completedAt : Option ℤ
  fingerprint : String
  leaseUntil : Option ℤ
  deliveryGeneration : ℤ
  cancellationRequested : Bool

/-- A claim on one instance. -/
structure Claim where
  fence : ℤ
  step : ℕ
  deriving DecidableEq, Repr

/-- The text without white space at its ends. -/
def trim (text : String) : String :=
  let front := text.toList.dropWhile isWhiteSpace
  String.ofList ((front.reverse.dropWhile isWhiteSpace).reverse)

/-- The first 240 characters. -/
def shorten (text : String) : String := String.ofList (text.toList.take 240)

/-- The last number of a delivery. -/
def lastGeneration : ℤ := 2 ^ 63 - 1

namespace Journal

section

variable (digest : ExecutionContract → String) (j : Journal)

/-- The fingerprint of a valid contract. -/
def fingerprintOf (definition : ExecutionContract) : Except DomainError String := do
  definition.validate.mapError .definition
  pure (digest definition)

/-- The key of an instance. -/
def keyOf (index : ℕ) : Option String := (j.execution.instances[index]?).map (·.identity.key)

/-- The instances published for the next attempt. -/
def publicationActivities : List String :=
  match j.run.nextAttemptAt with
  | none => []
  | some at_ => (j.execution.publicationCandidates at_).filterMap j.keyOf

/-- A run at rest is complete from then on. -/
def touch (now : ℤ) : Journal :=
  { j with
    completedAt :=
      if j.run.status.isTerminal && !j.run.activities.any (fun a => a.status = .running) then
        j.completedAt <|> some now
      else none
    run := { j.run with updatedAt := now } }

/-- Everything stored beside the execution is derived from it. -/
def syncExecution (now : ℤ) (schedule : Bool) : Except DomainError Journal := do
  let e := j.execution
  let nextAttemptAt := e.nextDue
  rejectIf (schedule ∧ nextAttemptAt.isSome ∧ lastGeneration ≤ j.deliveryGeneration)
    (.internal "delivery generation overflow")
  pure (({ j with
    run := { j.run with
      activities := e.instances.map (·.state)
      status := e.status now
      nextAttemptAt
      errorCode := e.instances.reverse.findSome? (·.state.errorCode) <|> e.stageError }
    cancellationRequested := e.cancellationRequested
    leaseUntil := (e.instances.filterMap (·.leaseUntil)).min?
    deliveryGeneration :=
      if schedule && nextAttemptAt.isSome then j.deliveryGeneration + 1 else j.deliveryGeneration
    : Journal }).touch now)

/-- A run that cannot go on under the contract at hand. -/
def block (code : String) (now : ℤ) : Journal :=
  ({ j with
    run := { j.run with status := .blocked, errorCode := some code, nextAttemptAt := none }
    leaseUntil := none : Journal }).touch now

/-- The journal of a run that starts. -/
def new (definition : ExecutionContract) (input : Value) (now : ℤ) :
    Except DomainError Journal := do
  let execution ← ExecutionState.new definition input now
  let fingerprint ← fingerprintOf digest definition
  { execution
    run := {
      status := .queued
      activities := []
      updatedAt := now
      nextAttemptAt := some now
      errorCode := none
      executionEpoch := 0
      stopReason := none
      previousExecutions := [] }
    input
    completedAt := none
    fingerprint
    leaseUntil := none
    deliveryGeneration := 0
    cancellationRequested := false : Journal }.syncExecution now false

/-- The instance that a delivery selects: the one it names, or the first that is ready. -/
def selected (target : Option String) (now : ℤ) : Option ℕ :=
  match target with
  | none => (j.execution.ready now).head?
  | some key =>
    (j.execution.instances.findIdx? fun i => i.identity.key = key).filter fun index =>
      j.execution.canClaim index now

/-- A delivery claims the instance it selects, unless it is stale. -/
def claimTarget (definition : ExecutionContract) (generation : ℤ) (target : Option String)
    (now : ℤ) (lease : ℕ) : Except DomainError (Option Claim × Journal) := do
  if j.run.status = .blocked ∨ generation ≠ j.deliveryGeneration then pure (none, j)
  else
    let fingerprint ← fingerprintOf digest definition
    if j.fingerprint ≠ fingerprint then pure (none, j.block "definition_mismatch" now)
    else match j.selected target now with
      | none => pure (none, j)
      | some step =>
        let (fence, execution) ← j.execution.claim step now lease
        let j ← ({ j with execution }).syncExecution now true
        pure (some { fence, step }, j)

/-- The owner extends its lease. -/
def heartbeat (claim : Claim) (now : ℤ) (lease : ℕ) : Except DomainError Journal := do
  let (changed, execution) ← j.execution.heartbeat claim.step claim.fence now lease
  if changed then ({ j with execution }).syncExecution now false else pure j

/-- The outcome of an attempt: a result or an error. -/
def finish (claim : Claim) (result : Except ActivityError Value) (now : ℤ) (jitter : ℕ) :
    Except DomainError Journal := do
  let execution ← j.execution.finish claim.step claim.fence result j.input now jitter
  ({ j with execution }).syncExecution now true

/-- The attempt succeeded. -/
def complete (claim : Claim) (result : Value) (now : ℤ) : Except DomainError Journal :=
  j.finish claim (.ok result) now 0

/-- The attempt failed. -/
def fail (claim : Claim) (error : ActivityError) (now : ℤ) (jitter : ℕ) :
    Except DomainError Journal :=
  j.finish claim (.error error) now jitter

/-- The owner gives the instance back. -/
def release (claim : Claim) (now : ℤ) : Except DomainError Journal := do
  let execution ← j.execution.release claim.step claim.fence now j.input
  ({ j with execution }).syncExecution now true

/-- Leases that have run out are taken back. -/
def recover (now : ℤ) : Except DomainError Journal := do
  let (changed, execution) ← j.execution.recover j.input now
  if changed then ({ j with execution }).syncExecution now true else pure j

/-- Whether the run was changed, and the journal. -/
def requestCancelAt (expectedEpoch : ℕ) (now : ℤ) (reason : Option String) :
    Except DomainError (Bool × Journal) := do
  rejectIf (j.run.executionEpoch ≠ expectedEpoch) .concurrentUpdate
  rejectIf j.execution.isCompensation (.invalidState "compensation cannot be cancelled")
  if j.run.status.isTerminal || j.cancellationRequested then pure (false, j)
  else
    let execution ← j.execution.pause
    let stopReason := ((reason.map trim).filter (· ≠ "")).map shorten
    let j ← ({ j with execution, run := { j.run with stopReason } }).syncExecution now false
    pure (true, j)

/-- Stop the run of an epoch for good. -/
def requestAbortAt (expectedEpoch : ℕ) (now : ℤ) (reason : Option String) :
    Except DomainError (Bool × Journal) := do
  rejectIf (j.run.executionEpoch ≠ expectedEpoch) .concurrentUpdate
  let (changed, execution) ← j.execution.abort (reason.map shorten) j.input now
  if changed then
    let j ← ({ j with execution }).syncExecution now true
    pure (true, j)
  else pure (false, j)

/-- The epoch that ends. -/
def epochSnapshot : ExecutionSnapshot where
  compensationCause := j.execution.cause
  errorCode := j.run.errorCode
  instances := j.execution.instances.map fun i => (i.identity, min i.stage (2 ^ 32 - 1))
  completedAt := j.completedAt
  epoch := j.run.executionEpoch
  status := j.run.status
  endedAt := j.run.updatedAt
  activities := j.run.activities
  stopReason := j.run.stopReason

/-- Begin the next epoch; a repeated call finds it begun. -/
def continueExecution (expectedEpoch : ℕ) (from_ : RunStatus) (definition : ExecutionContract)
    (now : ℤ) : Except DomainError (Bool × Journal) := do
  let fingerprint ← fingerprintOf digest definition
  rejectIf (j.fingerprint ≠ fingerprint) .definitionMismatch
  checkedNext (2 ^ 64 - 1) expectedEpoch "epoch overflow"
  if j.run.executionEpoch = expectedEpoch + 1 ∧
      j.run.previousExecutions.getLast?.any (fun s => s.epoch = expectedEpoch) then
    pure (false, j)
  else
    checkedNext lastGeneration j.deliveryGeneration "delivery generation overflow"
    let execution ← j.execution.continueRun expectedEpoch (from_ = .cancelled) j.input now
    let j ← ({ j with
      execution
      run := { j.run with
        stopReason := none
        previousExecutions := j.run.previousExecutions ++ [j.epochSnapshot]
        executionEpoch := expectedEpoch + 1 } }).syncExecution now true
    pure (true, j)

end

end Journal

/-- The calls on a journal; a worker claims with the contract of the run. -/
inductive JournalCall where
  | claimTarget (generation : ℤ) (target : Option String) (now : ℤ) (lease : ℕ)
  | heartbeat (claim : Claim) (now : ℤ) (lease : ℕ)
  | complete (claim : Claim) (result : Value) (now : ℤ)
  | fail (claim : Claim) (error : ActivityError) (now : ℤ) (jitter : ℕ)
  | release (claim : Claim) (now : ℤ)
  | recover (now : ℤ)
  | requestCancelAt (expectedEpoch : ℕ) (now : ℤ) (reason : Option String)
  | requestAbortAt (expectedEpoch : ℕ) (now : ℤ) (reason : Option String)
  | continueExecution (expectedEpoch : ℕ) (from_ : RunStatus) (definition : ExecutionContract)
      (now : ℤ)

namespace Journal

variable (digest : ExecutionContract → String)

/-- One call. -/
def call (j : Journal) : JournalCall → Except DomainError Journal
  | .claimTarget generation target now lease =>
    (j.claimTarget digest j.execution.contract generation target now lease).map (·.2)
  | .heartbeat claim now lease => j.heartbeat claim now lease
  | .complete claim result now => j.complete claim result now
  | .fail claim error now jitter => j.fail claim error now jitter
  | .release claim now => j.release claim now
  | .recover now => j.recover now
  | .requestCancelAt expectedEpoch now reason =>
    (j.requestCancelAt expectedEpoch now reason).map (·.2)
  | .requestAbortAt expectedEpoch now reason =>
    (j.requestAbortAt expectedEpoch now reason).map (·.2)
  | .continueExecution expectedEpoch from_ definition now =>
    (j.continueExecution digest expectedEpoch from_ definition now).map (·.2)

/-! ### The journal follows the execution -/

/-- The call on the execution that a call on the journal makes, if it makes one. -/
def executionCall (j : Journal) : JournalCall → Option Call
  | .claimTarget _ target now lease =>
    (j.selected target now).map fun step => .claim step now lease
  | .heartbeat claim now lease => some (.heartbeat claim.step claim.fence now lease)
  | .complete claim result now => some (.finish claim.step claim.fence (.ok result) now 0)
  | .fail claim error now jitter => some (.finish claim.step claim.fence (.error error) now jitter)
  | .release claim now => some (.release claim.step claim.fence now)
  | .recover now => some (.recover now)
  | .requestCancelAt _ _ _ => some .pause
  | .requestAbortAt _ now reason => some (.abort (reason.map shorten) now)
  | .continueExecution expectedEpoch from_ _ now =>
    some (.continueRun expectedEpoch (from_ = .cancelled) now)

/-- The contract is valid, and its fingerprint is stored. -/
structure Registered (j : Journal) : Prop where
  valid : j.execution.contract.validate = .ok ()
  fingerprint : j.fingerprint = digest j.execution.contract

/-- A sound execution of a registered contract, with its activities. -/
structure Stored (j : Journal) : Prop extends j.Registered digest where
  execution : j.execution.Sound
  activities : j.run.activities = j.execution.instances.map (·.state)

/-- What is stored beside a sound execution is derived from it. -/
structure Sound (j : Journal) : Prop extends j.Stored digest where
  status : ∃ t, j.run.status = j.execution.status t
  nextAttemptAt : j.run.nextAttemptAt = j.execution.nextDue
  cancellationRequested : j.cancellationRequested = j.execution.cancellationRequested

variable {digest} {j j' : Journal}

theorem syncExecution_spec {schedule : Bool} (h : j.syncExecution now schedule = .ok j') :
    j'.execution = j.execution ∧ j'.input = j.input ∧ j'.fingerprint = j.fingerprint ∧
      j'.run.status = j.execution.status now ∧ j'.run.nextAttemptAt = j.execution.nextDue ∧
      j'.cancellationRequested = j.execution.cancellationRequested ∧
      j'.run.activities = j.execution.instances.map (·.state) := by
  simp only [syncExecution, ok_iffs] at h
  obtain ⟨_, -, rfl⟩ := h
  exact ⟨rfl, rfl, rfl, rfl, rfl, rfl, rfl⟩

theorem sound_of_sync {schedule : Bool} (hexec : j.execution.Sound) (hj : j.Registered digest)
    (h : j.syncExecution now schedule = .ok j') : j'.Sound digest := by
  obtain ⟨he, -, hf, hs, hn, hc, ha⟩ := syncExecution_spec h
  exact ⟨⟨⟨he ▸ hj.valid, by rw [hf, he, hj.fingerprint]⟩, he ▸ hexec, by rw [ha, he]⟩,
    ⟨now, by rw [hs, he]⟩, by rw [hn, he], by rw [hc, he]⟩

/-- A delivery claims nothing and changes nothing, or claims the selected instance. -/
theorem claimTarget_spec (hj : j.Registered digest) {generation : ℤ} {target : Option String}
    {lease : ℕ} {claim : Option Claim}
    (h : j.claimTarget digest j.execution.contract generation target now lease = .ok (claim, j')) :
    claim = none ∧ j' = j ∨ ∃ (step fence : ℕ) (execution : ExecutionState),
      j.selected target now = some step ∧
      j.execution.claim step now lease = .ok (fence, execution) ∧
      claim = some { fence, step } ∧
      ({ j with execution } : Journal).syncExecution now true = .ok j' := by
  unfold claimTarget at h
  split at h
  · cases h
    exact .inl ⟨rfl, rfl⟩
  · have hfp : fingerprintOf digest j.execution.contract = .ok j.fingerprint := by
      rw [fingerprintOf, hj.valid, hj.fingerprint]
      rfl
    rw [hfp, ok_bind, if_neg (not_not.2 rfl)] at h
    split at h
    · cases h
      exact .inl ⟨rfl, rfl⟩
    · next step hsel =>
      simp only [ok_iffs, Prod.exists] at h
      obtain ⟨fence, execution, hclaim, _, hsync, rfl, rfl⟩ := h
      exact .inr ⟨step, fence, execution, hsel, hclaim, rfl, hsync⟩

/-- **A call on the journal** leaves it alone, or makes one call on the execution and derives the
rest from the result. -/
theorem call_spec (hj : j.Registered digest) {c : JournalCall} (h : j.call digest c = .ok j') :
    j' = j ∨ ∃ (x : Call) (m : Journal) (now : ℤ) (schedule : Bool), j.executionCall c = some x ∧
      j.execution.call j.input x = .ok m.execution ∧ m.input = j.input ∧
      m.fingerprint = j.fingerprint ∧ m.syncExecution now schedule = .ok j' := by
  cases c with
  | claimTarget generation target now lease =>
    obtain ⟨⟨claim, _⟩, hclaim, rfl⟩ := map_eq_ok_iff.1 h
    rcases claimTarget_spec hj hclaim with ⟨-, rfl⟩ | ⟨step, fence, execution, hsel, hcall, -,
      hsync⟩
    · exact .inl rfl
    · refine .inr ⟨.claim step now lease, { j with execution }, now, true, ?_, ?_, rfl, rfl, hsync⟩
      · rw [executionCall, hsel, Option.map_some]
      · exact map_eq_ok_iff.2 ⟨_, hcall, rfl⟩
  | heartbeat | recover =>
    simp only [call, heartbeat, recover, bind_eq_ok_iff, Prod.exists] at h
    obtain ⟨changed, execution, hcall, h⟩ := h
    split at h
    · refine .inr ⟨_, { j with execution }, _, _, rfl, ?_, rfl, rfl, h⟩
      exact map_eq_ok_iff.2 ⟨_, hcall, rfl⟩
    · cases h
      exact .inl rfl
  | complete | fail | release =>
    simp only [call, complete, fail, finish, release, bind_eq_ok_iff] at h
    obtain ⟨execution, hcall, h⟩ := h
    exact .inr ⟨_, { j with execution }, _, _, rfl, hcall, rfl, rfl, h⟩
  | requestCancelAt expectedEpoch now reason =>
    obtain ⟨⟨changed, _⟩, hreq, rfl⟩ := map_eq_ok_iff.1 h
    simp only [requestCancelAt, bind_eq_ok_iff] at hreq
    obtain ⟨_, -, _, -, hreq⟩ := hreq
    split at hreq
    · cases hreq
      exact .inl rfl
    · simp only [ok_iffs] at hreq
      obtain ⟨execution, hcall, _, hsync, -, rfl⟩ := hreq
      refine .inr ⟨_, _, now, false, rfl, ?_, ?_, ?_, hsync⟩
      exacts [hcall, rfl, rfl]
  | requestAbortAt expectedEpoch now reason =>
    obtain ⟨⟨changed, _⟩, hreq, rfl⟩ := map_eq_ok_iff.1 h
    simp only [requestAbortAt, bind_eq_ok_iff, Prod.exists] at hreq
    obtain ⟨_, -, changed', execution, hcall, hreq⟩ := hreq
    split at hreq
    · simp only [ok_iffs] at hreq
      obtain ⟨_, hsync, -, rfl⟩ := hreq
      refine .inr ⟨_, { j with execution }, now, true, rfl, ?_, rfl, rfl, hsync⟩
      exact map_eq_ok_iff.2 ⟨_, hcall, rfl⟩
    · cases hreq
      exact .inl rfl
  | continueExecution expectedEpoch from_ definition now =>
    obtain ⟨⟨changed, _⟩, hreq, rfl⟩ := map_eq_ok_iff.1 h
    simp only [continueExecution, bind_eq_ok_iff] at hreq
    obtain ⟨_, -, _, -, _, -, hreq⟩ := hreq
    split at hreq
    · cases hreq
      exact .inl rfl
    · simp only [ok_iffs] at hreq
      obtain ⟨_, -, execution, hcall, _, hsync, -, rfl⟩ := hreq
      refine .inr ⟨_, _, now, true, rfl, ?_, ?_, ?_, hsync⟩
      exacts [hcall, rfl, rfl]

theorem Stored.call_cases (hj : j.Stored digest) {c : JournalCall} (h : j.call digest c = .ok j') :
    j' = j ∨ j'.Sound digest := by
  refine (call_spec hj.toRegistered h).imp_right ?_
  rintro ⟨x, m, now, schedule, -, hcall, -, hf, hsync⟩
  have hcarries := hj.execution.call hcall
  exact sound_of_sync hcarries.sound ⟨hcarries.contract ▸ hj.valid,
    by rw [hf, hj.fingerprint, hcarries.contract]⟩ hsync

theorem Stored.call (hj : j.Stored digest) {c : JournalCall} (h : j.call digest c = .ok j') :
    j'.Stored digest := (hj.call_cases h).elim (fun heq => heq ▸ hj) Sound.toStored

theorem Sound.call (hj : j.Sound digest) {c : JournalCall} (h : j.call digest c = .ok j') :
    j'.Sound digest := (hj.call_cases h).elim (fun heq => heq ▸ hj) id

theorem sound_new {contract : ExecutionContract} {input : Value} {start : ℤ}
    (h : Journal.new digest contract input start = .ok j) :
    j.Sound digest ∧ j.execution.contract = contract := by
  simp only [Journal.new, fingerprintOf, ok_iffs] at h
  obtain ⟨execution, hexec, _, ⟨_, hvalid, rfl⟩, h⟩ := h
  obtain ⟨hsound, rfl⟩ := ExecutionState.sound_new hvalid hexec
  exact ⟨sound_of_sync hsound ⟨hvalid, rfl⟩ h, congrArg _ (syncExecution_spec h).1⟩

end Journal

end Gears.Durable
