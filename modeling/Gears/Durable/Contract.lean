import Mathlib.Data.String.Basic
import Mathlib.Data.List.Nodup
import Gears.Lib.Except

/-!
# Contracts of durable workflows

A contract lists the activities of a workflow, groups them in stages and says where each activity
reads its input.  A run executes the stages in order and, when it is stopped, the compensators of
the activities that succeeded in the reverse order.

* `RetryPolicy`, `ActivitySpec`, `StageSpec`, `DataFlowSpec`, `ExecutionContract` : the contract.
* `ExecutionContract.stages` : the activities by stage.
* `ExecutionContract.validate` : the checks a contract passes before a run can start.
* `ExecutionContract.Accepted` : what the checks establish.
-/

namespace Gears.Durable

open Except

/-- A JSON value: a list, or anything else by its text. -/
inductive Value where
  | scalar (text : String)
  | array (items : List Value)
  deriving Repr

/-- The items of a list. -/
def Value.asArray : Value → Option (List Value)
  | .scalar _ => none
  | .array items => some items

/-- Where an input is read from. -/
inductive InputSource where
  | runInput
  | checkpoint (id : String)
  | tuple (items : List InputSource)
  | list (items : List InputSource)
  | fanOutResults (id : String)
  | fanOutBranch (step : String) (index : ℕ)
  deriving Repr

mutual

/-- The activities a source refers to. -/
def InputSource.checkpoints : InputSource → List String
  | .runInput => []
  | .checkpoint id | .fanOutResults id | .fanOutBranch id _ => [id]
  | .tuple items | .list items => InputSource.checkpointsOf items

/-- The activities that some sources refer to. -/
def InputSource.checkpointsOf : List InputSource → List String
  | [] => []
  | source :: sources => source.checkpoints ++ InputSource.checkpointsOf sources

end

/-- A map with text keys, in the order of the keys. -/
structure TextMap (α : Type) where
  entries : List (String × α)
  sorted : (entries.map Prod.fst).Pairwise (· < ·)

namespace TextMap

variable {α : Type}

/-- The value of a key. -/
def get (m : TextMap α) (key : String) : Option α := m.entries.lookup key

/-- The keys in their order. -/
def keys (m : TextMap α) : List String := m.entries.map Prod.fst

end TextMap

/-! ### Errors -/

/-- What is wrong with a contract. -/
inductive DefinitionErrorKind where
  | invalidName
  | activityCount
  | duplicateActivityId
  | invalidActivityId
  | invalidTimeout
  | invalidRetryPolicy
  | invalidFanOut
  | invalidCompensationPolicy
  | invalidStages
  | invalidParallelStage
  | invalidDataFlow
  deriving DecidableEq, Repr

/-- An error with the activity it is about. -/
structure DefinitionError where
  kind : DefinitionErrorKind
  step : Option String
  deriving DecidableEq, Repr

/-- The error without a step. -/
def DefinitionError.new (kind : DefinitionErrorKind) : DefinitionError := { kind, step := none }

/-- The error about an activity. -/
def DefinitionError.forStep (e : DefinitionError) (step : String) : DefinitionError :=
  { e with step := some step }

/-! ### Policies

Durations are in nanoseconds. -/

/-- The longest duration: `2 ^ 64 - 1` seconds and all but one nanosecond of a second. -/
def durationMax : ℕ := 2 ^ 64 * 10 ^ 9 - 1

/-- A day. -/
def maxTimeout : ℕ := 24 * 3600 * 10 ^ 9

/-- How often and after what delay an attempt is repeated. -/
structure RetryPolicy where
  maxAttempts : ℕ
  initialDelay : ℕ
  maxDelay : ℕ
  deriving DecidableEq, Repr

/-- At least one attempt, and delays within a day. -/
def RetryPolicy.validate (p : RetryPolicy) : Except DefinitionError Unit :=
  rejectIf
    (p.maxAttempts = 0 ∨ p.initialDelay = 0 ∨ p.maxDelay < p.initialDelay ∨
      maxTimeout < p.maxDelay)
    (.new .invalidRetryPolicy)

/-- The delay before the attempt after `attempt`, doubled each time, with jitter on top. -/
def RetryPolicy.delay (p : RetryPolicy) (attempt : ℕ) (retryAfter : Option ℕ) (jitterSample : ℕ) :
    ℕ :=
  let factor := 2 ^ min (attempt - 1) 31
  let base := min (min (p.initialDelay * factor) durationMax) p.maxDelay
  let jitter := min (base * min jitterSample 1000 / 5000) (2 ^ 64 - 1)
  max (min (base + jitter) durationMax) (retryAfter.getD 0)

/-- The bounds of a fan-out. -/
structure FanOutOptions where
  maxItems : ℕ
  concurrency : ℕ
  deriving DecidableEq, Repr

/-- The bounds are within the limits of the service. -/
def FanOutOptions.validate (o : FanOutOptions) : Except DefinitionError Unit :=
  rejectIf
    (¬ (1 ≤ o.maxItems ∧ o.maxItems ≤ 1024) ∨ ¬ (1 ≤ o.concurrency ∧ o.concurrency ≤ 128))
    (.new .invalidFanOut)

/-- How a compensator is run. -/
structure CompensationPolicy where
  timeout : ℕ
  retry : RetryPolicy
  deriving DecidableEq, Repr

/-- One activity; in a saga it can have a compensator. -/
structure ActivitySpec where
  compensation : Option CompensationPolicy
  fanout : Option FanOutOptions
  id : String
  timeout : ℕ
  retry : RetryPolicy
  deriving DecidableEq, Repr

/-- Lower-case letters, digits and the given other characters. -/
def isIdChar (others : List Char) (c : Char) : Bool :=
  ('a' ≤ c && c ≤ 'z') || ('0' ≤ c && c ≤ '9') || others.contains c

/-- The activity names that are accepted. -/
def isActivityId (id : String) : Bool :=
  id ≠ "" && id.utf8ByteSize ≤ 80 && id.toList.all (isIdChar ['-', '_'])

/-- The checks of one activity. -/
def ActivitySpec.validate (a : ActivitySpec) : Except DefinitionError Unit := do
  rejectIf (!isActivityId a.id) ((DefinitionError.new .invalidActivityId).forStep a.id)
  rejectIf (a.timeout = 0 ∨ maxTimeout < a.timeout)
    ((DefinitionError.new .invalidTimeout).forStep a.id)
  a.retry.validate.mapError (·.forStep a.id)
  forSome a.fanout fun o => o.validate.mapError (·.forStep a.id)
  forSome a.compensation fun p =>
    rejectIf
      (p.timeout = 0 ∨ maxTimeout < p.timeout ∨ ¬ p.retry.validate.isOk)
      ((DefinitionError.new .invalidCompensationPolicy).forStep a.id)

/-! ### Contracts -/

/-- A stage; the steps of a parallel one, and the branches of a fan-out, run side by side. -/
inductive StageSpec where
  | sequential (step : String)
  | parallel (steps : List String)
  | fanOut (step : String)
  deriving DecidableEq, Repr

/-- The stage is a fan-out. -/
def StageSpec.isFanOut : StageSpec → Bool
  | .fanOut _ => true
  | _ => false

/-- Where every activity, and the run, takes its value from. -/
structure DataFlowSpec where
  version : ℕ
  inputs : TextMap InputSource
  dependencies : TextMap (List InputSource)
  output : InputSource

/-- A workflow as it is declared. -/
structure ExecutionContract where
  saga : Bool
  name : String
  activities : List ActivitySpec
  stageSpecs : List StageSpec
  flow : DataFlowSpec

/-- The digits after the last `.v` of a name. -/
def versionOf : List Char → Option (List Char)
  | [] => none
  | c :: rest =>
    match versionOf rest with
    -- a later `.v` wins
    | some v => some v
    | none => if c = '.' ∧ rest.head? = some 'v' then some rest.tail else none

/-- The name ends in a version that is a positive `u64`. -/
def isVersionedName (name : String) : Bool :=
  (versionOf name.toList).any fun v =>
    !v.isEmpty && v.all Char.isDigit &&
      (let n := v.foldl (fun n c => 10 * n + (c.toNat - '0'.toNat)) 0
      0 < n && n < 2 ^ 64)

/-- The checks of a workflow's name. -/
def validateName (name : String) : Except DefinitionError Unit :=
  rejectIf
    (¬ (name ≠ "" ∧ name.utf8ByteSize ≤ 160 ∧ name.toList.all (isIdChar ['.', '-', '_']) ∧
      isVersionedName name))
    (.new .invalidName)

namespace ExecutionContract

variable (c : ExecutionContract)

/-- The activities of a stage, each with the fan-out policy that the stage calls for. -/
def stageIds (stage : StageSpec) : Except DefinitionError (List String) := do
  let ids ← match stage with
    | .sequential step | .fanOut step => .ok [step]
    | .parallel steps =>
      if 2 ≤ steps.length then .ok steps else .error (.new .invalidParallelStage)
  ids.forM fun id =>
    match c.activities.find? (·.id = id) with
    | none => .error ((DefinitionError.new .invalidStages).forStep id)
    | some spec =>
      -- an activity has a fan-out policy exactly if its stage is a fan-out
      rejectIf (spec.fanout.isSome ≠ stage.isFanOut)
        ((DefinitionError.new .invalidStages).forStep id)
  pure ids

/-- The activities by stage; the stages list every activity once, in the order declared. -/
def stages : Except DefinitionError (List (List String)) := do
  let stages ← c.stageSpecs.mapM c.stageIds
  rejectIf (stages = [] ∨ stages.flatten ≠ c.activities.map (·.id)) (.new .invalidStages)
  pure stages

end ExecutionContract

/-- Every activity reads only what earlier stages produce. -/
def DataFlowSpec.validate (f : DataFlowSpec) (c : ExecutionContract) :
    Except DefinitionError Unit := do
  let invalid (step : String) := (DefinitionError.new .invalidDataFlow).forStep step
  rejectIf (f.version ≠ 1 ∨ f.inputs.entries.length ≠ c.activities.length)
    (.new .invalidDataFlow)
  let stages ← c.stages
  -- `previous` are the activities of the stages before
  let previous ← stages.foldlM (fun (previous stage : List String) => do
    stage.forM fun id =>
      match f.inputs.get id with
      | none => .error (invalid id)
      | some source =>
        rejectIf
          ((source :: (f.dependencies.get id).getD []).any fun dependency =>
            dependency.checkpoints.any fun checkpoint => !previous.contains checkpoint)
          (invalid id)
    pure (previous ++ stage)) []
  match f.dependencies.keys.find? fun id => !previous.contains id with
  | some id => .error (invalid id)
  | none => pure ()
  rejectIf (f.output.checkpoints.any fun id => !previous.contains id)
    (.new .invalidDataFlow)

namespace ExecutionContract

variable (c : ExecutionContract)

/-- The activities one by one: each is valid and its name is new. -/
def validateActivities : Except DefinitionError (List String) :=
  c.activities.foldlM (fun (ids : List String) a => do
    a.validate
    rejectIf (a.id ∈ ids) ((DefinitionError.new .duplicateActivityId).forStep a.id)
    pure (ids ++ [a.id])) []

/-- The checks in the order they are made. -/
def validate : Except DefinitionError Unit := do
  validateName c.name
  rejectIf (c.activities = [] ∨ 128 < c.activities.length) (.new .activityCount)
  let _ ← c.validateActivities
  let _ ← c.stages
  c.flow.validate c

/-- The facts about a validated contract that the execution of a run rests on. -/
structure Accepted : Prop where
  ids_nodup : (c.activities.map (·.id)).Nodup
  isActivityId : ∀ a ∈ c.activities, isActivityId a.id
  retries : ∀ a ∈ c.activities, 1 ≤ a.retry.maxAttempts
  compensationRetries : ∀ a ∈ c.activities, ∀ p ∈ a.compensation, 1 ≤ p.retry.maxAttempts
  stages : ∃ stages, c.stages = .ok stages ∧ stages ≠ [] ∧
    stages.flatten = c.activities.map (·.id)

end ExecutionContract

theorem RetryPolicy.one_le_of_validate {p : RetryPolicy} {u : Unit} (h : p.validate = .ok u) :
    1 ≤ p.maxAttempts := by
  rw [RetryPolicy.validate, rejectIf_eq_ok_iff] at h
  omega

theorem ActivitySpec.of_validate {a : ActivitySpec} (h : a.validate = .ok ()) :
    isActivityId a.id ∧ 1 ≤ a.retry.maxAttempts ∧
      ∀ p ∈ a.compensation, 1 ≤ p.retry.maxAttempts := by
  simp only [ActivitySpec.validate, ok_iffs, forSome_eq_ok_iff] at h
  obtain ⟨_, hid, _, -, _, hretry, _, -, hcomp⟩ := h
  refine ⟨by simpa using hid, RetryPolicy.one_le_of_validate hretry, fun p hp => ?_⟩
  have hvalid : p.retry.validate.isOk := by
    have := hcomp p hp
    tauto
  cases hr : p.retry.validate with
  | ok u => exact RetryPolicy.one_le_of_validate hr
  | error e => rw [hr] at hvalid; cases hvalid

namespace ExecutionContract

variable {c : ExecutionContract}

theorem of_validateActivities {ids : List String} (h : c.validateActivities = .ok ids) :
    ids = c.activities.map (·.id) ∧ ids.Nodup ∧ ∀ a ∈ c.activities, a.validate = .ok () := by
  refine foldlM_induction (P := fun seen (ids : List String) =>
    ids = seen.map (·.id) ∧ ids.Nodup ∧ ∀ a ∈ seen, a.validate = .ok ())
    ⟨rfl, List.nodup_nil, by simp⟩ ?_ h
  rintro seen ids a ids' ⟨rfl, hnodup, hvalid⟩ hstep
  simp only [ok_iffs] at hstep
  obtain ⟨_, ha, _, hnew, rfl⟩ := hstep
  refine ⟨by simp, ?_, List.forall_mem_append.2 ⟨hvalid, List.forall_mem_singleton.2 ha⟩⟩
  rw [List.nodup_append_comm]
  exact List.nodup_cons.2 ⟨hnew, hnodup⟩

theorem flatten_of_stages {stages : List (List String)} (h : c.stages = .ok stages) :
    stages ≠ [] ∧ stages.flatten = c.activities.map (·.id) := by
  simp only [ExecutionContract.stages, ok_iffs] at h
  obtain ⟨_, -, _, hcond, rfl⟩ := h
  simpa only [not_or, not_not] using hcond

theorem accepted_of_validate {u : Unit} (h : c.validate = .ok u) : c.Accepted := by
  simp only [validate, bind_eq_ok_iff] at h
  obtain ⟨_, -, _, -, ids, hids, stages, hstages, -⟩ := h
  obtain ⟨rfl, hnodup, hvalid⟩ := of_validateActivities hids
  have hactivity a ha := ActivitySpec.of_validate (hvalid a ha)
  exact ⟨hnodup, fun a ha => (hactivity a ha).1, fun a ha => (hactivity a ha).2.1,
    fun a ha => (hactivity a ha).2.2, stages, hstages, flatten_of_stages hstages⟩

end ExecutionContract

end Gears.Durable
