import Gears.Durable.Calls

/-!
# A saga undoes what it did

* `ExecutionState.runCalls` : the state after a sequence of calls.
* `ExecutionState.Undoing` : the order of stages and what the compensations are.
* `saga_undoes_what_it_did` : it holds in every state that calls can reach.
-/

namespace Gears.Durable

open List

namespace ExecutionState

variable {s s' : ExecutionState} {root : Value}

/-- The state after a sequence of calls. -/
def runCalls (s : ExecutionState) (root : Value) (calls : List Call) : ExecutionState :=
  calls.foldl (fun s c => s.after root c) s

/-- The compensation instances, in the order they were made. -/
def compensations (s : ExecutionState) : List Instance := s.instances.filter (·.isCompensation)

/-- The forward instances that succeeded and whose activity declares a compensator. -/
def undoable (s : ExecutionState) : List Instance :=
  s.instances.filter fun i =>
    i.isForward && i.isSucceeded && (s.contract.activities[i.template]?).any (·.compensation.isSome)

/-- What a compensation is given to undo a forward instance. -/
def undoOf (i : Instance) : Instance.Core :=
  ({ i.identity with phase := .compensation }, i.stage, i.template, i.input, i.state.result)

/-- What holds of a state: stages in order, and compensations that are what there is to undo. -/
structure Undoing (s : ExecutionState) : Prop where
  stagesInOrder : ∀ i ∈ s.instances, ∀ j ∈ s.instances, i.isForward → j.isForward →
    i.stage < j.stage → i.isSucceeded
  forwardRests : s.compensations ≠ [] → ∀ i ∈ s.instances, i.isForward → ¬ i.isRunning
  undoes : s.compensations ≠ [] → s.compensations.map (·.core) = s.undoable.reverse.map undoOf
  compensated : ∀ now, s.status now = .compensated → ∀ i ∈ s.compensations, i.isSucceeded

/-- What holds of a claim that is granted: the instance has not succeeded, and if it is a
compensation all those before it have. -/
def ClaimAllowed (s : ExecutionState) (index : ℕ) : Prop :=
  ∃ i, s.instances[index]? = some i ∧ ¬ i.isSucceeded ∧
    (i.isCompensation → ∀ j < index, ∀ a, s.instances[j]? = some a → a.isCompensation →
      a.isSucceeded)

theorem Base.isSucceeded_of_lt (h : s.Base) {i j : Instance} (hi : i ∈ s.instances)
    (hj : j ∈ s.instances) (hfi : i.isForward) (hfj : j.isForward) (hlt : i.stage < j.stage) :
    i.isSucceeded := by
  have hcompleted := h.earlier j.stage (h.begun j hj hfj) i.stage hlt
  exact stageDone_iff.1 (h.done i.stage hcompleted).2.2 i hi rfl hfi

theorem Sound.reversal_of_compensations (h : s.Sound) (hne : s.compensations ≠ []) :
    Reversal s.contract s.instances := by
  obtain ⟨i, hi⟩ := exists_mem_of_ne_nil _ hne
  obtain ⟨hmem, hcomp⟩ := mem_filter.1 hi
  cases hphase : s.phase with
  | forward | stopping cause =>
    exact absurd hcomp (Instance.isForward_iff.1 (h.phaseOk_of hphase i hmem))
  | reversing cause | reverseFailed cause | reversed cause => exact (h.phaseOk_of hphase).1

theorem Reversal.map_core (h : Reversal s.contract s.instances) :
    s.compensations.map (·.core) = s.undoable.reverse.map undoOf := by
  have hcomp : s.instances.filterMap (·.compCore) = s.compensations.map (·.core) :=
    filterMap_ite_some _ _ _
  have hundo : s.instances.filterMap (·.undoCore s.contract) = s.undoable.map undoOf :=
    filterMap_ite_some _ _ _
  rw [← hcomp, h.comps, hundo, map_reverse]

theorem reversed_of_status {now : ℤ} (h : s.status now = .compensated) :
    ∃ cause, s.phase = .reversed cause := by
  unfold status at h
  split at h
  · cases h
  · cases h
  · exact ⟨_, by assumption⟩
  · cases h
  · repeat' split at h
    all_goals cases h

theorem Sound.undoing (h : s.Sound) : s.Undoing where
  stagesInOrder i hi j hj hfi hfj hlt := h.isSucceeded_of_lt hi hj hfi hfj hlt
  forwardRests hne i hi hf := ((h.reversal_of_compensations hne).quiet i hi hf).1
  undoes hne := (h.reversal_of_compensations hne).map_core
  compensated now hstatus i hi := by
    obtain ⟨cause, hphase⟩ := reversed_of_status hstatus
    obtain ⟨hmem, hcomp⟩ := mem_filter.1 hi
    exact (h.phaseOk_of hphase).2 i hmem hcomp

theorem Sound.claimAllowed (h : s.Sound) {index : ℕ} {now : ℤ} {lease : ℕ}
    (hc : s.call root (.claim index now lease) = .ok s') : s.ClaimAllowed index := by
  obtain ⟨⟨fence, _⟩, hclaim, rfl⟩ := Except.map_eq_ok_iff.1 hc
  obtain ⟨-, i, hi, hwaiting, hkind⟩ := mem_routable (h.claim hclaim).2
  refine ⟨i, hi, not_isSucceeded_of_isWaiting hwaiting, fun hcomp => ?_⟩
  rcases hkind with ⟨-, -, hforward, -⟩ | ⟨cause, -, -, hall⟩
  · exact absurd hcomp (Instance.isForward_iff.1 hforward)
  · exact hall

theorem Sound.runCalls (h : s.Sound) (root : Value) (calls : List Call) :
    Carries s (s.runCalls root calls) := by
  induction calls generalizing s with
  | nil => exact .refl h
  | cons c calls ih =>
    have hstep := h.after root c
    have hrest := ih hstep.sound
    exact ⟨hrest.sound, hrest.contract.trans hstep.contract, hrest.stages.trans hstep.stages,
      hstep.grown.trans hrest.grown⟩

theorem Grown.compensations_ne_nil (h : Grown s.instances s'.instances)
    (hne : s.compensations ≠ []) : s'.compensations ≠ [] := by
  obtain ⟨i, hi⟩ := exists_mem_of_ne_nil _ hne
  obtain ⟨hmem, hcomp⟩ := mem_filter.1 hi
  obtain ⟨changed, new, heq, hk⟩ := h
  obtain ⟨i', hi', hkept⟩ := hk.exists_of_mem_left hmem
  refine ne_nil_of_mem (mem_filter.2 ⟨?_, ?_⟩ : i' ∈ s'.instances.filter _)
  · rw [heq]
    exact mem_append_left _ hi'
  · rwa [Instance.isCompensation_eq hkept.1]

end ExecutionState

open ExecutionState

/-- **A saga undoes exactly what it did.**  In every state that calls reach from a new run, stages
are begun in order and the compensations are those of the succeeded forward instances, last one
first; whatever is called next, a success stays, forward instances rest once there are
compensations, and a compensation is claimed after all those before it have succeeded. -/
theorem saga_undoes_what_it_did {contract : ExecutionContract} (hv : contract.validate = .ok ())
    {root : Value} {start : ℤ} {s₀ : ExecutionState}
    (hnew : new contract root start = .ok s₀) (calls : List Call) :
    (s₀.runCalls root calls).Undoing ∧
      (∀ more, ∀ (j : ℕ) (i : Instance),
        (s₀.runCalls root calls).instances[j]? = some i → i.isSucceeded →
        ((s₀.runCalls root calls).runCalls root more).instances[j]? = some i) ∧
      (∀ more, (s₀.runCalls root calls).compensations ≠ [] →
        ∀ i ∈ ((s₀.runCalls root calls).runCalls root more).instances, i.isForward →
          ¬ i.isRunning) ∧
      ∀ index now lease s', (s₀.runCalls root calls).call root (.claim index now lease) = .ok s' →
        (s₀.runCalls root calls).ClaimAllowed index := by
  have hsound := ((sound_new hv hnew).1.runCalls root calls).sound
  refine ⟨hsound.undoing, fun more j i hi hs => ?_, fun more hne => ?_,
    fun index now lease s' hc => hsound.claimAllowed hc⟩
  · exact (hsound.runCalls root more).grown.getElem? hi hs
  · have hcarries := hsound.runCalls root more
    exact hcarries.sound.undoing.forwardRests (hcarries.grown.compensations_ne_nil hne)

/-- An activity that is tried once; its compensator, if it has one, is tried twice. -/
def sampleActivity (id : String) (undo : Bool) : ActivitySpec where
  id
  timeout := 1
  fanout := none
  retry := { maxAttempts := 1, initialDelay := 1, maxDelay := 1 }
  compensation := if undo then
      some { timeout := 1, retry := { maxAttempts := 2, initialDelay := 1, maxDelay := 1 } }
    else none

/-- Two activities, one after the other; the first one can be undone. -/
def sampleContract (saga : Bool) : ExecutionContract where
  saga
  name := "orders.reserve.v1"
  activities := [sampleActivity "reserve" true, sampleActivity "charge" false]
  stageSpecs := [.sequential "reserve", .sequential "charge"]
  flow := {
    version := 1
    inputs := {
      entries := [("charge", .checkpoint "reserve"), ("reserve", .runInput)]
      sorted := by decide }
    dependencies := { entries := [], sorted := by decide }
    output := .checkpoint "charge" }

/-- Three activities, one after the other; the first two can be undone. -/
def sampleSaga : ExecutionContract where
  saga := true
  name := "orders.ship.v1"
  activities :=
    [sampleActivity "reserve" true, sampleActivity "charge" true, sampleActivity "ship" false]
  stageSpecs := [.sequential "reserve", .sequential "charge", .sequential "ship"]
  flow := {
    version := 1
    inputs := {
      entries := [("charge", .checkpoint "reserve"), ("reserve", .runInput),
        ("ship", .checkpoint "charge")]
      sorted := by decide }
    dependencies := { entries := [], sorted := by decide }
    output := .checkpoint "ship" }

/-- The third activity fails for good, and the first two are undone; the first attempt to undo
the second one has to be repeated. -/
def sampleUndo : List Call :=
  [.claim 0 0 10, .finish 0 1 (.ok (.scalar "held")) 1 0, .claim 1 1 10,
    .finish 1 1 (.ok (.scalar "paid")) 2 0, .claim 2 2 10,
    .finish 2 1 (.error (.permanent "sold out")) 3 0, .claim 3 3 10,
    .finish 3 1 (.error (.retryable "busy" none)) 4 0, .claim 3 6 10,
    .finish 3 2 (.ok (.scalar "refunded")) 7 0, .claim 4 7 10,
    .finish 4 1 (.ok (.scalar "released")) 8 0]

theorem saga_undoes_what_it_did_sample : ∃ s₀, sampleSaga.validate = .ok () ∧
      new sampleSaga (.scalar "order") 0 = .ok s₀ ∧
      (s₀.runCalls (.scalar "order") sampleUndo).status 8 = .compensated ∧
      (s₀.runCalls (.scalar "order") sampleUndo).compensations.map (·.identity.key) =
        ["c/charge/single", "c/reserve/single"] ∧
      (s₀.runCalls (.scalar "order") sampleUndo).Undoing := by
  have hv : sampleSaga.validate = .ok () := by decide +kernel
  obtain ⟨s₀, hnew, hstatus, hkeys⟩ : ∃ s₀, new sampleSaga (.scalar "order") 0 =
      .ok s₀ ∧ (s₀.runCalls (.scalar "order") sampleUndo).status 8 = .compensated ∧
      (s₀.runCalls (.scalar "order") sampleUndo).compensations.map (·.identity.key) =
        ["c/charge/single", "c/reserve/single"] := by decide +kernel
  exact ⟨s₀, hv, hnew, hstatus, hkeys, (saga_undoes_what_it_did hv hnew sampleUndo).1⟩

end Gears.Durable
