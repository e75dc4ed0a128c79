import Gears.Durable.Execution
import Gears.Lib.Pointwise

/-!
# What holds of every execution

* `Instance.Kept`, `Instance.Moved` : what a call may do to an instance.
* `ExecutionState.Base` : the bookkeeping of stages and instances.
* `ExecutionState.PhaseOk` : what each phase says about the instances.
* `ExecutionState.Loose`, `ExecutionState.Sound` : what holds inside a call and between calls.
-/

namespace Gears.Durable

open List

namespace Instance

variable {i i' : Instance} {c : ExecutionContract}

/-- What an instance is given once and for all. -/
abbrev Core := ActivityInstanceId × ℕ × ℕ × Value × Option Value

/-- What this instance is given. -/
def core (i : Instance) : Core := (i.identity, i.stage, i.template, i.input, i.receipt)

/-- The instance has not been claimed with its present budget. -/
def Untouched (i : Instance) : Prop := i.state.status = .pending ∧ i.state.budgetAttempts = 0

/-- The work is the same, and a success is final. -/
def Kept (i i' : Instance) : Prop := i'.core = i.core ∧ (i.isSucceeded → i' = i)

/-- A change of an instance that has begun and has not succeeded. -/
def Moved (i i' : Instance) : Prop :=
  i' = i ∨ (i'.core = i.core ∧ ¬ i.isSucceeded ∧ ¬ i.Untouched)

theorem Kept.refl (i : Instance) : i.Kept i := ⟨rfl, fun _ => rfl⟩

theorem Kept.trans {i'' : Instance} (h : i.Kept i') (h' : i'.Kept i'') : i.Kept i'' := by
  refine ⟨h'.1.trans h.1, fun hs => ?_⟩
  have hi := h.2 hs
  subst hi
  exact h'.2 hs

theorem Moved.refl (i : Instance) : i.Moved i := .inl rfl

theorem Moved.kept (h : i.Moved i') : i.Kept i' := by
  rcases h with rfl | ⟨hcore, hs, -⟩
  · exact .refl _
  · exact ⟨hcore, fun hs' => absurd hs' hs⟩

section

variable (h : i'.core = i.core)
include h

theorem identity_eq : i'.identity = i.identity := congrArg (·.1) h

theorem stage_eq : i'.stage = i.stage := congrArg (·.2.1) h

theorem template_eq : i'.template = i.template := congrArg (·.2.2.1) h

theorem isForward_eq : i'.isForward = i.isForward := by
  rw [isForward, isForward, identity_eq h]

theorem isCompensation_eq : i'.isCompensation = i.isCompensation := by
  rw [isCompensation, isCompensation, identity_eq h]

end

theorem isForward_iff : i.isForward ↔ ¬ i.isCompensation := by
  rw [isForward, isCompensation]
  cases i.identity.phase <;> simp

theorem isRunning_iff : i.isRunning ↔ i.state.status = .running := by simp [isRunning]

theorem isSucceeded_iff : i.isSucceeded ↔ i.state.status = .succeeded := by simp [isSucceeded]

theorem not_isSucceeded_of_isRunning (h : i.isRunning) : ¬ i.isSucceeded := by
  rw [isRunning_iff] at h
  rw [isSucceeded_iff, h]
  simp

theorem not_untouched_of_isRunning (h : i.isRunning) : ¬ i.Untouched := by
  rw [isRunning_iff] at h
  rintro ⟨hp, -⟩
  rw [h] at hp
  cases hp

@[simp] theorem status_finish (i : Instance) (status : ActivityStatus) (error : Option String)
    (now : ℤ) : (i.finish status error now).state.status = status := rfl

/-- A compensation stands for its core, a forward instance for nothing. -/
def compCore (i : Instance) : Option Core := if i.isCompensation then some i.core else none

/-- The core of the compensation that undoes a forward instance, if there is something to undo. -/
def undoCore (c : ExecutionContract) (i : Instance) : Option Core :=
  if i.isForward && i.isSucceeded && (c.activities[i.template]?).any (·.compensation.isSome) then
    some ({ i.identity with phase := .compensation }, i.stage, i.template, i.input, i.state.result)
  else none

theorem compCore_eq (h : i'.core = i.core) : i'.compCore = i.compCore := by
  rw [compCore, compCore, isCompensation_eq h, h]

/-- What is undone does not change as long as no forward instance comes to succeed. -/
theorem undoCore_eq (h : i.Kept i') (hf : i'.isForward → i'.isSucceeded → i.isSucceeded) :
    i'.undoCore c = i.undoCore c := by
  by_cases hs : i.isSucceeded
  · rw [h.2 hs]
  · by_cases hfwd : i'.isForward
    · have hs' : ¬ i'.isSucceeded := fun hs' => hs (hf hfwd hs')
      simp [undoCore, hs, hs']
    · have hfwd' : ¬ i.isForward := by rwa [← isForward_eq h.1]
      simp [undoCore, hfwd, hfwd']

/-- The instance has attempts left. -/
def HasBudget (c : ExecutionContract) (i : Instance) : Prop :=
  ∃ p, c.policyOf i = .ok p ∧ i.state.budgetAttempts < p.maxAttempts

/-- The instance is one of the activity that its template names. -/
def Fits (c : ExecutionContract) (i : Instance) : Prop :=
  ∃ spec, c.activities[i.template]? = some spec ∧ spec.id = i.identity.step ∧
    (i.isCompensation → spec.compensation.isSome)

theorem policyOf_eq (h : i'.core = i.core) : c.policyOf i' = c.policyOf i := by
  rw [ExecutionContract.policyOf, ExecutionContract.policyOf, template_eq h, identity_eq h]

theorem Fits.of_core_eq (hi : i.Fits c) (h : i'.core = i.core) : i'.Fits c := by
  rw [Fits, template_eq h, identity_eq h, isCompensation_eq h]
  exact hi

theorem Fits.exists_policy (hi : i.Fits c) (hc : c.Accepted) :
    ∃ p, c.policyOf i = .ok p ∧ 1 ≤ p.maxAttempts := by
  obtain ⟨spec, hspec, -, hcomp⟩ := hi
  have hmem := mem_of_getElem? hspec
  rw [ExecutionContract.policyOf, hspec]
  cases hphase : i.identity.phase with
  | forward => exact ⟨_, rfl, hc.retries spec hmem⟩
  | compensation =>
    obtain ⟨policy, hpolicy⟩ :=
      Option.isSome_iff_exists.1 (hcomp (by simp [isCompensation, hphase]))
    simp only [hpolicy]
    exact ⟨_, rfl, hc.compensationRetries spec hmem policy hpolicy⟩

theorem Fits.hasBudget (hi : i.Fits c) (hc : c.Accepted) (hb : i.state.budgetAttempts = 0) :
    i.HasBudget c := by
  obtain ⟨p, hp, hmax⟩ := hi.exists_policy hc
  exact ⟨p, hp, by omega⟩

end Instance

namespace ExecutionState

/-! ### The invariant -/

/-- The order of instances: forward ones first, and a compensation waits for those before it. -/
def Ordered (a b : Instance) : Prop :=
  a.isCompensation → b.isCompensation ∧ (a.isSucceeded ∨ b.Untouched)

/-- The bookkeeping of stages and instances. -/
structure Base (s : ExecutionState) : Prop where
  accepted : s.contract.Accepted
  stages : s.contract.stages = .ok s.stages
  fits : ∀ i ∈ s.instances, i.Fits s.contract
  placed : ∀ i ∈ s.instances, i.identity.step ∈ (s.stages[i.stage]?).getD []
  distinct : (s.instances.map (·.identity)).Nodup
  order : s.instances.Pairwise Ordered
  /-- Only stages that were begun have forward instances. -/
  begun : ∀ i ∈ s.instances, i.isForward → i.stage ∈ s.materialized
  /-- A stage is begun after all earlier ones are complete. -/
  earlier : ∀ k ∈ s.materialized, ∀ j < k, j ∈ s.completed
  done : ∀ k ∈ s.completed, k ∈ s.materialized ∧ k < s.stages.length ∧ s.stageDone k

/-- The compensations are those of the succeeded forward instances, last one first, and forward
instances have come to rest. -/
structure Reversal (c : ExecutionContract) (l : List Instance) : Prop where
  comps : l.filterMap (·.compCore) = (l.filterMap (·.undoCore c)).reverse
  quiet : ∀ i ∈ l, i.isForward → ¬ i.isRunning ∧ (i.state.status = .pending → i.HasBudget c)

/-- Neither failed nor cancelled. -/
def OnTheWay (i : Instance) : Prop :=
  i.state.status ≠ .failed ∧ i.state.status ≠ .cancelled

/-- What a phase says about the instances. -/
def PhaseOk (s : ExecutionState) : Phase → Prop
  | .forward | .stopping _ => ∀ i ∈ s.instances, i.isForward
  | .reversing _ => Reversal s.contract s.instances ∧
      (∀ i ∈ s.instances, i.isCompensation → OnTheWay i) ∧ (s.paused → ¬ s.anyRunning)
  | .reverseFailed _ => Reversal s.contract s.instances ∧ ¬ s.anyRunning
  | .reversed _ => Reversal s.contract s.instances ∧
      ∀ i ∈ s.instances, i.isCompensation → i.isSucceeded

/-- What holds inside a call, before the run is moved on. -/
structure Loose (s : ExecutionState) : Prop extends Base s where
  phaseOk : s.PhaseOk s.phase

/-- What holds between calls. -/
structure Sound (s : ExecutionState) : Prop extends Loose s where
  budget : ∀ i ∈ s.instances, i.state.status = .pending → i.HasBudget s.contract
  /-- A reversal goes on while a compensation is left. -/
  unfinished : ∀ cause, s.phase = .reversing cause →
    ∃ i ∈ s.instances, i.isCompensation ∧ ¬ i.isSucceeded

variable {s : ExecutionState} {l l' : List Instance} {c : ExecutionContract}

theorem Loose.phaseOk_of {phase : Phase} (h : s.Loose) (hphase : s.phase = phase) :
    s.PhaseOk phase := hphase ▸ h.phaseOk

theorem anyRunning_iff : s.anyRunning ↔ ∃ i ∈ s.instances, i.isRunning := by
  simp [anyRunning]

theorem stageDone_iff {k : ℕ} :
    s.stageDone k ↔ ∀ i ∈ s.instances, i.stage = k → i.isForward → i.isSucceeded := by
  simp only [stageDone, all_eq_true, mem_filter, Bool.and_eq_true, decide_eq_true_eq]
  exact ⟨fun h i hi hk hf => h i ⟨hi, hk, hf⟩, fun h i hi => h i hi.1 hi.2.1 hi.2.2⟩

theorem order_of_moved (h : Forall₂ Instance.Moved l l')
    (hl : l.Pairwise Ordered) : l'.Pairwise Ordered := by
  refine h.pairwise (fun a a' b b' ha hb hab hcomp => ?_) hl
  rw [Instance.isCompensation_eq ha.kept.1] at hcomp
  obtain ⟨hbcomp, hdone⟩ := hab hcomp
  refine ⟨by rwa [Instance.isCompensation_eq hb.kept.1], ?_⟩
  -- a success is final, and what is untouched has not moved
  rcases hdone with hs | hu
  · rw [ha.kept.2 hs]
    exact .inl hs
  · rcases hb with rfl | ⟨-, -, hnot⟩
    · exact .inr hu
    · exact absurd hu hnot

/-- The bookkeeping is kept by any change that keeps the work and the successes. -/
theorem Base.of_kept (h : s.Base) (hk : Forall₂ Instance.Kept s.instances l)
    (horder : l.Pairwise Ordered) : ({ s with instances := l } : ExecutionState).Base where
  accepted := h.accepted
  stages := h.stages
  fits i' hi' := by
    obtain ⟨i, hi, hii'⟩ := hk.exists_of_mem_right hi'
    exact (h.fits i hi).of_core_eq hii'.1
  placed i' hi' := by
    obtain ⟨i, hi, hii'⟩ := hk.exists_of_mem_right hi'
    rw [Instance.identity_eq hii'.1, Instance.stage_eq hii'.1]
    exact h.placed i hi
  distinct := by
    rw [← hk.map_eq fun a b hab => (Instance.identity_eq hab.1).symm]
    exact h.distinct
  order := horder
  begun i' hi' hf := by
    obtain ⟨i, hi, hii'⟩ := hk.exists_of_mem_right hi'
    rw [Instance.isForward_eq hii'.1] at hf
    rw [Instance.stage_eq hii'.1]
    exact h.begun i hi hf
  earlier := h.earlier
  done k hkc := by
    obtain ⟨hmem, hlt, hdone⟩ := h.done k hkc
    refine ⟨hmem, hlt, stageDone_iff.2 fun i' hi' hstage hf => ?_⟩
    obtain ⟨i, hi, hii'⟩ := hk.exists_of_mem_right hi'
    rw [Instance.isForward_eq hii'.1] at hf
    rw [Instance.stage_eq hii'.1] at hstage
    have hs := stageDone_iff.1 hdone i hi hstage hf
    rwa [hii'.2 hs]

theorem Base.of_moved (h : s.Base) (hm : Forall₂ Instance.Moved s.instances l) :
    ({ s with instances := l } : ExecutionState).Base :=
  h.of_kept (hm.imp fun _ _ => Instance.Moved.kept) (order_of_moved hm h.order)

/-- A reversal is kept when forward instances neither start nor come to succeed. -/
theorem Reversal.of_kept {R : Instance → Instance → Prop} (h : Reversal c l) (hR : Forall₂ R l l')
    (hkept : ∀ i i', R i i' → i.Kept i')
    (hfwd : ∀ i i', R i i' → i.isForward → (i'.isSucceeded → i.isSucceeded) ∧
      (¬ i.isRunning → ¬ i'.isRunning) ∧
      ((i.state.status = .pending → i.HasBudget c) →
        i'.state.status = .pending → i'.HasBudget c)) : Reversal c l' where
  comps := by
    rw [← hR.filterMap_eq fun i i' hi => (Instance.compCore_eq (hkept i i' hi).1).symm,
      h.comps, hR.filterMap_eq fun i i' hi => (Instance.undoCore_eq (hkept i i' hi) fun hf =>
        (hfwd i i' hi (by rwa [← Instance.isForward_eq (hkept i i' hi).1])).1).symm]
  quiet i' hi' hf := by
    obtain ⟨i, hi, hii'⟩ := hR.exists_of_mem_right hi'
    rw [Instance.isForward_eq (hkept i i' hii').1] at hf
    obtain ⟨-, hrun, hbudget⟩ := hfwd i i' hii' hf
    obtain ⟨hrun', hbudget'⟩ := h.quiet i hi hf
    exact ⟨hrun hrun', hbudget hbudget'⟩

end ExecutionState

end Gears.Durable
