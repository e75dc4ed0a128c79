import Gears.Durable.Journal
import Gears.Durable.Saga
import Gears.Lib.Machine

/-!
# Success and completed compensation are final

A run that succeeded or was compensated is at rest: nothing runs, nothing waits, and moving on finds
nothing to do.  One command is not refused there: an abort of a run whose pause raced with the final
checkpoint.

* `ExecutionState.Finished`, `ExecutionState.SameWork` : a run at rest, and what a call leaves.
* `ExecutionState.Finished.call` : every call but that abort leaves it alone.
* `finished_runs_rest` : over whole runs of the journal.
* `abort_reverses_success` : the abort that is not refused.
-/

namespace Gears.Durable

open Except List

namespace ExecutionState

variable {s s' : ExecutionState} {now : ℤ} {root : Value}

/-- Every stage is complete, or the reversal has ended. -/
def Finished (s : ExecutionState) : Prop :=
  s.phase = .forward ∧ s.completed.card = s.stages.length ∨ ∃ cause, s.phase = .reversed cause

/-- The instances and all that the status depends on at rest. -/
structure SameWork (s s' : ExecutionState) : Prop where
  instances : s'.instances = s.instances
  phase : s'.phase = s.phase
  completed : s'.completed = s.completed
  stages : s'.stages = s.stages

theorem SameWork.refl (s : ExecutionState) : SameWork s s := ⟨rfl, rfl, rfl, rfl⟩

theorem SameWork.finished (h : SameWork s s') (hs : s.Finished) : s'.Finished := by
  rw [Finished, h.phase, h.completed, h.stages]
  exact hs

theorem status_eq_succeeded_iff :
    s.status now = .succeeded ↔ s.phase = .forward ∧ s.completed.card = s.stages.length := by
  unfold status
  cases s.phase with
  | forward =>
    by_cases hdone : s.completed.card = s.stages.length
    · simp [hdone]
    · simp only [hdone, if_false, and_false, iff_false]
      repeat' split
      all_goals nofun
  | _ => simp

theorem status_eq_compensated_iff :
    s.status now = .compensated ↔ ∃ cause, s.phase = .reversed cause := by
  refine ⟨reversed_of_status, fun ⟨cause, hphase⟩ => ?_⟩
  rw [status, hphase]

theorem finished_iff_status :
    s.Finished ↔ s.status now = .succeeded ∨ s.status now = .compensated := by
  rw [status_eq_succeeded_iff, status_eq_compensated_iff, Finished]

theorem SameWork.status_eq (h : SameWork s s') (hs : s.Finished) (t t' : ℤ) :
    s'.status t' = s.status t := by
  rcases hs with hs | hs
  · rw [status_eq_succeeded_iff.2 hs, status_eq_succeeded_iff, h.phase, h.completed, h.stages]
    exact hs
  · rw [status_eq_compensated_iff.2 hs, status_eq_compensated_iff, h.phase]
    exact hs

/-! ### Nothing is left to do -/

theorem Base.completed_eq_range (h : s.Base) (hcard : s.completed.card = s.stages.length) :
    s.completed = Finset.range s.stages.length := by
  have hsub : s.completed ⊆ Finset.range s.stages.length :=
    fun k hk => Finset.mem_range.2 (h.done k hk).2.1
  exact Finset.eq_of_subset_of_card_le hsub (by rw [Finset.card_range, hcard])

theorem Sound.isSucceeded_of_completed (h : s.Sound) (hphase : s.phase = .forward)
    (hcard : s.completed.card = s.stages.length) : ∀ i ∈ s.instances, i.isSucceeded := by
  intro i hi
  have hlt : i.stage < s.stages.length := by
    by_contra hge
    have hplaced := h.placed i hi
    rw [getElem?_eq_none (Nat.le_of_not_lt hge)] at hplaced
    cases hplaced
  have hmem : i.stage ∈ s.completed := by
    rw [h.completed_eq_range hcard]
    exact Finset.mem_range.2 hlt
  exact stageDone_iff.1 (h.done i.stage hmem).2.2 i hi rfl (h.forward hphase i hi)

theorem Finished.not_isRunning (hf : s.Finished) (h : s.Sound) :
    ∀ i ∈ s.instances, ¬ i.isRunning := by
  intro i hi hr
  rcases hf with ⟨hphase, hcard⟩ | ⟨cause, hphase⟩
  · exact Instance.not_isSucceeded_of_isRunning hr (h.isSucceeded_of_completed hphase hcard i hi)
  · rcases h.phase_of_running hi hr with ⟨hforward | ⟨_, hstopping⟩, -⟩ | ⟨⟨_, hreversing⟩, -⟩
    · cases hphase.symm.trans hforward
    · cases hphase.symm.trans hstopping
    · cases hphase.symm.trans hreversing

theorem Finished.not_owns (hf : s.Finished) (h : s.Sound) (index : ℕ) (fence : ℤ) :
    ¬ s.owns index fence now := by
  intro hown
  obtain ⟨i, hi, -, hr, -⟩ := owns_iff.1 hown
  exact hf.not_isRunning h i (mem_of_getElem? hi) hr

theorem Finished.routable_eq_nil (hf : s.Finished) (h : s.Sound) : s.routable = [] := by
  refine eq_nil_iff_forall_not_mem.2 fun index hmem => ?_
  obtain ⟨-, i, hi, hwaiting, hkind⟩ := mem_routable hmem
  rcases hf with ⟨hphase, hcard⟩ | ⟨cause, hphase⟩
  · exact not_isSucceeded_of_isWaiting hwaiting
      (h.isSucceeded_of_completed hphase hcard i (mem_of_getElem? hi))
  · rcases hkind with ⟨hforward, -⟩ | ⟨_, hreversing, -⟩
    · cases hphase.symm.trans hforward
    · cases hphase.symm.trans hreversing

theorem expand_of_completed {stages : List ℕ} (h : ∀ k ∈ stages, k ∈ s.completed) :
    expand root now stages s = .ok s := by
  induction stages with
  | nil => rfl
  | cons k stages ih =>
    rw [expand, if_pos (h k mem_cons_self)]
    exact ih fun k' hk' => h k' (mem_cons_of_mem _ hk')

theorem advance_of_completed (ha : s.advance root now = .ok s') (hphase : s.phase = .forward)
    (hcompleted : s.completed = Finset.range s.stages.length)
    (hall : ∀ i ∈ s.instances, i.isSucceeded) : s' = s := by
  simp only [advance, wind, ok_iffs, Prod.exists] at ha
  obtain ⟨_, ⟨instances, phase, hexhaust, rfl⟩, ha⟩ := ha
  obtain ⟨rfl, rfl⟩ : phase = s.phase ∧ instances = s.instances := by
    rcases (exhaust_spec hexhaust).2 with hsame | ⟨⟨i, hi, hpending, -⟩, -⟩
    · exact hsame
    · have hs := Instance.isSucceeded_iff.1 (hall i hi)
      cases hpending.symm.trans hs
  have hbegin : s.beginReversal now = s := by rw [beginReversal, hphase]
  have hend : s.endReversal = s := by rw [endReversal, hphase]
  have hexpand : expand root now (range s.stages.length) s = .ok s := by
    refine expand_of_completed fun k hk => ?_
    rw [hcompleted]
    exact Finset.mem_range.2 (mem_range.1 hk)
  rw [hbegin, hend] at ha
  split at ha
  · rw [hexpand] at ha
    exact (ok.inj ha).symm
  · exact (ok.inj ha).symm

/-- Only a paused run can be continued after success, and then there is nothing to continue. -/
theorem Finished.continueRun (hf : s.Finished) (h : s.Sound) {expectedEpoch : ℕ} {resume : Bool}
    (hc : s.continueRun expectedEpoch resume root now = .ok s') : SameWork s s' := by
  simp only [ExecutionState.continueRun, ok_iffs] at hc
  obtain ⟨_, -, _, -, _, hphase', _, -, _, -, hc⟩ := hc
  rcases hf with ⟨hphase, hcard⟩ | ⟨cause, hphase⟩
  · have hall := h.isSucceeded_of_completed hphase hcard
    have hmap : s.instances.map (renewed s.isReverseFailed now) = s.instances := by
      refine (map_congr_left fun i hi => ?_).trans (map_id _)
      rcases renewed_cases s.isReverseFailed now i with ⟨heq, -⟩ | ⟨-, -, hway⟩
      · exact heq
      · have hs := Instance.isSucceeded_iff.1 (hall i hi)
        exact absurd (by simp [OnTheWay, hs]) hway
    rw [hmap, hphase] at hc
    have hs' := advance_of_completed hc rfl (h.completed_eq_range hcard) hall
    rw [hs']
    exact ⟨rfl, hphase.symm, rfl, rfl⟩
  · rw [hphase] at hphase'
    simp at hphase'

/-- **A run at rest is left alone** by every call but an abort of a paused success. -/
theorem Finished.call (hf : s.Finished) (h : s.Sound) {c : Call} (hc : s.call root c = .ok s')
    (habort : ∀ reason now, c = .abort reason now → s.phase = .forward → ¬ s.paused) :
    SameWork s s' := by
  cases c with
  | claim index now lease =>
    obtain ⟨⟨fence, _⟩, hclaim, rfl⟩ := map_eq_ok_iff.1 hc
    have hmem := (h.claim hclaim).2
    rw [hf.routable_eq_nil h] at hmem
    cases hmem
  | heartbeat index fence now lease =>
    obtain ⟨⟨renewed, _⟩, hbeat, rfl⟩ := map_eq_ok_iff.1 hc
    rw [heartbeat, if_pos (by simpa using hf.not_owns h index fence)] at hbeat
    cases hbeat
    exact .refl s
  | finish index fence result now jitter =>
    simp only [ExecutionState.call, finish, ok_iffs] at hc
    obtain ⟨_, hown, -⟩ := hc
    exact absurd (by simpa using hown) (hf.not_owns h index fence)
  | release index fence now =>
    simp only [ExecutionState.call, release, ok_iffs] at hc
    obtain ⟨_, hown, -⟩ := hc
    exact absurd (by simpa using hown) (hf.not_owns h index fence)
  | recover now =>
    obtain ⟨⟨changed, _⟩, hrec, rfl⟩ := map_eq_ok_iff.1 hc
    have hnone : ¬ s.instances.any (leaseExpired now) := by
      rw [any_eq_true]
      rintro ⟨i, hi, hexpired⟩
      rw [leaseExpired, Bool.and_eq_true] at hexpired
      exact hf.not_isRunning h i hi hexpired.1
    rw [recover, if_neg hnone] at hrec
    cases hrec
    exact .refl s
  | pause =>
    simp only [ExecutionState.call, pause, ok_iffs] at hc
    obtain ⟨_, -, rfl⟩ := hc
    exact ⟨rfl, rfl, rfl, rfl⟩
  | abort reason now =>
    obtain ⟨⟨changed, _⟩, hab, rfl⟩ := map_eq_ok_iff.1 hc
    have hrefused : s.cause.isSome || ((s.status now).isTerminal && !s.paused) := by
      rcases hf with ⟨hphase, hcard⟩ | ⟨cause, hphase⟩
      · have hpaused := habort reason now rfl hphase
        rw [status_eq_succeeded_iff.2 ⟨hphase, hcard⟩]
        simp [RunStatus.isTerminal, hpaused]
      · simp [ExecutionState.cause, hphase]
    rw [abort, if_pos hrefused] at hab
    cases hab
    exact .refl s
  | continueRun expectedEpoch resume now => exact hf.continueRun h hc

end ExecutionState

/-! ### The journal -/

/-- An abort is requested of no run that succeeded although its cancellation was requested. -/
def AbortAllowed (j : Journal) : JournalCall → Prop
  | .requestAbortAt _ _ _ => ¬ (j.run.status = .succeeded ∧ j.cancellationRequested)
  | _ => True

instance (j : Journal) (c : JournalCall) : Decidable (AbortAllowed j c) := by
  unfold AbortAllowed
  split <;> infer_instance

namespace Journal

variable {digest : ExecutionContract → String} {j j' : Journal}

theorem finished_iff (hj : j.Sound digest) :
    j.execution.Finished ↔ j.run.status = .succeeded ∨ j.run.status = .compensated := by
  obtain ⟨t, ht⟩ := hj.status
  rw [ht]
  exact ExecutionState.finished_iff_status

theorem rests (hj : j.Sound digest) (hf : j.execution.Finished) {c : JournalCall}
    (hallowed : AbortAllowed j c) (h : j.call digest c = .ok j') :
    j'.execution.Finished ∧ j'.run.status = j.run.status ∧
      j'.execution.instances = j.execution.instances := by
  rcases call_spec hj.toRegistered h with rfl | ⟨x, m, now, schedule, hx, hcall, -, -, hsync⟩
  · exact ⟨hf, rfl, rfl⟩
  · have hwork : ExecutionState.SameWork j.execution m.execution := by
      refine hf.call hj.execution hcall fun reason t hab hphase hpaused => ?_
      subst hab
      -- only the abort of a journal makes an abort of its execution
      cases c with
      | requestAbortAt expectedEpoch now reason =>
        refine hallowed ⟨?_, ?_⟩
        · rcases (finished_iff hj).1 hf with hs | hs
          · exact hs
          · obtain ⟨t, ht⟩ := hj.status
            rw [ht] at hs
            obtain ⟨cause, hreversed⟩ := ExecutionState.reversed_of_status hs
            cases hphase.symm.trans hreversed
        · rw [hj.cancellationRequested, ExecutionState.cancellationRequested, hpaused, Bool.true_or]
      | claimTarget generation target now lease =>
        rw [executionCall, Option.map_eq_some_iff] at hx
        obtain ⟨_, -, hx⟩ := hx
        cases hx
      | _ => cases hx
    obtain ⟨hexec, -, -, hstatus, -, -⟩ := syncExecution_spec hsync
    obtain ⟨t, ht⟩ := hj.status
    refine ⟨hexec ▸ hwork.finished hf, ?_, hexec ▸ hwork.instances⟩
    rw [hstatus, ht]
    exact hwork.status_eq hf t now

end Journal

/-- **Success and completed compensation are final.**  Once a run has succeeded or is compensated,
its status and its instances stay as they are, as long as no abort hits a success whose
cancellation was requested. -/
theorem finished_runs_rest {digest : ExecutionContract → String} {contract : ExecutionContract}
    {input : Value} {start : ℤ} {j₀ j j' : Journal} {calls more : List JournalCall}
    (hnew : Journal.new digest contract input start = .ok j₀)
    (hrun : Machine.run (Journal.call digest) j₀ calls = .ok j)
    (hfinal : j.run.status = .succeeded ∨ j.run.status = .compensated)
    (hmore : Machine.run (Journal.call digest) j more = .ok j')
    (hall : Machine.AllSteps (Journal.call digest) AbortAllowed j more) :
    j'.run.status = j.run.status ∧ j'.execution.instances = j.execution.instances := by
  have hj : j.Sound digest :=
    Machine.run_invariant (fun _ _ _ hi h => hi.call h) hrun (Journal.sound_new hnew).1
  have hrest := Machine.run_guarded (I := fun k => k.Sound digest ∧ k.execution.Finished ∧
    k.run.status = j.run.status ∧ k.execution.instances = j.execution.instances)
    (fun k c k' ⟨hk, hf, hstatus, hinstances⟩ hallowed h => by
      obtain ⟨hf', hstatus', hinstances'⟩ := Journal.rests hk hf hallowed h
      exact ⟨hk.call h, hf', hstatus'.trans hstatus, hinstances'.trans hinstances⟩)
    hmore hall ⟨hj, (Journal.finished_iff hj).2 hfinal, rfl, rfl⟩
  exact hrest.2.2

/-- The second activity completes after its cancellation was requested. -/
def sampleLateCancel : List JournalCall :=
  [.claimTarget 0 none 0 10, .complete ⟨1, 0⟩ (.scalar "held") 1, .claimTarget 1 none 1 10,
    .requestCancelAt 0 2 none, .complete ⟨1, 1⟩ (.scalar "paid") 3]

theorem finished_runs_rest_sample :
    ∃ j₀ j j', Journal.new (·.name) (sampleContract true) (.scalar "order") 0 = .ok j₀ ∧
      Machine.run (Journal.call (·.name)) j₀ sampleLateCancel = .ok j ∧
      j.run.status = .succeeded ∧
      Machine.run (Journal.call (·.name)) j [.recover 4, .continueExecution 0 .cancelled
        (sampleContract true) 5] = .ok j' ∧
      j'.run.status = .succeeded := by
  simp only [exists_and_left]
  refine exists_ok_of (P := fun j₀ => ∃ j, Machine.run (Journal.call (·.name)) j₀ sampleLateCancel =
    .ok j ∧ j.run.status = .succeeded ∧ ∃ j', Machine.run (Journal.call (·.name)) j [.recover 4,
      .continueExecution 0 .cancelled (sampleContract true) 5] = .ok j' ∧
        True) (by decide +kernel) ?_
  rintro j₀ hnew ⟨j, hcalls, hstatus, j', hmore, -⟩
  have hrest := finished_runs_rest hnew hcalls (.inl hstatus) hmore
    ⟨trivial, fun _ _ => ⟨trivial, fun _ _ => trivial⟩⟩
  exact ⟨j, hcalls, hstatus, j', hmore, hrest.1.trans hstatus⟩

/-- An abort reverses a run that has succeeded, when its cancellation came too late. -/
theorem abort_reverses_success :
    ((Journal.new (·.name) (sampleContract true) (.scalar "order") 0).bind fun j₀ =>
      (Machine.run (Journal.call (·.name)) j₀ sampleLateCancel).bind fun j =>
      (Machine.run (Journal.call (·.name)) j [.requestAbortAt 0 4 none]).map fun j' =>
        (j.run.status, j.execution.compensations.length, j'.run.status,
          j'.execution.compensations.length)) = .ok (.succeeded, 0, .compensating, 1) := by
  decide +kernel

end Gears.Durable
