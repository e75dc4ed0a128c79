import Gears.Durable.Journal
import Gears.Durable.Saga
import Gears.Lib.Machine

/-!
# A compensating run has a next step

While a run is being reversed and is not paused, the first compensation that has not succeeded
either runs or can be claimed from its due time on, and it alone is published.  A run that is paused
is not being reversed, unless a paused saga lost an attempt that was the last of its budget.

* `ExecutionState.PauseForward` : a paused run goes forward.
* `compensating_has_next_step` : over whole runs of the journal.
* `paused_saga_is_stuck` : the lost attempt that leaves a run without a next step.
-/

namespace Gears.Durable

open Except List Instance

theorem slash_notMem_of_isActivityId {id : String} (h : isActivityId id) : '/' ∉ id.toList := by
  intro hmem
  simp only [isActivityId, Bool.and_eq_true, all_eq_true] at h
  exact absurd (h.2 '/' hmem) (by decide)

namespace ActivityInstanceId

/-- The last part of the key of an instance that is not a single forward one. -/
def tail (index : Option ℕ) : String := (index.map toString).getD "single"

theorem slash_notMem_tail (index : Option ℕ) : '/' ∉ (tail index).toList := by
  intro hmem
  cases index with
  | none => exact absurd hmem (by decide)
  | some n => exact absurd (isDigit_of_mem_toString hmem) (by decide)

theorem tail_injective : Function.Injective tail := by
  have hdigits (n : ℕ) : toString n ≠ "single" := by
    intro h
    have hmem : 's' ∈ (toString n).toList := by rw [h]; decide
    exact absurd (isDigit_of_mem_toString hmem) (by decide)
  rintro (_ | a) (_ | b) h
  · rfl
  · exact absurd h.symm (hdigits b)
  · exact absurd h (hdigits a)
  · exact congrArg some (toString_nat_injective h)

/-- The characters of a key: a letter for the phase, the activity and the tail. -/
theorem toList_key (id : ActivityInstanceId) : id.key.toList = id.step.toList ∧
      id.phase = .forward ∧ id.itemIndex = none ∨
    ∃ c, id.key.toList = c :: '/' :: (id.step.toList ++ '/' :: (tail id.itemIndex).toList) ∧
      (id.phase = .forward ∧ c = 'f' ∧ id.itemIndex.isSome ∨ id.phase = .compensation ∧
      c = 'c') := by
  obtain ⟨step, index, phase⟩ := id
  cases phase with
  | forward =>
    cases index with
    | none => exact .inl ⟨rfl, rfl, rfl⟩
    | some n => exact .inr ⟨'f', by simp [key, tail], .inl ⟨rfl, rfl, rfl⟩⟩
  | compensation => exact .inr ⟨'c', by simp [key, tail], .inr ⟨rfl, rfl⟩⟩

/-- **The keys of a run are distinct**, since no activity name contains a slash. -/
theorem key_injective {a b : ActivityInstanceId} (ha : isActivityId a.step)
    (hb : isActivityId b.step) (h : a.key = b.key) : a = b := by
  have hlist := congrArg String.toList h
  have hna := slash_notMem_of_isActivityId ha
  have hnb := slash_notMem_of_isActivityId hb
  -- a single forward instance has its name as key; every other key has a slash
  rcases toList_key a with ⟨hka, hpa, hia⟩ | ⟨ca, hka, hpa⟩ <;>
    rcases toList_key b with ⟨hkb, hpb, hib⟩ | ⟨cb, hkb, hpb⟩ <;> rw [hka, hkb] at hlist
  · cases a; cases b
    simp only [mk.injEq]
    exact ⟨String.toList_inj.1 hlist, hia.trans hib.symm, hpa.trans hpb.symm⟩
  · exact absurd (hlist ▸ by simp) hna
  · exact absurd (hlist.symm ▸ by simp) hnb
  · obtain ⟨rfl, hrest⟩ : ca = cb ∧ _ := by simpa only [cons.injEq, true_and] using hlist
    obtain ⟨hstep, -, htail⟩ :=
      (append_cons_inj_of_notMem hna (slash_notMem_tail a.itemIndex)).1 hrest
    have hphase : a.phase = b.phase := by
      rcases hpa with ⟨hpa, rfl, -⟩ | ⟨hpa, rfl⟩ <;> rcases hpb with ⟨hpb, hc, -⟩ | ⟨hpb, hc⟩
      · rw [hpa, hpb]
      · cases hc
      · cases hc
      · rw [hpa, hpb]
    cases a; cases b
    simp only [mk.injEq]
    exact ⟨String.toList_inj.1 hstep, tail_injective (String.toList_inj.1 htail), hphase⟩

end ActivityInstanceId

namespace ExecutionState

variable {s s' : ExecutionState} {now : ℤ} {root : Value} {index : ℕ} {i : Instance}
  {cause : Cause}

/-! ### The schedule of a reversal -/

/-- The first compensation that has not succeeded. -/
structure FirstOpen (s : ExecutionState) (index : ℕ) (i : Instance) : Prop where
  get : s.instances[index]? = some i
  isCompensation : i.isCompensation
  unfinished : ¬ i.isSucceeded
  first : ∀ k < index, ∀ a, s.instances[k]? = some a → a.isCompensation → a.isSucceeded

theorem findIdx?_iff_firstOpen :
    s.instances.findIdx? (fun i => i.isCompensation && !i.isSucceeded) = some index ↔
      ∃ i, s.FirstOpen index i := by
  rw [findIdx?_eq_some_iff_getElem]
  constructor
  · rintro ⟨hlt, hopen, hfirst⟩
    rw [Bool.and_eq_true, Bool.not_eq_true'] at hopen
    refine ⟨s.instances[index], getElem?_eq_getElem hlt, hopen.1, by simp [hopen.2], ?_⟩
    intro k hk a ha hcomp
    obtain ⟨_, rfl⟩ := List.getElem?_eq_some_iff.1 ha
    simpa [hcomp] using hfirst k hk
  · rintro ⟨i, hget, hcomp, hopen, hfirst⟩
    obtain ⟨hlt, rfl⟩ := List.getElem?_eq_some_iff.1 hget
    refine ⟨hlt, by simp [hcomp, hopen], fun k hk hnot => ?_⟩
    rw [Bool.and_eq_true] at hnot
    have hs := hfirst k hk _ (getElem?_eq_getElem (hk.trans hlt)) hnot.1
    rw [hs] at hnot
    cases hnot.2

theorem Sound.exists_firstOpen (h : s.Sound) (hphase : s.phase = .reversing cause) :
    ∃ index i, s.FirstOpen index i := by
  cases hfind : s.instances.findIdx? (fun i => i.isCompensation && !i.isSucceeded) with
  | some index => exact ⟨index, findIdx?_iff_firstOpen.1 hfind⟩
  | none =>
    obtain ⟨i, hi, hcomp, hopen⟩ := h.unfinished cause hphase
    have := findIdx?_eq_none_iff.1 hfind i hi
    simp [hcomp, hopen] at this

namespace FirstOpen

section

variable (hi : s.FirstOpen index i)
include hi

theorem isWaiting (h : s.Sound) (hphase : s.phase = .reversing cause) (hrun : ¬ i.isRunning) :
    i.isWaiting := by
  have hway := (h.phaseOk_of hphase).2.1 i (mem_of_getElem? hi.get) hi.isCompensation
  have hopen := hi.unfinished
  rw [isRunning_iff] at hrun
  rw [isSucceeded_iff] at hopen
  rw [Instance.isWaiting]
  cases hstatus : i.state.status with
  | pending => rfl
  | retryWait => rfl
  | running => exact absurd hstatus hrun
  | succeeded => exact absurd hstatus hopen
  | failed => exact absurd hstatus hway.1
  | cancelled => exact absurd hstatus hway.2

theorem routable (hphase : s.phase = .reversing cause) (hpaused : ¬ s.paused) (hw : i.isWaiting) :
    s.routable = [index] := by
  simp only [ExecutionState.routable, hpaused, Bool.false_eq_true, if_false, hphase,
    findIdx?_iff_firstOpen.2 ⟨i, hi⟩, hi.get, Option.any_some, hw, if_true]

theorem availableSlots : s.availableSlots index = 1 := by
  simp only [ExecutionState.availableSlots, hi.get, hi.isCompensation, if_true]

theorem isDue : s.isDue now index = decide (i.dueAt ≤ now) := by
  rw [ExecutionState.isDue, hi.get, Option.any_some]

section

variable (hr : s.routable = [index])
include hr

theorem ready : s.ready now = if i.dueAt ≤ now then [index] else [] := by
  rw [ExecutionState.ready, hr, head?_cons, Option.map_some,
    hi.availableSlots, filter_cons, hi.isDue]
  by_cases hdue : i.dueAt ≤ now
  · simp [hdue]
  · simp [hdue]

theorem nextDue (hw : i.isWaiting) : s.nextDue = some i.dueAt := by
  rw [ExecutionState.nextDue, min?_eq_some_iff]
  constructor
  · refine mem_filter.2 ⟨mem_map.2 ⟨i, ?_, rfl⟩, ?_⟩
    · exact mem_filter.2 ⟨mem_of_getElem? hi.get, hw⟩
    · simp [hi.ready hr]
  · intro at_ hat
    obtain ⟨-, hready⟩ := mem_filter.1 hat
    rw [hi.ready hr] at hready
    by_contra hlt
    simp [hlt] at hready

theorem publicationCandidates : s.publicationCandidates i.dueAt = [index] := by
  unfold ExecutionState.publicationCandidates
  dsimp only
  split
  · exact hr
  · rw [hi.ready hr, if_pos le_rfl]

theorem canClaim (hdue : i.dueAt ≤ now) : s.canClaim index now := by
  simp [ExecutionState.canClaim, hr, hi.isDue, hdue, hi.availableSlots]

end

end

end FirstOpen

/-! ### A paused run goes forward -/

/-- A paused run is neither stopped nor reversed. -/
def PauseForward (s : ExecutionState) : Prop := s.paused → s.phase = .forward

/-- A paused saga has no pending instance whose attempts are used up. -/
def PauseFunded (s : ExecutionState) : Prop :=
  s.paused → s.contract.saga → ∀ i ∈ s.instances, i.state.status = .pending → i.HasBudget s.contract

theorem advance_paused (h : s.advance root now = .ok s') : s'.paused = s.paused :=
  ((stable_grown s).advance ⟨.refl _, .refl _⟩ h).1.paused

theorem stable_pauseForward : Stable root now fun s => s.PauseForward ∧ s.PauseFunded where
  exhaust s l phase h he := by
    obtain ⟨hall, hphase⟩ := exhaust_spec he
    refine ⟨fun hp => ?_, fun _ _ i' hi' hpending => ?_⟩
    · rcases hphase with ⟨hsame, -⟩ | ⟨⟨i, hi, hpending, hnot⟩, hfail⟩
      · exact hsame.trans (h.1 hp)
      · refine hfail.trans ?_
        rw [h.1 hp, failPhase, if_neg]
        exact fun hsaga => hnot (h.2 hp hsaga i hi hpending)
    · obtain ⟨i, -, ⟨rfl, hbudget⟩ | ⟨-, -, rfl⟩⟩ := hall.exists_of_mem_right hi'
      · exact hbudget hpending
      · cases hpending
  beginReversal s h := by
    by_cases hp : s.paused
    · rwa [beginReversal, h.1 hp]
    · unfold beginReversal
      repeat' split
      all_goals exact ⟨fun hp' => absurd hp' hp, fun hp' => absurd hp' hp⟩
  endReversal s h := by
    by_cases hp : s.paused
    · rwa [endReversal, h.1 hp]
    · unfold endReversal
      repeat' split
      all_goals exact ⟨fun hp' => absurd hp' hp, fun hp' => absurd hp' hp⟩
  reject _ _ _ hp _ := ⟨fun hp' => absurd hp' hp, fun hp' => absurd hp' hp⟩
  beginStage _ _ _ hp _ _ := ⟨fun hp' => absurd hp' hp, fun hp' => absurd hp' hp⟩
  complete _ _ h := h

theorem PauseForward.advance (hs : s.PauseForward) (hfunded : s.PauseFunded)
    (h : s.advance root now = .ok s') : s'.PauseForward :=
  (stable_pauseForward.advance ⟨hs, hfunded⟩ h).1

/-- A paused saga loses no attempt that was the last of its budget. -/
def LossFunded (s : ExecutionState) : Call → Prop
  | .release index _ _ => s.paused → s.contract.saga → ∀ i, s.instances[index]? = some i →
      i.HasBudget s.contract
  | .recover now => s.paused → s.contract.saga → ∀ i ∈ s.instances, leaseExpired now i →
      i.HasBudget s.contract
  | _ => True

theorem PauseFunded.set (h : s.Sound) {i' : Instance} {phase : Phase}
    (hi' : s.paused → i'.state.status ≠ .pending) :
    ({ s with instances := s.instances.set index i', phase } : ExecutionState).PauseFunded := by
  intro hpaused _ a ha hpending
  rcases mem_or_eq_of_mem_set ha with ha | rfl
  · exact h.budget a ha hpending
  · exact absurd hpending (hi' hpaused)

theorem PauseForward.finish (hs : s.PauseForward) (h : s.Sound) {fence : ℤ}
    {result : Except ActivityError Value} {jitter : ℕ}
    (hc : s.finish index fence result root now jitter = .ok s') : s'.PauseForward := by
  simp only [ExecutionState.finish, bind_eq_ok_iff] at hc
  obtain ⟨_, -, hc⟩ := hc
  split at hc
  · cases hc
  · simp only [bind_eq_ok_iff] at hc
    obtain ⟨policy, -, hc⟩ := hc
    split at hc
    · refine PauseForward.advance ?_ (PauseFunded.set h fun _ => ?_) hc
      · exact hs
      · rw [status_finish]
        decide
    · simp only [bind_eq_ok_iff, Prod.exists] at hc
      obtain ⟨i', phase, hfail, hc⟩ := hc
      -- a failure of a paused run is a cancellation
      have hcancelled (hp : s.paused) : i'.state.status ≠ .pending ∧ phase = s.phase := by
        rw [failAttempt, hp] at hfail
        cases hfail
        exact ⟨by rw [status_finish]; decide, rfl⟩
      refine PauseForward.advance (fun hp => ?_) (PauseFunded.set h fun hp => ?_) hc
      · exact (hcancelled hp).2.trans (hs hp)
      · exact (hcancelled hp).1

theorem hasBudget_of_eq {c : ExecutionContract} {i' : Instance} (hi : i.HasBudget c)
    (hcore : i'.core = i.core) (hb : i'.state.budgetAttempts = i.state.budgetAttempts) :
    i'.HasBudget c := by
  rw [HasBudget, policyOf_eq hcore, hb]
  exact hi

theorem PauseForward.release (hs : s.PauseForward) (h : s.Sound) {fence : ℤ}
    (hloss : s.LossFunded (.release index fence now))
    (hc : s.release index fence now root = .ok s') : s'.PauseForward := by
  simp only [ExecutionState.release, bind_eq_ok_iff] at hc
  obtain ⟨_, -, hc⟩ := hc
  refine PauseForward.advance ?_ (fun hp hsaga a ha hpending => ?_) hc
  · exact hs
  · obtain ⟨k, hk⟩ := getElem?_of_mem ha
    rw [getElem?_modify, Option.map_eq_map, Option.map_eq_some_iff] at hk
    obtain ⟨i, hi, rfl⟩ := hk
    by_cases hindex : index = k
    · subst hindex
      rw [if_pos rfl]
      exact hasBudget_of_eq (hloss hp hsaga i hi) rfl rfl
    · rw [if_neg hindex] at hpending ⊢
      exact h.budget i (mem_of_getElem? hi) hpending

theorem PauseForward.recover (hs : s.PauseForward) (h : s.Sound) {changed : Bool}
    (hloss : s.LossFunded (.recover now)) (hc : s.recover root now = .ok (changed, s')) :
    s'.PauseForward := by
  unfold ExecutionState.recover at hc
  split at hc
  · simp only [ok_iffs] at hc
    obtain ⟨_, hc, -, rfl⟩ := hc
    refine PauseForward.advance ?_ (fun hp hsaga a ha hpending => ?_) hc
    · exact hs
    · obtain ⟨i, hi, rfl⟩ := mem_map.1 ha
      split at hpending
      · next hexpired =>
        rw [if_pos hexpired]
        exact hasBudget_of_eq (hloss hp hsaga i hi hexpired) rfl rfl
      · next hexpired =>
        rw [if_neg hexpired]
        exact h.budget i hi hpending
  · cases hc
    exact hs

/-- **A paused run goes forward** as long as no attempt is lost that was the last one. -/
theorem PauseForward.call (hs : s.PauseForward) (h : s.Sound) {c : Call}
    (hloss : s.LossFunded c) (hc : s.call root c = .ok s') : s'.PauseForward := by
  cases c with
  | claim index now lease =>
    obtain ⟨⟨fence, _⟩, hclaim, rfl⟩ := map_eq_ok_iff.1 hc
    have hnot := (mem_routable (h.claim hclaim).2).1
    simp only [claim, bind_eq_ok_iff] at hclaim
    obtain ⟨_, -, hclaim⟩ := hclaim
    split at hclaim
    · cases hclaim
    · simp only [ok_iffs] at hclaim
      obtain ⟨_, -, _, -, _, -, _, -, -, rfl⟩ := hclaim
      exact fun hp => absurd hp hnot
  | heartbeat index fence now lease =>
    obtain ⟨⟨renewed, _⟩, hbeat, rfl⟩ := map_eq_ok_iff.1 hc
    unfold heartbeat at hbeat
    split at hbeat
    · cases hbeat
      exact hs
    · simp only [ok_iffs] at hbeat
      obtain ⟨_, -, -, rfl⟩ := hbeat
      exact hs
  | finish index fence result now jitter => exact hs.finish h hc
  | release index fence now => exact hs.release h hloss hc
  | recover now =>
    obtain ⟨⟨changed, _⟩, hrec, rfl⟩ := map_eq_ok_iff.1 hc
    exact hs.recover h hloss hrec
  | pause =>
    simp only [ExecutionState.call, pause, ok_iffs, Bool.or_eq_true, not_or] at hc
    obtain ⟨_, ⟨hcomp, hstop⟩, rfl⟩ := hc
    exact fun _ => phase_of_not_isCompensation hcomp hstop
  | abort reason now =>
    obtain ⟨⟨changed, _⟩, hab, rfl⟩ := map_eq_ok_iff.1 hc
    unfold abort at hab
    split at hab
    · cases hab
      exact hs
    · simp only [ok_iffs] at hab
      obtain ⟨_, hab, -, rfl⟩ := hab
      have hpaused := advance_paused hab
      exact fun hp => absurd (hp.symm.trans hpaused) (by simp)
  | continueRun expectedEpoch resume now =>
    simp only [ExecutionState.call, continueRun, bind_eq_ok_iff] at hc
    obtain ⟨_, -, _, -, _, -, _, -, _, -, hc⟩ := hc
    have hpaused := advance_paused hc
    exact fun hp => absurd (hp.symm.trans hpaused) (by simp)

theorem claim_eq_ok {lease : ℕ} (hi : s.instances[index]? = some i)
    (hcan : s.canClaim index now) (hdeadline : now + lease ≤ lastInstant)
    (hfence : (i.fence : ℤ) < 2 ^ 63 - 1) (hattempts : (i.state.attempts : ℤ) < 2 ^ 32 - 1)
    (hbudget : (i.state.budgetAttempts : ℤ) < 2 ^ 32 - 1) :
    s.claim index now lease = .ok (i.fence + 1, { s with
      instances := s.instances.set index (claimed i s.epoch now (now + lease)) }) := by
  rw [claim, rejectIf_of_not (by simp [hcan])]
  simp only [hi, checkedNext, deadline, if_pos hdeadline,
    rejectIf_of_not (not_le.2 hfence), rejectIf_of_not (not_le.2 hattempts),
    rejectIf_of_not (not_le.2 hbudget)]
  rfl

end ExecutionState

/-! ### The journal -/

/-- A paused saga loses no attempt that was the last of its budget. -/
def LossAllowed (j : Journal) : JournalCall → Prop
  | .release claim now => j.execution.LossFunded (.release claim.step claim.fence now)
  | .recover now => j.execution.LossFunded (.recover now)
  | _ => True

namespace Journal

variable {digest : ExecutionContract → String} {j j' : Journal} {index : ℕ} {i : Instance}

/-- No counter or time of a claim overflows. -/
structure ClaimFits (j : Journal) (i : Instance) (now : ℤ) (lease : ℕ) : Prop where
  deadline : now + lease ≤ lastInstant
  fence : (i.fence : ℤ) < 2 ^ 63 - 1
  attempts : (i.state.attempts : ℤ) < 2 ^ 32 - 1
  budgetAttempts : (i.state.budgetAttempts : ℤ) < 2 ^ 32 - 1
  deliveryGeneration : j.deliveryGeneration < lastGeneration

/-- A compensation runs, or the first one that has not succeeded is scheduled, published alone, and
claimed by a delivery of the current generation at every instant from its due time on. -/
def HasNextStep (digest : ExecutionContract → String) (j : Journal) : Prop :=
  (∃ i ∈ j.execution.instances, i.isCompensation ∧ i.isRunning) ∨
    ∃ index i, j.execution.FirstOpen index i ∧ j.run.nextAttemptAt = some i.dueAt ∧
      j.publicationActivities = [i.identity.key] ∧
      ∀ now lease, i.dueAt ≤ now → j.ClaimFits i now lease → ∃ fence j',
        j.claimTarget digest j.execution.contract j.deliveryGeneration (some i.identity.key) now
          lease = .ok (some { fence, step := index }, j')

theorem executionCall_lossFunded {c : JournalCall} {x : Call} (hx : j.executionCall c = some x)
    (hloss : LossAllowed j c) : j.execution.LossFunded x := by
  cases c with
  | claimTarget generation target now lease =>
    rw [executionCall, Option.map_eq_some_iff] at hx
    obtain ⟨_, -, rfl⟩ := hx
    trivial
  | release claim now =>
    cases hx
    exact hloss
  | recover now =>
    cases hx
    exact hloss
  | _ =>
    cases hx
    trivial

theorem pauseForward_call (hj : j.Sound digest) (hs : j.execution.PauseForward) {c : JournalCall}
    (hloss : LossAllowed j c) (h : j.call digest c = .ok j') : j'.execution.PauseForward := by
  rcases call_spec hj.toRegistered h with rfl | ⟨x, m, now, schedule, hx, hcall, -, -, hsync⟩
  · exact hs
  · rw [(syncExecution_spec hsync).1]
    exact hs.call hj.execution (executionCall_lossFunded hx hloss) hcall

theorem findIdx?_key (hj : j.Sound digest) (hi : j.execution.instances[index]? = some i) :
    j.execution.instances.findIdx? (fun a => a.identity.key = i.identity.key) = some index := by
  have hid (a : Instance) (ha : a ∈ j.execution.instances) : isActivityId a.identity.step := by
    obtain ⟨spec, hspec, heq, -⟩ := hj.execution.fits a ha
    rw [← heq]
    exact hj.execution.accepted.isActivityId spec (mem_of_getElem? hspec)
  obtain ⟨hlt, rfl⟩ := List.getElem?_eq_some_iff.1 hi
  refine findIdx?_eq_some_iff_getElem.2 ⟨hlt, by simp, fun k hk hkey => ?_⟩
  have hsame := ActivityInstanceId.key_injective (hid _ (getElem_mem (hk.trans hlt)))
    (hid _ (getElem_mem hlt)) (by simpa using hkey)
  have hdistinct := hj.execution.distinct
  have hpair := pairwise_iff_getElem.1 (pairwise_map.1 hdistinct) k index
    (hk.trans hlt) hlt hk
  exact hpair hsame

theorem syncExecution_eq_ok (now : ℤ) (schedule : Bool)
    (h : j.deliveryGeneration < lastGeneration) : ∃ j', j.syncExecution now schedule = .ok j' := by
  rw [syncExecution, rejectIf_of_not fun hge => absurd hge.2.2 (not_le.2 h)]
  exact ⟨_, rfl⟩

theorem claimTarget_eq_ok (hj : j.Sound digest) (hblocked : j.run.status ≠ .blocked)
    (hi : j.execution.instances[index]? = some i) {now : ℤ} {lease : ℕ}
    (hcan : j.execution.canClaim index now) (hfits : j.ClaimFits i now lease) :
    ∃ fence j', j.claimTarget digest j.execution.contract j.deliveryGeneration
      (some i.identity.key) now lease = .ok (some { fence, step := index }, j') := by
  obtain ⟨execution, hclaim⟩ : ∃ execution,
      j.execution.claim index now lease = .ok (i.fence + 1, execution) :=
    ⟨_, ExecutionState.claim_eq_ok hi hcan hfits.deadline hfits.fence hfits.attempts
      hfits.budgetAttempts⟩
  obtain ⟨j', hsync⟩ := syncExecution_eq_ok (j := { j with execution }) now true
    hfits.deliveryGeneration
  have hselected : j.selected (some i.identity.key) now = some index := by
    rw [selected, findIdx?_key hj hi, Option.filter_some, if_pos hcan]
  have hfp : fingerprintOf digest j.execution.contract = .ok j.fingerprint := by
    rw [fingerprintOf, hj.valid, hj.fingerprint]
    rfl
  refine ⟨(i.fence + 1 : ℕ), j', ?_⟩
  rw [claimTarget, if_neg (by simp [hblocked]), hfp, ok_bind, if_neg (not_not.2 rfl), hselected]
  simp only [hclaim, ok_bind, hsync]
  rfl

theorem hasNextStep (hj : j.Sound digest) (hs : j.execution.PauseForward)
    (hstatus : j.run.status = .compensating) : j.HasNextStep digest := by
  have hblocked : j.run.status ≠ .blocked := by rw [hstatus]; nofun
  obtain ⟨t, ht⟩ := hj.status
  rw [hstatus] at ht
  obtain ⟨cause, hphase⟩ : ∃ cause, j.execution.phase = .reversing cause := by
    unfold ExecutionState.status at ht
    split at ht
    · exact ⟨_, by assumption⟩
    all_goals
      repeat' split at ht
      all_goals cases ht
  have hpaused : ¬ j.execution.paused := fun hp => by
    have hforward := hs hp
    cases hphase.symm.trans hforward
  obtain ⟨index, i, hi⟩ := hj.execution.exists_firstOpen hphase
  by_cases hrun : i.isRunning
  · exact .inl ⟨i, mem_of_getElem? hi.get, hi.isCompensation, hrun⟩
  · have hw := hi.isWaiting hj.execution hphase hrun
    have hr := hi.routable hphase hpaused hw
    have hnext : j.run.nextAttemptAt = some i.dueAt := hj.nextAttemptAt.trans (hi.nextDue hr hw)
    refine .inr ⟨index, i, hi, hnext, ?_, fun now lease hdue hfits => ?_⟩
    · simp [publicationActivities, hnext, hi.publicationCandidates hr, keyOf, hi.get]
    · exact claimTarget_eq_ok hj hblocked hi.get (hi.canClaim hr hdue) hfits

end Journal

/-- **A compensating run has a next step**, in every run in which no paused saga loses an attempt
that was the last of its budget. -/
theorem compensating_has_next_step {digest : ExecutionContract → String}
    {contract : ExecutionContract} {input : Value} {start : ℤ} {j₀ j : Journal}
    {calls : List JournalCall} (hnew : Journal.new digest contract input start = .ok j₀)
    (hrun : Machine.run (Journal.call digest) j₀ calls = .ok j)
    (hall : Machine.AllSteps (Journal.call digest) LossAllowed j₀ calls)
    (hstatus : j.run.status = .compensating) : j.HasNextStep digest := by
  have hpaused : j₀.execution.PauseForward := by
    simp only [Journal.new, ExecutionState.new, bind_eq_ok_iff] at hnew
    obtain ⟨execution, ⟨stages, -, hexec⟩, _, -, hsync⟩ := hnew
    rw [(Journal.syncExecution_spec hsync).1]
    exact fun hp => absurd (hp.symm.trans (ExecutionState.advance_paused hexec)) (by simp)
  obtain ⟨hj, hs⟩ := Machine.run_guarded
    (I := fun j => j.Sound digest ∧ j.execution.PauseForward)
    (fun k c k' hk hloss h => ⟨hk.1.call h, Journal.pauseForward_call hk.1 hk.2 hloss h⟩)
    hrun hall ⟨(Journal.sound_new hnew).1, hpaused⟩
  exact Journal.hasNextStep hj hs hstatus

/-- The second activity fails for good after the first one has succeeded. -/
def sampleReversal : List JournalCall :=
  [.claimTarget 0 none 0 10, .complete ⟨1, 0⟩ (.scalar "held") 1, .claimTarget 1 none 1 10,
    .fail ⟨1, 1⟩ (.permanent "declined") 2 0]

theorem compensating_has_next_step_sample :
    ∃ j₀ j, Journal.new (·.name) (sampleContract true) (.scalar "order") 0 = .ok j₀ ∧
      Machine.run (Journal.call (·.name)) j₀ sampleReversal = .ok j ∧
      j.run.status = .compensating ∧ j.HasNextStep (·.name) := by
  simp only [exists_and_left]
  refine exists_ok_of (P := fun j₀ => ∃ j, Machine.run (Journal.call (·.name)) j₀ sampleReversal =
    .ok j ∧ j.run.status = .compensating) (by decide +kernel) ?_
  rintro j₀ hnew ⟨j, hcalls, hstatus⟩
  refine ⟨j, hcalls, hstatus, compensating_has_next_step hnew hcalls ?_ hstatus⟩
  exact ⟨trivial, fun _ _ => ⟨trivial, fun _ _ => ⟨trivial, fun _ _ =>
    ⟨trivial, fun _ _ => trivial⟩⟩⟩⟩

/-- The lease of the only attempt of the second activity runs out after a cancellation: the run
compensates, but is still paused, and nothing is scheduled or published. -/
theorem paused_saga_is_stuck :
    ((Journal.new (·.name) (sampleContract true) (.scalar "order") 0).bind fun j₀ =>
      (Machine.run (Journal.call (·.name)) j₀ [.claimTarget 0 none 0 10,
        .complete ⟨1, 0⟩ (.scalar "held") 1, .claimTarget 1 none 1 10, .requestCancelAt 0 2 none,
        .recover 11]).map fun j =>
        (j.run.status, j.execution.instances.any (·.isRunning), j.run.nextAttemptAt,
          j.publicationActivities)) = .ok (.compensating, false, none, []) := by
  decide +kernel

end Gears.Durable
