import Gears.Durable.Advance

/-!
# The calls keep the invariant

* `Call` : the calls of a run with their arguments.
* `ExecutionState.call`, `ExecutionState.after` : a call, and the state it leaves behind.
* `ExecutionState.Sound.call` : every call keeps the invariant and every success.
-/

namespace Gears.Durable

open Except List Instance

/-- The calls of a run; instants, fences and outcomes are up to the caller. -/
inductive Call where
  | claim (index : ℕ) (now : ℤ) (lease : ℕ)
  | heartbeat (index : ℕ) (fence now : ℤ) (lease : ℕ)
  | finish (index : ℕ) (fence : ℤ) (result : Except ActivityError Value) (now : ℤ) (jitter : ℕ)
  | release (index : ℕ) (fence now : ℤ)
  | recover (now : ℤ)
  | pause
  | abort (reason : Option String) (now : ℤ)
  | continueRun (expectedEpoch : ℕ) (resume : Bool) (now : ℤ)

namespace ExecutionState

/-- A call, on a run with the given input. -/
def call (s : ExecutionState) (root : Value) : Call → Except DomainError ExecutionState
  | .claim index now lease => (s.claim index now lease).map (·.2)
  | .heartbeat index fence now lease => (s.heartbeat index fence now lease).map (·.2)
  | .finish index fence result now jitter => s.finish index fence result root now jitter
  | .release index fence now => s.release index fence now root
  | .recover now => (s.recover root now).map (·.2)
  | .pause => s.pause
  | .abort reason now => (s.abort reason root now).map (·.2)
  | .continueRun expectedEpoch resume now => s.continueRun expectedEpoch resume root now

/-- The state after a call; a call that fails is not saved. -/
def after (s : ExecutionState) (root : Value) (c : Call) : ExecutionState :=
  match s.call root c with
  | .ok s' => s'
  | .error _ => s

variable {s s' : ExecutionState} {now : ℤ} {root : Value} {l : List Instance}

/-! ### Changes of running instances -/

/-- An instance stays, or a running one changes. -/
def Touched (i i' : Instance) : Prop := i' = i ∨ (i.isRunning ∧ i'.core = i.core)

variable {i i' : Instance} {fence : ℤ} {index : ℕ}

theorem Touched.moved (h : Touched i i') : i.Moved i' := by
  rcases h with rfl | ⟨hrun, hcore⟩
  · exact .refl _
  · exact .inr ⟨hcore, not_isSucceeded_of_isRunning hrun, not_untouched_of_isRunning hrun⟩

theorem Touched.isRunning (h : Touched i i') (hr : i'.isRunning) : i.isRunning := by
  rcases h with rfl | ⟨hrun, -⟩
  · exact hr
  · exact hrun

theorem Reversal.of_touched {c : ExecutionContract} {l' : List Instance} (h : Reversal c l)
    (hl : Forall₂ Touched l l') : Reversal c l' := by
  have hl' : Forall₂ (fun i i' => i.Kept i' ∧ (i.isForward → i' = i)) l l' := by
    refine hl.imp_of_mem fun i hi i' hx => ⟨hx.moved.kept, fun hf => ?_⟩
    rcases hx with rfl | ⟨hrun, -⟩
    · rfl
    · exact absurd hrun (h.quiet i hi hf).1
  refine h.of_kept hl' (fun i i' hx => hx.1) (fun i i' hx hf => ?_)
  rw [hx.2 hf]
  exact ⟨id, id, fun hb => hb⟩

theorem Sound.touched (h : s.Sound) (hl : Forall₂ Touched s.instances l)
    (hway : ∀ cause, s.phase = .reversing cause → ∀ i ∈ l, i.isCompensation → OnTheWay i) :
    ({ s with instances := l } : ExecutionState).Loose := by
  have hmoved : Forall₂ Moved s.instances l := hl.imp fun _ _ => Touched.moved
  have hkept := hmoved.imp fun _ _ => Moved.kept
  have hrunning (hr : ({ s with instances := l } : ExecutionState).anyRunning) : s.anyRunning := by
    obtain ⟨i', hi', hr⟩ := anyRunning_iff.1 hr
    obtain ⟨i, hi, hx⟩ := hl.exists_of_mem_right hi'
    exact anyRunning_iff.2 ⟨i, hi, hx.isRunning hr⟩
  -- a running instance is no success, so no phase loses what it rests on
  refine ⟨h.toBase.of_moved hmoved, ?_⟩
  cases hphase : s.phase with
  | forward | stopping cause => exact forward_of_kept hkept (h.phaseOk_of hphase)
  | reversing cause =>
    obtain ⟨hrev, -, hpaused⟩ := h.phaseOk_of hphase
    exact ⟨hrev.of_touched hl, hway cause hphase, fun hp hr => hpaused hp (hrunning hr)⟩
  | reverseFailed cause =>
    obtain ⟨hrev, hrun⟩ := h.phaseOk_of hphase
    exact ⟨hrev.of_touched hl, fun hr => hrun (hrunning hr)⟩
  | reversed cause =>
    obtain ⟨hrev, hsucc⟩ := h.phaseOk_of hphase
    refine ⟨hrev.of_touched hl, fun i' hi' hc => ?_⟩
    obtain ⟨i, hi, hx⟩ := hl.exists_of_mem_right hi'
    rw [isCompensation_eq hx.moved.kept.1] at hc
    have hs := hsucc i hi hc
    rwa [hx.moved.kept.2 hs]

theorem owns_iff : s.owns index fence now ↔
    ∃ i, s.instances[index]? = some i ∧ (i.fence : ℤ) = fence ∧ i.isRunning ∧
      ∃ t ∈ i.leaseUntil, now < t := by
  simp only [owns, Option.any_eq_true, Bool.and_eq_true, decide_eq_true_eq, and_assoc]
  rfl

/-- A running instance is a forward one before the reversal and a compensation in it. -/
theorem Sound.phase_of_running (h : s.Sound) (hi : i ∈ s.instances) (hr : i.isRunning) :
    (s.phase = .forward ∨ ∃ cause, s.phase = .stopping cause) ∧ i.isForward ∨
      (∃ cause, s.phase = .reversing cause) ∧ i.isCompensation ∧ ¬ s.paused := by
  have hcomp (hrev : Reversal s.contract s.instances) : i.isCompensation := by
    by_contra hc
    exact (hrev.quiet i hi (isForward_iff.2 hc)).1 hr
  cases hphase : s.phase with
  | forward => exact .inl ⟨.inl rfl, h.phaseOk_of hphase i hi⟩
  | stopping cause => exact .inl ⟨.inr ⟨cause, rfl⟩, h.phaseOk_of hphase i hi⟩
  | reversing cause =>
    obtain ⟨hrev, -, hpaused⟩ := h.phaseOk_of hphase
    exact .inr ⟨⟨cause, rfl⟩, hcomp hrev, fun hp => hpaused hp (anyRunning_iff.2 ⟨i, hi, hr⟩)⟩
  | reverseFailed cause =>
    exact absurd (anyRunning_iff.2 ⟨i, hi, hr⟩) (h.phaseOk_of hphase).2
  | reversed cause =>
    obtain ⟨hrev, hsucc⟩ := h.phaseOk_of hphase
    exact absurd (hsucc i hi (hcomp hrev)) (not_isSucceeded_of_isRunning hr)

theorem Sound.failed_reversal (h : s.Sound) {cause : Cause} (hphase : s.phase = .reversing cause)
    (hi : s.instances[index]? = some i) (hr : i.isRunning)
    (hcore : i'.core = i.core) (hr' : ¬ i'.isRunning) : ({ s with
      instances := s.instances.set index i'
      phase := .reverseFailed cause } : ExecutionState).Loose := by
  have hl : Forall₂ Touched s.instances (s.instances.set index i') :=
    forall₂_set (fun _ => .inl rfl) hi (.inr ⟨hr, hcore⟩)
  have hbase := h.toBase.of_moved (hl.imp fun _ _ => Touched.moved)
  obtain ⟨hrev, -, -⟩ := h.phaseOk_of hphase
  refine ⟨{ hbase with }, hrev.of_touched hl, fun hany => ?_⟩
  obtain ⟨r, hmem, hrun⟩ := anyRunning_iff.1 hany
  obtain ⟨j, hj, hx⟩ := hl.exists_of_mem_right hmem
  have hrunj := hx.isRunning hrun
  have himem := mem_of_getElem? hi
  have hcomp {a : Instance} (ha : a ∈ s.instances) (hrun : a.isRunning) : a.isCompensation :=
    ((h.phase_of_running ha hrun).resolve_left fun hf => by
      rcases hf.1 with hf | ⟨c, hf⟩ <;> cases hphase.symm.trans hf).2.1
  -- the two running compensations are one, so the one in the new list is the one that ended
  have hji := eq_of_begun h.order hj himem (hcomp hj hrunj) (hcomp himem hr)
    (not_isSucceeded_of_isRunning hrunj) (not_isSucceeded_of_isRunning hr)
    (not_untouched_of_isRunning hrunj) (not_untouched_of_isRunning hr)
  have hmem' : i' ∈ s.instances.set index i' :=
    mem_set (List.getElem?_eq_some_iff.1 hi).1 i'
  have heq : r = i' := inj_on_of_nodup_map hbase.distinct hmem hmem' (by
    rw [identity_eq hcore, identity_eq hx.moved.kept.1, hji])
  exact hr' (heq ▸ hrun)

/-- What can be delivered: an instance that waits, of the current stage or the next compensation. -/
theorem mem_routable (h : index ∈ s.routable) :
    ¬ s.paused ∧ ∃ i, s.instances[index]? = some i ∧ i.isWaiting ∧
      (s.phase = .forward ∧ s.stageError = none ∧ i.isForward ∧ s.currentStage = some i.stage ∨
        ∃ cause, s.phase = .reversing cause ∧ i.isCompensation ∧
          ∀ j < index, ∀ a, s.instances[j]? = some a → a.isCompensation → a.isSucceeded) := by
  unfold routable at h
  split at h
  · cases h
  · next hpaused =>
    refine ⟨hpaused, ?_⟩
    split at h
    · next hphase =>
      split at h
      · cases h
      · next herror =>
        split at h
        · cases h
        · next stage hstage =>
          obtain ⟨-, hany⟩ := mem_filter.1 h
          obtain ⟨i, hi, hcond⟩ := (Option.any_eq_true ..).1 hany
          simp only [Bool.and_eq_true, decide_eq_true_eq] at hcond
          obtain ⟨⟨rfl, hforward⟩, hwaiting⟩ := hcond
          refine ⟨i, hi, hwaiting, .inl ⟨hphase, ?_, hforward, hstage⟩⟩
          simpa using herror
    · next cause hphase =>
      split at h
      · cases h
      · next first hfirst =>
        split at h
        · next hany =>
          obtain rfl := mem_singleton.1 h
          obtain ⟨i, hi, hwaiting⟩ := (Option.any_eq_true ..).1 hany
          obtain ⟨hlt, hcond, hbefore⟩ := findIdx?_eq_some_iff_getElem.1 hfirst
          obtain ⟨hlt', hget⟩ := List.getElem?_eq_some_iff.1 hi
          rw [hget, Bool.and_eq_true] at hcond
          refine ⟨i, hi, hwaiting, .inr ⟨cause, hphase, hcond.1, fun j hj a ha hcomp => ?_⟩⟩
          obtain ⟨hltj, hgetj⟩ := List.getElem?_eq_some_iff.1 ha
          have hnot := hbefore j hj
          rw [hgetj] at hnot
          simpa [hcomp] using hnot
        · cases h
    all_goals cases h

/-- Claiming an instance keeps the order: the compensations before it have succeeded. -/
theorem order_set (horder : l.Pairwise Ordered)
    (hi : l[index]? = some i) (hcore : i'.core = i.core) (hs : ¬ i.isSucceeded)
    (hfirst : i.isCompensation →
      ∀ j < index, ∀ a, l[j]? = some a → a.isCompensation → a.isSucceeded) :
    (l.set index i').Pairwise Ordered := by
  induction l generalizing index with
  | nil => exact .nil
  | cons x l ih =>
    rw [pairwise_cons] at horder
    cases index with
    | zero =>
      obtain rfl : x = i := by simpa using hi
      rw [set_cons_zero, pairwise_cons]
      refine ⟨fun b hb hcomp => ?_, horder.2⟩
      rw [isCompensation_eq hcore] at hcomp
      obtain ⟨hbcomp, hdone⟩ := horder.1 b hb hcomp
      exact ⟨hbcomp, .inr (hdone.resolve_left hs)⟩
    | succ index =>
      rw [set_cons_succ, pairwise_cons]
      have hi' : l[index]? = some i := by simpa using hi
      refine ⟨fun b hb hcomp => ?_, ih horder.2 hi' fun hc j hj a ha =>
        hfirst hc (j + 1) (by omega) a (by simpa using ha)⟩
      rcases mem_or_eq_of_mem_set hb with hb | rfl
      · exact horder.1 b hb hcomp
      · have hci := (horder.1 i (mem_of_getElem? hi') hcomp).1
        exact ⟨by rwa [isCompensation_eq hcore], .inl (hfirst hci 0 (by omega) x rfl hcomp)⟩

theorem not_isSucceeded_of_isWaiting (h : i.isWaiting) : ¬ i.isSucceeded := by
  simp only [isWaiting, Bool.or_eq_true, decide_eq_true_eq] at h
  rw [isSucceeded_iff]
  rcases h with h | h <;> rw [h] <;> simp

/-! ### Every call -/

/-- The invariant holds afterwards, for the same contract, and every success is kept. -/
structure Carries (s s' : ExecutionState) : Prop where
  sound : s'.Sound
  contract : s'.contract = s.contract
  stages : s'.stages = s.stages
  grown : Grown s.instances s'.instances

theorem Carries.refl (h : s.Sound) : Carries s s := ⟨h, rfl, rfl, .refl _⟩

theorem Carries.of_advance {s₁ : ExecutionState} (ha : s₁.advance root now = .ok s')
    (h : s₁.Loose) (hgrown : Grown s.instances s₁.instances)
    (hcontract : s₁.contract = s.contract) (hstages : s₁.stages = s.stages) : Carries s s' := by
  obtain ⟨hsound, hsame, hgrown'⟩ := h.advance ha
  exact ⟨hsound, hsame.contract.trans hcontract, hsame.stages.trans hstages, hgrown.trans hgrown'⟩

theorem Sound.claim (h : s.Sound) {lease fence : ℕ}
    (hc : s.claim index now lease = .ok (fence, s')) : Carries s s' ∧ index ∈ s.routable := by
  simp only [ExecutionState.claim, ok_iffs] at hc
  obtain ⟨_, hcan, hc⟩ := hc
  have hroutable : index ∈ s.routable := by
    have hcan : s.canClaim index now := by simpa using hcan
    simp only [canClaim, Bool.and_eq_true, contains_iff_mem] at hcan
    exact hcan.1.1
  obtain ⟨hpaused, i, hi, hwaiting, hkind⟩ := mem_routable hroutable
  rw [hi] at hc
  simp only [ok_iffs] at hc
  obtain ⟨_, -, until_, -, _, -, _, -, -, rfl⟩ := hc
  have hns := not_isSucceeded_of_isWaiting hwaiting
  have hkept : Forall₂ (fun a a' => a.Kept a' ∧ (a' = a ∨ a' = claimed i s.epoch now until_ ∧
      a = i)) s.instances (s.instances.set index (claimed i s.epoch now until_)) :=
    forall₂_set (fun a => ⟨.refl a, .inl rfl⟩) hi
      ⟨⟨rfl, fun hs => absurd hs hns⟩, .inr ⟨rfl, rfl⟩⟩
  have hbase : ({ s with
      instances :=
        s.instances.set index (claimed i s.epoch now until_) } : ExecutionState).Base := by
    refine h.toBase.of_kept (hkept.imp fun _ _ hx => hx.1) (order_set h.order hi rfl hns ?_)
    intro hcomp j hj a ha hca
    rcases hkind with ⟨-, -, hforward, -⟩ | ⟨cause, -, -, hall⟩
    · exact absurd hcomp (isForward_iff.1 hforward)
    · exact hall j hj a ha hca
  have hbudget : ∀ a ∈ s.instances.set index (claimed i s.epoch now until_),
      a.state.status = .pending → a.HasBudget s.contract := by
    intro a' ha' hpending
    obtain ⟨a, ha, -, rfl | ⟨rfl, -⟩⟩ := hkept.exists_of_mem_right ha'
    · exact h.budget a' ha hpending
    · cases hpending
  -- the claimed instance is of the current stage, or it is the first compensation left
  refine ⟨⟨?_, rfl, rfl, .of_kept (hkept.imp fun _ _ hx => hx.1)⟩, hroutable⟩
  rcases hkind with ⟨hphase, -, -, -⟩ | ⟨cause, hphase, hcomp, -⟩
  · exact .of_forward hbase hphase
      (forward_of_kept (hkept.imp fun _ _ hx => hx.1) (h.forward hphase)) hbudget
  · obtain ⟨hrev, hway, -⟩ := h.phaseOk_of hphase
    have hmem : claimed i s.epoch now until_ ∈
        s.instances.set index (claimed i s.epoch now until_) :=
      mem_set (List.getElem?_eq_some_iff.1 hi).1 _
    refine ⟨⟨hbase, hphase ▸ ⟨?_, ?_, fun hp => absurd hp hpaused⟩⟩, hbudget,
      fun _ _ => ⟨_, hmem, hcomp, by simp [isSucceeded, claimed]⟩⟩
    · refine hrev.of_kept hkept (fun _ _ hx => hx.1) (fun a a' hx hf => ?_)
      rcases hx.2 with rfl | ⟨-, rfl⟩
      · exact ⟨id, id, fun hb => hb⟩
      · exact absurd hcomp (isForward_iff.1 hf)
    · intro a' ha' hc
      obtain ⟨a, ha, -, rfl | ⟨rfl, -⟩⟩ := hkept.exists_of_mem_right ha'
      · exact hway a' ha hc
      · simp [OnTheWay, claimed]

theorem Sound.heartbeat (h : s.Sound) {lease : ℕ} {renewed : Bool}
    (hc : s.heartbeat index fence now lease = .ok (renewed, s')) : Carries s s' := by
  unfold ExecutionState.heartbeat at hc
  split at hc
  · cases hc
    exact .refl h
  · next hown =>
    simp only [ok_iffs] at hc
    obtain ⟨until_, -, -, rfl⟩ := hc
    obtain ⟨i, hi, -, hr, -⟩ := owns_iff.1 (by simpa using hown)
    -- only the lease of the owned instance changes
    have hl : Forall₂ (fun a a' => Touched a a' ∧ a'.state = a.state ∧ a'.core = a.core)
        s.instances (s.instances.modify index fun i => { i with leaseUntil := some until_ }) := by
      refine forall₂_modify (fun a => ⟨.inl rfl, rfl, rfl⟩) fun a ha => ?_
      obtain rfl : i = a := by rw [hi] at ha; exact Option.some.inj ha
      exact ⟨.inr ⟨hr, rfl⟩, rfl, rfl⟩
    have hloose := h.touched (hl.imp fun _ _ hx => hx.1) fun cause hphase a' ha' hc => by
      obtain ⟨a, ha, -, hstate, hcore⟩ := hl.exists_of_mem_right ha'
      rw [isCompensation_eq hcore] at hc
      rw [OnTheWay, hstate]
      exact (h.phaseOk_of hphase).2.1 a ha hc
    refine ⟨⟨hloose, fun a' ha' hpending => ?_, fun cause hphase => ?_⟩, rfl, rfl,
      .of_kept (hl.imp fun _ _ hx => hx.1.moved.kept)⟩
    · obtain ⟨a, ha, -, hstate, hcore⟩ := hl.exists_of_mem_right ha'
      rw [hstate] at hpending
      obtain ⟨p, hp, hlt⟩ := h.budget a ha hpending
      exact ⟨p, by rw [policyOf_eq hcore]; exact hp, by rw [hstate]; exact hlt⟩
    · obtain ⟨a, ha, hcomp, hns⟩ := h.unfinished cause hphase
      obtain ⟨a', ha', -, hstate, hcore⟩ := hl.exists_of_mem_left ha
      refine ⟨a', ha', by rwa [isCompensation_eq hcore], ?_⟩
      rwa [isSucceeded, hstate]

theorem Sound.touched_set (h : s.Sound)
    (hi : s.instances[index]? = some i) (hr : i.isRunning) (hcore : i'.core = i.core)
    (hway : ∀ cause, s.phase = .reversing cause → OnTheWay i') :
    ({ s with instances := s.instances.set index i' } : ExecutionState).Loose := by
  refine h.touched (forall₂_set (fun _ => .inl rfl) hi (.inr ⟨hr, hcore⟩)) ?_
  intro cause hphase a ha hc
  rcases mem_or_eq_of_mem_set ha with ha | rfl
  · exact (h.phaseOk_of hphase).2.1 a ha hc
  · exact hway cause hphase

theorem kept_set (hi : l[index]? = some i) (hr : i.isRunning)
    (hcore : i'.core = i.core) : Forall₂ Kept l (l.set index i') :=
  forall₂_set .refl hi
    ⟨hcore, fun hs => absurd hs (not_isSucceeded_of_isRunning hr)⟩

/-- A failed attempt is cancelled, waits for the next one, or ends the phase. -/
theorem failAttempt_spec {policy : RetryPolicy} {error : ActivityError} {jitter : ℕ} {phase : Phase}
    (h : s.failAttempt i policy error now jitter = .ok (i', phase)) :
    i'.core = i.core ∧ ¬ i'.isRunning ∧ (phase = s.phase ∧ (s.paused ∨ s.isStopping ∨ OnTheWay i') ∨
        ¬ s.isStopping ∧ phase = match s.phase with
          | .reversing cause => .reverseFailed cause
          | phase => if s.contract.saga then .stopping (.failure error.code) else phase) := by
  unfold failAttempt at h
  split at h
  · next hstop =>
    cases h
    refine ⟨rfl, by simp [isRunning], .inl ⟨rfl, ?_⟩⟩
    rw [Bool.or_eq_true] at hstop
    rcases hstop with hp | hp
    · exact .inl hp
    · exact .inr (.inl hp)
  · next hstop =>
    have hnot : ¬ s.isStopping := fun hs => hstop (by simp [hs])
    simp only at h
    split at h
    · split at h
      · simp only [ok_iffs] at h
        obtain ⟨dueAt, -, rfl, rfl⟩ := h
        exact ⟨rfl, by simp [isRunning], .inl ⟨rfl, .inr (.inr (by simp [OnTheWay]))⟩⟩
      · cases h
        exact ⟨rfl, by simp [isRunning], .inr ⟨hnot, rfl⟩⟩
    · cases h
      exact ⟨rfl, by simp [isRunning], .inr ⟨hnot, rfl⟩⟩
    · cases h
      exact ⟨rfl, by simp [isRunning], .inr ⟨hnot, rfl⟩⟩

theorem isStopping_iff : s.isStopping ↔ ∃ cause, s.phase = .stopping cause := by
  unfold isStopping
  split <;> simp_all

theorem Sound.finish (h : s.Sound) {result : Except ActivityError Value}
    {jitter : ℕ} (hc : s.finish index fence result root now jitter = .ok s') : Carries s s' := by
  simp only [ExecutionState.finish, ok_iffs] at hc
  obtain ⟨_, hown, hc⟩ := hc
  obtain ⟨i, hi, -, hr, -⟩ := owns_iff.1 (by simpa using hown)
  have himem := mem_of_getElem? hi
  rw [hi] at hc
  simp only [bind_eq_ok_iff] at hc
  obtain ⟨policy, -, hc⟩ := hc
  cases result with
  | ok value =>
    refine .of_advance hc (h.touched_set hi hr ?_ fun _ _ => ?_)
      (.of_kept (kept_set hi hr ?_)) rfl rfl
    · rfl
    · simp [OnTheWay]
    · rfl
  | error error =>
    simp only [bind_eq_ok_iff, Prod.exists] at hc
    obtain ⟨i', phase, hfail, hc⟩ := hc
    -- the attempt is cancelled or tried again, or it failed for good and ends the phase
    obtain ⟨hcore, hr', ⟨rfl, hway⟩ | ⟨hstop, rfl⟩⟩ := failAttempt_spec hfail
    · refine .of_advance hc (h.touched_set hi hr hcore fun cause hphase => ?_)
        (.of_kept (kept_set hi hr hcore)) rfl rfl
      rcases hway with hpaused | hstop | hway
      · exact absurd (anyRunning_iff.2 ⟨i, himem, hr⟩) ((h.phaseOk_of hphase).2.2 hpaused)
      · obtain ⟨c, hstop⟩ := isStopping_iff.1 hstop
        cases hphase.symm.trans hstop
      · exact hway
    · refine .of_advance hc ?_ (.of_kept (kept_set hi hr hcore)) rfl rfl
      rcases h.phase_of_running himem hr with ⟨hphase, -⟩ | ⟨⟨cause, hphase⟩, -, -⟩
      · have hphase : s.phase = .forward :=
          hphase.resolve_right fun hp => hstop (isStopping_iff.2 hp)
        have hloose := h.touched_set hi hr hcore fun cause hp => by cases hphase.symm.trans hp
        have hforward := forward_of_kept (kept_set hi hr hcore) (h.forward hphase)
        rw [hphase]
        refine ⟨{ hloose with }, ?_⟩
        simp only
        split
        · exact hforward
        · exact hforward
      · rw [hphase]
        exact h.failed_reversal hphase hi hr hcore hr'

theorem Sound.returned (h : s.Sound) {l : List Instance}
    (hl : Forall₂ (fun i i' => i' = i ∨ (i.isRunning ∧ i'.core = i.core ∧
      i'.state.status = .pending)) s.instances l)
    (ha : ({ s with instances := l } : ExecutionState).advance root now = .ok s') :
    Carries s s' := by
  have hl' : Forall₂ Touched s.instances l :=
    hl.imp fun _ _ hx => hx.imp id fun hx => ⟨hx.1, hx.2.1⟩
  refine .of_advance ha (h.touched hl' fun cause hphase i' hi' hc => ?_)
    (.of_kept (hl'.imp fun _ _ hx => hx.moved.kept)) rfl rfl
  obtain ⟨i, hi, rfl | ⟨-, -, hpending⟩⟩ := hl.exists_of_mem_right hi'
  · exact (h.phaseOk_of hphase).2.1 i' hi hc
  · simp [OnTheWay, hpending]

theorem Sound.release (h : s.Sound)
    (hc : s.release index fence now root = .ok s') : Carries s s' := by
  simp only [ExecutionState.release, ok_iffs] at hc
  obtain ⟨_, hown, hc⟩ := hc
  obtain ⟨i, hi, -, hr, -⟩ := owns_iff.1 (by simpa using hown)
  refine h.returned (forall₂_modify (fun _ => .inl rfl) fun a ha => .inr ?_) hc
  obtain rfl : i = a := by rw [hi] at ha; exact Option.some.inj ha
  exact ⟨hr, rfl, rfl⟩

theorem Sound.recover (h : s.Sound) {changed : Bool}
    (hc : s.recover root now = .ok (changed, s')) : Carries s s' := by
  unfold ExecutionState.recover at hc
  split at hc
  · simp only [ok_iffs] at hc
    obtain ⟨_, hc, -, rfl⟩ := hc
    refine h.returned (forall₂_map_self fun i _ => ?_) hc
    split
    · next hexpired =>
      rw [leaseExpired, Bool.and_eq_true] at hexpired
      exact .inr ⟨hexpired.1, rfl, rfl⟩
    · exact .inl rfl
  · cases hc
    exact .refl h

theorem phase_of_not_isCompensation (hc : ¬ s.isCompensation) (hs : ¬ s.isStopping) :
    s.phase = .forward := by
  cases hphase : s.phase <;> simp_all [isCompensation, isStopping]

theorem Sound.pause (h : s.Sound) (hc : s.pause = .ok s') : Carries s s' := by
  simp only [ExecutionState.pause, ok_iffs, Bool.or_eq_true, not_or] at hc
  obtain ⟨_, ⟨hcomp, hstop⟩, rfl⟩ := hc
  have hphase := phase_of_not_isCompensation hcomp hstop
  exact ⟨.of_forward { h with } hphase (h.forward hphase) h.budget, rfl, rfl, .refl _⟩

theorem Sound.abort (h : s.Sound) {reason : Option String} {changed : Bool}
    (hc : s.abort reason root now = .ok (changed, s')) : Carries s s' := by
  unfold ExecutionState.abort at hc
  split at hc
  · cases hc
    exact .refl h
  · simp only [ok_iffs] at hc
    obtain ⟨_, hc, -, rfl⟩ := hc
    have hphase : s.phase = .forward := by
      cases hphase : s.phase <;> simp_all [cause]
    exact .of_advance hc ⟨{ h with }, h.forward hphase⟩ (.refl _) rfl rfl

/-! ### Continuing a run -/

theorem renewed_cases (reverse : Bool) (now : ℤ) (i : Instance) :
    renewed reverse now i = i ∧ (i.isCompensation = reverse → OnTheWay i) ∨
      renewed reverse now i = renew i now ∧ i.isCompensation = reverse ∧ ¬ OnTheWay i := by
  unfold renewed
  split
  · next hcond =>
    refine .inr ⟨rfl, hcond.1, fun hway => ?_⟩
    rcases hcond.2 with hs | hs
    · exact hway.1 hs
    · exact hway.2 hs
  · next hcond =>
    refine .inl ⟨rfl, fun hc => ⟨fun hs => hcond ⟨hc, .inl hs⟩, fun hs => hcond ⟨hc, .inr hs⟩⟩⟩

theorem moved_renewed (reverse : Bool) (now : ℤ) (i : Instance) :
    i.Moved (renewed reverse now i) := by
  rcases renewed_cases reverse now i with ⟨heq, -⟩ | ⟨heq, -, hway⟩
  · exact .inl heq
  · rw [heq]
    refine .inr ⟨rfl, fun hs => hway ?_, fun hu => hway ?_⟩
    · rw [isSucceeded_iff] at hs
      simp [OnTheWay, hs]
    · simp [OnTheWay, hu.1]

theorem state_renewed (reverse : Bool) (now : ℤ) (i : Instance) :
    ((renewed reverse now i).isRunning → i.isRunning) ∧
      ((renewed reverse now i).isSucceeded → i.isSucceeded) := by
  rcases renewed_cases reverse now i with ⟨heq, -⟩ | ⟨heq, -, -⟩
  · rw [heq]
    exact ⟨id, id⟩
  · rw [heq]
    simp [renew, isRunning, isSucceeded]

theorem Reversal.renewed (h : Reversal s.contract s.instances) (hbase : s.Base) (reverse : Bool)
    (now : ℤ) : Reversal s.contract (s.instances.map (renewed reverse now)) := by
  have hl : Forall₂ (fun i i' => i.Fits s.contract ∧ i' = ExecutionState.renewed reverse now i)
      s.instances (s.instances.map (ExecutionState.renewed reverse now)) :=
    List.forall₂_map_self fun i hi => ⟨hbase.fits i hi, rfl⟩
  refine h.of_kept hl (fun i i' hx => ?_) (fun i i' hx _ => ?_)
  · rw [hx.2]
    exact (moved_renewed reverse now i).kept
  · rw [hx.2]
    obtain ⟨hrunning, hsucceeded⟩ := state_renewed reverse now i
    refine ⟨hsucceeded, fun hnot hr => hnot (hrunning hr), fun hb hp => ?_⟩
    rcases renewed_cases reverse now i with ⟨heq, -⟩ | ⟨heq, -, -⟩
    · rw [heq] at hp ⊢
      exact hb hp
    · rw [heq]
      exact Fits.hasBudget (hx.1.of_core_eq rfl) hbase.accepted rfl

theorem onTheWay_renewed {reverse : Bool}
    (h : i.isCompensation ≠ reverse → OnTheWay i) : OnTheWay (renewed reverse now i) := by
  rcases renewed_cases reverse now i with ⟨heq, hway⟩ | ⟨heq, -, -⟩
  · rw [heq]
    by_cases hc : i.isCompensation = reverse
    · exact hway hc
    · exact h hc
  · rw [heq]
    simp [OnTheWay, renew]

theorem Sound.continueRun (h : s.Sound) {expectedEpoch : ℕ} {resume : Bool}
    (hc : s.continueRun expectedEpoch resume root now = .ok s') : Carries s s' := by
  simp only [ExecutionState.continueRun, ok_iffs] at hc
  obtain ⟨_, -, _, hrun, _, hphase', _, -, _, -, hc⟩ := hc
  have hmoved : Forall₂ Moved s.instances
      (s.instances.map (renewed s.isReverseFailed now)) :=
    forall₂_map_self fun i _ => moved_renewed _ now i
  have hkept := hmoved.imp fun _ _ => Moved.kept
  refine .of_advance hc ⟨{ h.toBase.of_moved hmoved with }, ?_⟩ (.of_kept hkept) rfl rfl
  -- a reversal goes on when what failed in it is on its way again
  have hreversing (hrev : Reversal s.contract s.instances) (hway : ∀ i ∈ s.instances,
      i.isCompensation → i.isCompensation ≠ s.isReverseFailed → OnTheWay i) :
      Reversal s.contract (s.instances.map (renewed s.isReverseFailed now)) ∧
        ∀ i' ∈ s.instances.map (renewed s.isReverseFailed now), i'.isCompensation →
          OnTheWay i' := by
    refine ⟨hrev.renewed h.toBase _ now, forall_mem_map.2 fun i hi hc => ?_⟩
    rw [isCompensation_eq (moved_renewed _ now i).kept.1] at hc
    exact onTheWay_renewed (hway i hi hc)
  cases hphase : s.phase with
  | forward | stopping cause => exact forward_of_kept hkept (h.phaseOk_of hphase)
  | reversing cause =>
    obtain ⟨hrev, hway, -⟩ := h.phaseOk_of hphase
    obtain ⟨hrev', hway'⟩ := hreversing hrev fun i hi hc _ => hway i hi hc
    exact ⟨hrev', hway', fun heq => by cases heq⟩
  | reverseFailed cause =>
    have hreverse : s.isReverseFailed = true := by rw [isReverseFailed, hphase]
    obtain ⟨hrev', hway'⟩ := hreversing (h.phaseOk_of hphase).1 fun i _ hc hne =>
      absurd (hc.trans hreverse.symm) hne
    exact ⟨hrev', hway', fun heq => by cases heq⟩
  | reversed cause => simp [hphase] at hphase'

/-- **Every call** keeps the invariant and every success. -/
theorem Sound.call (h : s.Sound) {c : Call} (hc : s.call root c = .ok s') : Carries s s' := by
  cases c with
  | claim index now lease =>
    obtain ⟨⟨fence, _⟩, hcall, rfl⟩ := map_eq_ok_iff.1 hc
    exact (h.claim hcall).1
  | heartbeat index fence now lease =>
    obtain ⟨⟨renewed, _⟩, hcall, rfl⟩ := map_eq_ok_iff.1 hc
    exact h.heartbeat hcall
  | finish index fence result now jitter => exact h.finish hc
  | release index fence now => exact h.release hc
  | recover now =>
    obtain ⟨⟨changed, _⟩, hcall, rfl⟩ := map_eq_ok_iff.1 hc
    exact h.recover hcall
  | pause => exact h.pause hc
  | abort reason now =>
    obtain ⟨⟨changed, _⟩, hcall, rfl⟩ := map_eq_ok_iff.1 hc
    exact h.abort hcall
  | continueRun expectedEpoch resume now => exact h.continueRun hc

theorem Sound.after (h : s.Sound) (root : Value) (c : Call) : Carries s (s.after root c) := by
  unfold ExecutionState.after
  cases hc : s.call root c with
  | ok s' => exact h.call hc
  | error e => exact .refl h

theorem sound_new {contract : ExecutionContract} {u : Unit} (hv : contract.validate = .ok u)
    (hnew : new contract root now = .ok s) : s.Sound ∧ s.contract = contract := by
  simp only [new, ok_iffs] at hnew
  obtain ⟨stages, hstages, hnew⟩ := hnew
  have hloose : ({
      contract
      instances := []
      stageError := none
      stages
      materialized := ∅
      completed := ∅
      phase := .forward
      paused := false
      epoch := 0 } : ExecutionState).Loose := by
    refine ⟨{
      accepted := ExecutionContract.accepted_of_validate hv
      stages := hstages
      fits := by simp
      placed := by simp
      distinct := nodup_nil
      order := .nil
      begun := by simp
      earlier := by simp
      done := by simp }, fun _ hi => by cases hi⟩
  obtain ⟨hsound, hsame, -⟩ := hloose.advance hnew
  exact ⟨hsound, hsame.contract⟩

end ExecutionState

end Gears.Durable
