import Gears.Durable.Sound
import Mathlib

/-!
# Moving a run on

`advance` turns what holds inside a call into what holds between calls.

* `ExecutionState.Grown` : instances are only added, and a success is final.
* `ExecutionState.exhaust_spec`, `ExecutionState.planStage_spec` : the two loops.
* `ExecutionState.Loose.wind`, `ExecutionState.Loose.advance` : the invariant after moving on.
-/

namespace Gears.Durable

open Except List Instance

variable {i' : Instance} {id : String} {pending : List Instance} {ids : List String}

/-- An instance as it is added to a run. -/
def Instance.IsNew (i : Instance) : Prop :=
  ∃ identity stage template input receipt now,
    i = .new identity stage template input receipt now

namespace ExecutionState

variable {s s' : ExecutionState} {now : ℤ} {root : Value}

/-- Instances are added at the end; those there were keep their work and their successes. -/
def Grown (l l' : List Instance) : Prop :=
  ∃ changed new, l' = changed ++ new ∧ Forall₂ Kept l changed

variable {l l' : List Instance} {i : Instance} {c : ExecutionContract} {k : ℕ}

theorem Grown.of_kept (h : Forall₂ Kept l l') : Grown l l' :=
  ⟨l', [], by simp, h⟩

theorem Grown.refl (l : List Instance) : Grown l l :=
  .of_kept (forall₂_same.2 fun i _ => .refl i)

theorem Grown.append (l new : List Instance) : Grown l (l ++ new) :=
  ⟨l, new, rfl, forall₂_same.2 fun i _ => .refl i⟩

theorem Grown.trans {l'' : List Instance} (h : Grown l l') (h' : Grown l' l'') : Grown l l'' := by
  obtain ⟨l₁, new₁, rfl, hk₁⟩ := h
  obtain ⟨l₂, new₂, rfl, hk₂⟩ := h'
  -- the second change splits where the first one has begun to add
  obtain ⟨a, b, rfl, ha, hb⟩ : ∃ a b, l₂ = a ++ b ∧ Forall₂ Kept l₁ a ∧
      Forall₂ Kept new₁ b := by
    refine ⟨l₂.take l₁.length, l₂.drop l₁.length, (take_append_drop _ _).symm, ?_, ?_⟩
    · simpa using forall₂_take l₁.length hk₂
    · simpa using forall₂_drop l₁.length hk₂
  refine ⟨a, b ++ new₂, by rw [append_assoc], ?_⟩
  exact hk₁.comp ha fun _ _ _ => Kept.trans

theorem Grown.getElem? (h : Grown l l') {j : ℕ}
    (hi : l[j]? = some i) (hs : i.isSucceeded) : l'[j]? = some i := by
  obtain ⟨changed, new, rfl, hk⟩ := h
  obtain ⟨i', hi', hkept⟩ := hk.exists_getElem? hi
  rw [getElem?_append_left (List.getElem?_eq_some_iff.1 hi').1, hi', hkept.2 hs]

/-! ### Attempts used up -/

/-- An instance with attempts left stays; a pending one without fails. -/
def Exhausted (c : ExecutionContract) (now : ℤ) (i i' : Instance) : Prop :=
  (i' = i ∧ (i.state.status = .pending → i.HasBudget c)) ∨
    (i.state.status = .pending ∧ ¬ i.HasBudget c ∧
      i' = i.finish .failed (some "attempts_exhausted") now)

theorem failPhase_failPhase (saga : Bool) (code : String) (phase : Phase) :
    failPhase saga code (failPhase saga code phase) = failPhase saga code phase := by
  cases phase with
  | forward => cases saga <;> rfl
  | _ => rfl

theorem hasBudget_iff {p : RetryPolicy}
    (h : c.policyOf i = .ok p) : i.HasBudget c ↔ i.state.budgetAttempts < p.maxAttempts := by
  simp [HasBudget, h]

theorem exhaust_spec {phase phase' : Phase} (h : exhaust c now phase l = .ok (l', phase')) :
    Forall₂ (Exhausted c now) l l' ∧ (phase' = phase ∧ l' = l ∨
        (∃ i ∈ l, i.state.status = .pending ∧ ¬ i.HasBudget c) ∧
          phase' = failPhase c.saga "attempts_exhausted" phase) := by
  induction l generalizing phase l' with
  | nil =>
    cases h
    exact ⟨.nil, .inl ⟨rfl, rfl⟩⟩
  | cons i rest ih =>
    simp only [exhaust, bind_eq_ok_iff] at h
    obtain ⟨p, hp, h⟩ := h
    split at h
    · next hout =>
      simp only [ok_iffs, Prod.exists] at h
      obtain ⟨rest', _, hrest, rfl, rfl⟩ := h
      obtain ⟨hall, hphase⟩ := ih hrest
      have hnot : ¬ i.HasBudget c := by
        rw [hasBudget_iff hp]
        omega
      refine ⟨.cons (.inr ⟨hout.1, hnot, rfl⟩) hall, .inr ⟨⟨i, mem_cons_self, hout.1, hnot⟩, ?_⟩⟩
      -- a later failure finds a phase that has failed already
      rcases hphase with ⟨rfl, -⟩ | ⟨-, rfl⟩
      · rfl
      · rw [failPhase_failPhase]
    · next hout =>
      simp only [ok_iffs, Prod.exists] at h
      obtain ⟨rest', _, hrest, rfl, rfl⟩ := h
      obtain ⟨hall, hphase⟩ := ih hrest
      refine ⟨.cons (.inl ⟨rfl, fun hpending => ?_⟩) hall, ?_⟩
      · rw [hasBudget_iff hp]
        by_contra hle
        exact hout ⟨hpending, not_lt.1 hle⟩
      · rcases hphase with ⟨rfl, rfl⟩ | ⟨⟨j, hj, hj'⟩, rfl⟩
        · exact .inl ⟨rfl, rfl⟩
        · exact .inr ⟨⟨j, mem_cons_of_mem _ hj, hj'⟩, rfl⟩

theorem Exhausted.kept (h : Exhausted c now i i') : i.Kept i' := by
  rcases h with ⟨rfl, -⟩ | ⟨hpending, -, rfl⟩
  · exact .refl _
  · refine ⟨rfl, fun hs => ?_⟩
    rw [isSucceeded_iff, hpending] at hs
    cases hs

theorem Exhausted.moved (h : Exhausted c now i i') (hc : c.Accepted) (hfits : i.Fits c) :
    i.Moved i' := by
  rcases h with ⟨rfl, -⟩ | ⟨hpending, hnot, rfl⟩
  · exact .refl _
  · refine .inr ⟨rfl, ?_, fun hu => hnot (hfits.hasBudget hc hu.2)⟩
    rw [isSucceeded_iff, hpending]
    simp

/-- A compensation that runs is the first one left, so the others have not begun. -/
theorem eq_of_begun (horder : l.Pairwise Ordered) {j : Instance}
    (hi : i ∈ l) (hj : j ∈ l) (hci : i.isCompensation) (hcj : j.isCompensation)
    (hsi : ¬ i.isSucceeded) (hsj : ¬ j.isSucceeded) (hui : ¬ i.Untouched) (huj : ¬ j.Untouched) :
    i = j := by
  induction l with
  | nil => cases hi
  | cons a l ih =>
    rw [pairwise_cons] at horder
    rcases mem_cons.1 hi with rfl | hi'
    · rcases mem_cons.1 hj with rfl | hj'
      · rfl
      · exact absurd ((horder.1 j hj' hci).2.resolve_left hsi) huj
    · rcases mem_cons.1 hj with rfl | hj'
      · exact absurd ((horder.1 i hi' hcj).2.resolve_left hsj) hui
      · exact ih horder.2 hi' hj'

theorem Exhausted.isRunning (h : Exhausted c now i i') (hr : i'.isRunning) : i' = i := by
  rcases h with ⟨rfl, -⟩ | ⟨-, -, rfl⟩
  · rfl
  · cases hr

theorem Reversal.exhaust (h : Reversal c l) (hall : Forall₂ (Exhausted c now) l l') :
    Reversal c l' := by
  refine h.of_kept hall (fun i i' hx => hx.kept) (fun i i' hx _ => ?_)
  rcases hx with ⟨rfl, -⟩ | ⟨-, -, rfl⟩
  · exact ⟨id, id, fun hb => hb⟩
  · refine ⟨fun hs => ?_, fun _ hr => ?_, fun _ hp => ?_⟩
    · cases hs
    · cases hr
    · cases hp

theorem Reversal.isCompensation_of_exhausted (h : Reversal c l) (hi : i ∈ l)
    (hpending : i.state.status = .pending) (hnot : ¬ i.HasBudget c) : i.isCompensation := by
  by_contra hcomp
  exact hnot ((h.quiet i hi (isForward_iff.2 hcomp)).2 hpending)

theorem forward_of_kept (hl : Forall₂ Kept s.instances l)
    (hf : ∀ i ∈ s.instances, i.isForward) : ∀ i ∈ l, i.isForward := by
  intro i' hi'
  obtain ⟨i, hi, hx⟩ := hl.exists_of_mem_right hi'
  rw [isForward_eq hx.1]
  exact hf i hi

theorem Loose.phaseOk_exhaust (h : s.Loose)
    (hall : Forall₂ (Exhausted s.contract now) s.instances l)
    (hi : i ∈ s.instances) (hpending : i.state.status = .pending)
    (hnot : ¬ i.HasBudget s.contract) : ({ s with instances := l } : ExecutionState).PhaseOk
      (failPhase s.contract.saga "attempts_exhausted" s.phase) := by
  have hforward := forward_of_kept (hall.imp fun _ _ => Exhausted.kept)
  have hrunning (r : Instance) (hr : r ∈ l) (hrun : r.isRunning) : r ∈ s.instances := by
    obtain ⟨j, hj, hx⟩ := hall.exists_of_mem_right hr
    exact hx.isRunning hrun ▸ hj
  cases hphase : s.phase with
  | forward =>
    have hok := hforward (h.phaseOk_of hphase)
    rw [failPhase]
    split
    · exact hok
    · exact hok
  | stopping cause => exact hforward (h.phaseOk_of hphase)
  | reversing cause =>
    obtain ⟨hrev, -, -⟩ := h.phaseOk_of hphase
    refine ⟨hrev.exhaust hall, ?_⟩
    rw [anyRunning_iff]
    rintro ⟨r, hr, hrun⟩
    -- a running compensation would be the one that is used up
    have hj := hrunning r hr hrun
    have hcr : r.isCompensation := by
      by_contra hcomp
      exact (hrev.quiet r hj (isForward_iff.2 hcomp)).1 hrun
    have hci := hrev.isCompensation_of_exhausted hi hpending hnot
    have hsi : ¬ i.isSucceeded := by
      rw [isSucceeded_iff, hpending]
      simp
    have hui : ¬ i.Untouched := fun hu => hnot ((h.fits i hi).hasBudget h.accepted hu.2)
    have hir := eq_of_begun h.order hi hj hci hcr hsi (not_isSucceeded_of_isRunning hrun)
      hui (not_untouched_of_isRunning hrun)
    rw [← hir, isRunning_iff, hpending] at hrun
    cases hrun
  | reverseFailed cause =>
    obtain ⟨hrev, hrun⟩ := h.phaseOk_of hphase
    refine And.intro (hrev.exhaust hall) ?_
    rw [anyRunning_iff] at hrun ⊢
    exact fun ⟨r, hr, hrunr⟩ => hrun ⟨r, hrunning r hr hrunr, hrunr⟩
  | reversed cause =>
    obtain ⟨hrev, hsucc⟩ := h.phaseOk_of hphase
    have hci := hrev.isCompensation_of_exhausted hi hpending hnot
    have hs := hsucc i hi hci
    rw [isSucceeded_iff, hpending] at hs
    cases hs

theorem Loose.exhaust (h : s.Loose) {phase : Phase}
    (he : exhaust s.contract now s.phase s.instances = .ok (l, phase)) :
    ({ s with instances := l, phase } : ExecutionState).Loose ∧
      ∀ i ∈ l, i.state.status = .pending → i.HasBudget s.contract := by
  obtain ⟨hall, hphase⟩ := exhaust_spec he
  have hmoved : Forall₂ Moved s.instances l :=
    hall.imp_of_mem fun i hi i' hx => hx.moved h.accepted (h.fits i hi)
  refine ⟨⟨{ h.toBase.of_moved hmoved with }, ?_⟩, fun i' hi' hpending => ?_⟩
  · rcases hphase with ⟨rfl, rfl⟩ | ⟨⟨i, hi, hpending, hnot⟩, rfl⟩
    · exact h.phaseOk
    · exact h.phaseOk_exhaust hall hi hpending hnot
  · obtain ⟨i, -, ⟨rfl, hbudget⟩ | ⟨-, -, rfl⟩⟩ := hall.exists_of_mem_right hi'
    · exact hbudget hpending
    · cases hpending

/-! ### Reversal -/

theorem mem_reversals : i ∈ s.reversals ↔ i ∈ s.instances ∧ i.isForward ∧
    i.isSucceeded ∧ (s.contract.activities[i.template]?).any (·.compensation.isSome) := by
  simp [reversals, and_assoc]

@[simp] theorem isCompensation_compensationOf (now : ℤ) (i : Instance) :
    (compensationOf now i).isCompensation := by
  simp [compensationOf, Instance.new, Instance.isCompensation]

theorem untouched_compensationOf (now : ℤ) (i : Instance) : (compensationOf now i).Untouched :=
  ⟨rfl, rfl⟩

theorem filterMap_compCore_of_forward (h : ∀ i ∈ l, i.isForward) :
    l.filterMap (·.compCore) = [] := by
  rw [filterMap_eq_nil_iff]
  intro i hi
  rw [compCore, if_neg (isForward_iff.1 (h i hi))]

theorem filterMap_compCore_reversals (s : ExecutionState) (now : ℤ) :
    (s.reversals.map (compensationOf now)).filterMap (·.compCore) =
      (s.instances.filterMap (·.undoCore s.contract)).reverse := by
  rw [← filterMap_reverse, filterMap_map, reversals, filterMap_filter]
  rfl

theorem filterMap_undoCore_reversals (s : ExecutionState) (now : ℤ) :
    (s.reversals.map (compensationOf now)).filterMap (·.undoCore s.contract) = [] := by
  rw [filterMap_eq_nil_iff]
  intro i hi
  obtain ⟨j, -, rfl⟩ := mem_map.1 hi
  have hf : ¬ (compensationOf now j).isForward := by
    rw [isForward_iff, not_not]
    exact isCompensation_compensationOf now j
  simp [undoCore, hf]

/-- What new instances have to meet: they belong to activities of their stage, they are not known
yet, and forward ones belong to a stage that has begun and is not complete. -/
structure Additions (s : ExecutionState) (materialized : Finset ℕ) (new : List Instance) :
    Prop where
  fits : ∀ i ∈ new, i.Fits s.contract
  placed : ∀ i ∈ new, i.identity.step ∈ (s.stages[i.stage]?).getD []
  distinct : (new.map (·.identity)).Nodup
  unknown : ∀ i ∈ s.instances, ∀ j ∈ new, i.identity ≠ j.identity
  begun : ∀ i ∈ new, i.isForward → i.stage ∈ materialized ∧ i.stage ∉ s.completed
  untouched : ∀ i ∈ new, i.Untouched

theorem Base.append (h : s.Base) (hforward : ∀ i ∈ s.instances, i.isForward) {m : Finset ℕ}
    {new : List Instance} (hnew : s.Additions m new)
    (hkind : (∀ i ∈ new, i.isForward) ∨ ∀ i ∈ new, i.isCompensation)
    (hsub : s.materialized ⊆ m) (hearlier : ∀ k ∈ m, ∀ j < k, j ∈ s.completed) (phase : Phase) :
    ({ s with instances := s.instances ++ new, materialized := m, phase } :
      ExecutionState).Base where
  accepted := h.accepted
  stages := h.stages
  fits i hi := (mem_append.1 hi).elim (h.fits i) (hnew.fits i)
  placed i hi := (mem_append.1 hi).elim (h.placed i) (hnew.placed i)
  distinct := by
    rw [map_append, nodup_append]
    refine ⟨h.distinct, hnew.distinct, ?_⟩
    rintro _ ha _ hb heq
    obtain ⟨i, hi, rfl⟩ := mem_map.1 ha
    obtain ⟨j, hj, rfl⟩ := mem_map.1 hb
    exact hnew.unknown i hi j hj heq
  order := by
    rw [pairwise_append]
    refine ⟨h.order, ?_, fun i hi j _ hcomp => ?_⟩
    · rcases hkind with hf | hc
      · refine pairwise_of_forall_mem_list fun i hi j _ hcomp => ?_
        exact absurd hcomp (isForward_iff.1 (hf i hi))
      · exact pairwise_of_forall_mem_list fun i _ j hj _ =>
          ⟨hc j hj, .inr (hnew.untouched j hj)⟩
    · exact absurd hcomp (isForward_iff.1 (hforward i hi))
  begun i hi hf := by
    rcases mem_append.1 hi with hi | hi
    · exact hsub (h.begun i hi hf)
    · exact (hnew.begun i hi hf).1
  earlier := hearlier
  done k hk := by
    obtain ⟨hmem, hlt, hdone⟩ := h.done k hk
    refine ⟨hsub hmem, hlt, stageDone_iff.2 fun i hi hstage hf => ?_⟩
    rcases mem_append.1 hi with hi | hi
    · exact stageDone_iff.1 hdone i hi hstage hf
    · exact absurd (hstage ▸ hk) (hnew.begun i hi hf).2

theorem Base.additions_reversals (h : s.Base) (hforward : ∀ i ∈ s.instances, i.isForward)
    (now : ℤ) :
    s.Additions s.materialized (s.reversals.map (compensationOf now)) where
  fits i hi := by
    obtain ⟨j, hj, rfl⟩ := mem_map.1 hi
    obtain ⟨hmem, -, -, hcomp⟩ := mem_reversals.1 hj
    obtain ⟨spec, hspec, hid, -⟩ := h.fits j hmem
    rw [hspec] at hcomp
    exact ⟨spec, hspec, hid, fun _ => hcomp⟩
  placed i hi := by
    obtain ⟨j, hj, rfl⟩ := mem_map.1 hi
    exact h.placed j (mem_reversals.1 hj).1
  distinct := by
    have hsub : (s.reversals.map (·.identity)).Nodup := by
      refine ((filter_sublist).map _).nodup ?_
      rw [map_reverse, nodup_reverse]
      exact h.distinct
    rw [map_map, nodup_map_iff_inj_on (Nodup.of_map _ hsub)]
    intro i hi j hj heq
    obtain ⟨hmi, hfi, -⟩ := mem_reversals.1 hi
    obtain ⟨hmj, hfj, -⟩ := mem_reversals.1 hj
    refine inj_on_of_nodup_map h.distinct hmi hmj ?_
    simp only [Function.comp_apply, compensationOf, Instance.new]
      at heq
    simp only [Instance.isForward] at hfi hfj
    rcases hii : i.identity with ⟨_, _, _⟩
    rcases hjj : j.identity with ⟨_, _, _⟩
    simp_all
  unknown i hi j hj heq := by
    obtain ⟨k, -, rfl⟩ := mem_map.1 hj
    have hf := hforward i hi
    rw [Instance.isForward, heq] at hf
    simp [compensationOf, Instance.new] at hf
  begun i hi hf := by
    obtain ⟨j, -, rfl⟩ := mem_map.1 hi
    exact absurd (isCompensation_compensationOf now j) (isForward_iff.1 hf)
  untouched i hi := by
    obtain ⟨j, -, rfl⟩ := mem_map.1 hi
    exact untouched_compensationOf now j

theorem Loose.beginReversal (h : s.Loose)
    (hbudget : ∀ i ∈ s.instances, i.state.status = .pending → i.HasBudget s.contract) (now : ℤ) :
    (s.beginReversal now).Loose ∧
      ∀ i ∈ (s.beginReversal now).instances, i.state.status = .pending →
      i.HasBudget s.contract := by
  unfold ExecutionState.beginReversal
  split
  · next cause heq =>
    split
    · exact ⟨h, hbudget⟩
    · next hrun =>
      have hphase : ∀ i ∈ s.instances, i.isForward := h.phaseOk_of heq
      have hadd := h.toBase.additions_reversals hphase now
      have hcomp : ∀ i ∈ s.reversals.map (compensationOf now), i.isCompensation := by
        intro i hi
        obtain ⟨j, -, rfl⟩ := mem_map.1 hi
        exact isCompensation_compensationOf now j
      -- the compensations stand behind all forward instances and have not begun
      have hbase := h.toBase.append hphase hadd (.inr hcomp) (fun _ => id) h.earlier
        (.reversing cause)
      refine ⟨⟨hbase, ⟨?_, ?_⟩, ?_, ?_⟩, ?_⟩
      · change (s.instances ++ _).filterMap (·.compCore) =
          ((s.instances ++ s.reversals.map (compensationOf now)).filterMap
            (·.undoCore s.contract)).reverse
        rw [filterMap_append, filterMap_compCore_of_forward hphase, nil_append,
          filterMap_compCore_reversals, filterMap_append, filterMap_undoCore_reversals,
          append_nil]
      · intro i hi hf
        rcases mem_append.1 hi with hi | hi
        · exact ⟨fun hr => hrun (anyRunning_iff.2 ⟨i, hi, hr⟩), hbudget i hi⟩
        · exact absurd (hcomp i hi) (isForward_iff.1 hf)
      · intro i hi hci
        rcases mem_append.1 hi with hi | hi
        · exact absurd hci (isForward_iff.1 (hphase i hi))
        · rw [OnTheWay, (hadd.untouched i hi).1]
          simp
      · intro _ hany
        obtain ⟨i, hi, hr⟩ := anyRunning_iff.1 hany
        rcases mem_append.1 hi with hi | hi
        · exact hrun (anyRunning_iff.2 ⟨i, hi, hr⟩)
        · exact not_untouched_of_isRunning hr (hadd.untouched i hi)
      · intro i hi hpending
        rcases mem_append.1 hi with hi | hi
        · exact hbudget i hi hpending
        · exact (hadd.fits i hi).hasBudget h.accepted (hadd.untouched i hi).2
  · exact ⟨h, hbudget⟩

theorem Loose.endReversal (h : s.Loose)
    (hbudget : ∀ i ∈ s.instances, i.state.status = .pending → i.HasBudget s.contract) :
    s.endReversal.Sound := by
  unfold ExecutionState.endReversal
  split
  · next cause heq =>
    split
    · next hall =>
      refine ⟨⟨{ h with }, (h.phaseOk_of heq).1, fun i hi hc => ?_⟩, hbudget,
        fun _ heq => by cases heq⟩
      exact all_eq_true.1 hall i (mem_filter.2 ⟨hi, hc⟩)
    · next hall =>
      refine ⟨h, hbudget, fun _ _ => ?_⟩
      simpa [and_assoc] using hall
  · next hne => exact ⟨h, hbudget, fun cause heq => absurd heq (hne cause)⟩

/-- What moving on leaves alone. -/
structure SameRun (s s' : ExecutionState) : Prop where
  contract : s'.contract = s.contract
  stages : s'.stages = s.stages
  paused : s'.paused = s.paused
  epoch : s'.epoch = s.epoch

theorem SameRun.refl (s : ExecutionState) : SameRun s s := ⟨rfl, rfl, rfl, rfl⟩

/-- A property that every step of moving on keeps. -/
structure Stable (root : Value) (now : ℤ) (P : ExecutionState → Prop) : Prop where
  exhaust : ∀ s l phase, P s → exhaust s.contract now s.phase s.instances = .ok (l, phase) →
    P { s with instances := l, phase }
  beginReversal : ∀ s, P s → P (s.beginReversal now)
  endReversal : ∀ s, P s → P s.endReversal
  reject : ∀ s stage phase, ¬ s.paused → P s → P { s with
    stageError := some "fanout_limit_exceeded"
    materialized := insert stage s.materialized
    phase }
  beginStage : ∀ s stage pending, ¬ s.paused → P s →
    s.planStage stage root now ((s.stages[stage]?).getD []) [] = .ok (some pending) → P { s with
      instances := s.instances ++ pending
      materialized := insert stage s.materialized }
  complete : ∀ s stage, P s → P { s with completed := insert stage s.completed }

namespace Stable

variable {P : ExecutionState → Prop} (hP : Stable root now P)

include hP

theorem wind (hs : P s) (h : s.wind now = .ok s') : P s' := by
  simp only [ExecutionState.wind, ok_iffs, Prod.exists] at h
  obtain ⟨l, phase, he, rfl⟩ := h
  exact hP.endReversal _ (hP.beginReversal _ (hP.exhaust s l phase hs he))

theorem expand {stages : List ℕ} (hs : P s) (h : expand root now stages s = .ok s') : P s' := by
  induction stages generalizing s with
  | nil =>
    cases h
    exact hs
  | cons stage stages ih =>
    -- a stage that was begun before and one that begins now go on alike
    have hnext {s₁ : ExecutionState} (hs₁ : P s₁) (h : (if s₁.stageDone stage then
        expand root now stages { s₁ with completed := insert stage s₁.completed }
          else .ok s₁) = .ok s') : P s' := by
      split at h
      · exact ih (hP.complete s₁ stage hs₁) h
      · cases h
        exact hs₁
    unfold expand at h
    split at h
    · exact ih hs h
    · split at h
      · exact hnext hs h
      · split at h
        · cases h
          exact hs
        · next hpaused =>
          split at h
          · cases h
          · unfold rejectExpansion at h
            dsimp only at h
            split at h
            · exact hP.wind (hP.reject s stage _ hpaused hs) h
            · cases h
              exact hP.reject s stage s.phase hpaused hs
          · next pending hplan => exact hnext (hP.beginStage s stage pending hpaused hs hplan) h

/-- **What every step keeps, moving on keeps.** -/
theorem advance (hs : P s) (h : s.advance root now = .ok s') : P s' := by
  simp only [ExecutionState.advance, bind_eq_ok_iff] at h
  obtain ⟨s₁, hw, h⟩ := h
  split at h
  · exact hP.expand (hP.wind hs hw) h
  · cases h
    exact hP.wind hs hw

end Stable

theorem stable_grown (s : ExecutionState) :
    Stable root now fun t => SameRun s t ∧ Grown s.instances t.instances where
  exhaust t l phase h he := ⟨{ h.1 with }, h.2.trans (.of_kept
    ((exhaust_spec he).1.imp fun _ _ => Exhausted.kept))⟩
  beginReversal t h := by
    unfold beginReversal
    split
    · split
      · exact h
      · exact ⟨{ h.1 with }, h.2.trans (.append _ _)⟩
    · exact h
  endReversal t h := by
    unfold endReversal
    repeat' split
    all_goals exact ⟨{ h.1 with }, h.2⟩
  reject _ _ _ _ h := ⟨{ h.1 with }, h.2⟩
  beginStage _ _ _ _ h _ := ⟨{ h.1 with }, h.2.trans (.append _ _)⟩
  complete _ _ h := ⟨{ h.1 with }, h.2⟩

/-- **Winding down.**  Failing what is used up and reversing restores the invariant. -/
theorem Loose.wind (h : s.Loose) (hw : s.wind now = .ok s') : s'.Sound := by
  simp only [ExecutionState.wind, ok_iffs, Prod.exists] at hw
  obtain ⟨l, phase, he, rfl⟩ := hw
  obtain ⟨hloose, hbudget⟩ := h.exhaust he
  obtain ⟨hloose', hbudget'⟩ := hloose.beginReversal hbudget now
  have hcontract : (ExecutionState.beginReversal { s with instances := l, phase } now).contract =
      s.contract := by
    unfold ExecutionState.beginReversal
    repeat' split
    all_goals rfl
  refine hloose'.endReversal ?_
  rw [hcontract]
  exact hbudget'

/-! ### Expansion of the stages -/

/-- A planned instance of one of the activities, for the stage that is begun. -/
structure Planned (c : ExecutionContract) (stage : ℕ) (ids : List String) (i : Instance) :
    Prop where
  isForward : i.isForward
  stage_eq : i.stage = stage
  untouched : i.Untouched
  mem : i.identity.step ∈ ids
  fits : i.Fits c

theorem planned_new {stage template : ℕ}
    (htemplate : c.activities.findIdx? (·.id = id) = some template) (index : Option ℕ)
    (input : Value) (now : ℤ) : Planned c stage (id :: ids)
      (.new { step := id, itemIndex := index, phase := .forward } stage template input none
        now) := by
  obtain ⟨hlt, hid, -⟩ := findIdx?_eq_some_iff_getElem.1 htemplate
  refine ⟨rfl, rfl, ⟨rfl, rfl⟩, mem_cons_self, c.activities[template], ?_, ?_, nofun⟩
  · exact getElem?_eq_getElem hlt
  · exact of_decide_eq_true hid

theorem planStage_spec {stage : ℕ} {out : List Instance}
    (h : s.planStage stage root now ids pending = .ok (some out)) :
    ∃ new, out = pending ++ new ∧ (∀ i ∈ new, i.IsNew ∧ Planned s.contract stage ids i) ∧
      (ids.Nodup → (new.map (·.identity)).Nodup) := by
  induction ids generalizing pending with
  | nil =>
    cases h
    exact ⟨[], by simp, by simp, by simp⟩
  | cons id ids ih =>
    -- the activity's own instances come first and share its name
    have hstep (first : List Instance)
        (hfirst : ∀ i ∈ first, i.IsNew ∧ Planned s.contract stage (id :: ids) i)
        (hid : ∀ i ∈ first, i.identity.step = id) (hnodup : (first.map (·.identity)).Nodup)
        (h : s.planStage stage root now ids (pending ++ first) = .ok (some out)) :
        ∃ new, out = pending ++ new ∧
          (∀ i ∈ new, i.IsNew ∧ Planned s.contract stage (id :: ids) i) ∧
          ((id :: ids).Nodup → (new.map (·.identity)).Nodup) := by
      obtain ⟨rest, rfl, hrest, hrest'⟩ := ih h
      refine ⟨first ++ rest, by rw [append_assoc], fun i hi => ?_, fun hids => ?_⟩
      · rcases mem_append.1 hi with hi | hi
        · exact hfirst i hi
        · obtain ⟨hnew, hp⟩ := hrest i hi
          exact ⟨hnew, { hp with mem := mem_cons_of_mem _ hp.mem }⟩
      · rw [map_append, nodup_append]
        refine ⟨hnodup, hrest' (nodup_cons.1 hids).2, ?_⟩
        rintro _ ha _ hb heq
        obtain ⟨i, hi, rfl⟩ := mem_map.1 ha
        obtain ⟨j, hj, rfl⟩ := mem_map.1 hb
        have hmem := (hrest j hj).2.mem
        rw [← heq, hid i hi] at hmem
        exact (nodup_cons.1 hids).1 hmem
    unfold planStage at h
    split at h
    · cases h
    · next template htemplate =>
      simp only at h
      split at h
      · cases h
      · next input _ =>
        split at h
        · split at h
          · cases h
          · next items _ =>
            split at h
            · cases h
            · refine hstep _ (fun i hi => ?_) (fun i hi => ?_) ?_ h
              · obtain ⟨⟨item, index⟩, -, rfl⟩ := mem_map.1 hi
                exact ⟨⟨_, _, _, _, _, _, rfl⟩, planned_new htemplate (some index) item now⟩
              · obtain ⟨⟨item, index⟩, -, rfl⟩ := mem_map.1 hi
                rfl
              · have hidx : (items.zipIdx.map Prod.snd).Nodup := by
                  rw [zipIdx_map_snd]
                  exact nodup_range'
                have hinj : Function.Injective fun index : ℕ =>
                    ({ step := id, itemIndex := some index, phase := .forward } :
                      ActivityInstanceId) := by
                  intro a b hab
                  simpa using hab
                have hmap := hidx.map hinj
                rw [map_map] at hmap ⊢
                exact hmap
        · split at h
          · cases h
          · refine hstep _ (fun i hi => ?_) (fun i hi => ?_) ?_ h
            · rw [mem_singleton.1 hi]
              exact ⟨⟨_, _, _, _, _, _, rfl⟩, planned_new htemplate none input now⟩
            · rw [mem_singleton.1 hi]
              rfl
            · exact nodup_singleton _

/-- **Properties of the instances.**  Moving on keeps what stays true when used-up instances fail
and when new ones are added. -/
theorem stable_instances {Q : List Instance → Prop}
    (hexhaust : ∀ c l l', Q l → Forall₂ (Exhausted c now) l l' → Q l')
    (hnew : ∀ l new, Q l → (∀ i ∈ new, i.IsNew) → Q (l ++ new)) :
    Stable root now fun s => Q s.instances where
  exhaust s l phase h he := hexhaust _ _ _ h (exhaust_spec he).1
  beginReversal s h := by
    unfold beginReversal
    split
    · split
      · exact h
      · exact hnew _ _ h (forall_mem_map.2 fun _ _ => ⟨_, _, _, _, _, _, rfl⟩)
    · exact h
  endReversal s h := by
    unfold endReversal
    repeat' split
    all_goals exact h
  reject _ _ _ _ h := h
  beginStage s stage pending _ h hplan := by
    obtain ⟨_, rfl, hall, -⟩ := planStage_spec hplan
    exact hnew _ _ h fun i hi => (hall i hi).1
  complete _ _ h := h

theorem Base.nodup_flatten (h : s.Base) : s.stages.flatten.Nodup := by
  rw [(ExecutionContract.flatten_of_stages h.stages).2]
  exact h.accepted.ids_nodup

theorem mem_stage {a : ℕ} (h : id ∈ (s.stages[a]?).getD []) :
    ∃ hlt : a < s.stages.length, id ∈ s.stages[a] := by
  cases hl : s.stages[a]? with
  | none => simp [hl] at h
  | some l =>
    obtain ⟨hlt, rfl⟩ := List.getElem?_eq_some_iff.1 hl
    exact ⟨hlt, by rwa [hl] at h⟩

theorem Base.stage_unique (h : s.Base) {a b : ℕ} (ha : id ∈ (s.stages[a]?).getD [])
    (hb : id ∈ (s.stages[b]?).getD []) : a = b := by
  have hdisjoint := pairwise_iff_getElem.1 (List.nodup_flatten.1 h.nodup_flatten).2
  obtain ⟨hlt, ha⟩ := mem_stage ha
  obtain ⟨hlt', hb⟩ := mem_stage hb
  rcases lt_trichotomy a b with hab | rfl | hab
  · exact absurd hb (hdisjoint a b hlt hlt' hab ha)
  · rfl
  · exact absurd ha (hdisjoint b a hlt' hlt hab hb)

theorem Base.nodup_stage (h : s.Base) (k : ℕ) : ((s.stages[k]?).getD []).Nodup := by
  cases hl : s.stages[k]? with
  | none => exact nodup_nil
  | some l => exact (List.nodup_flatten.1 h.nodup_flatten).1 l (mem_of_getElem? hl)

theorem Sound.forward (h : s.Sound) (hphase : s.phase = .forward) :
    ∀ i ∈ s.instances, i.isForward := h.phaseOk_of hphase

theorem Sound.of_forward (hbase : s.Base) (hphase : s.phase = .forward)
    (hforward : ∀ i ∈ s.instances, i.isForward)
    (hbudget : ∀ i ∈ s.instances, i.state.status = .pending → i.HasBudget s.contract) :
    s.Sound := by
  refine ⟨⟨hbase, ?_⟩, hbudget, fun cause heq => ?_⟩
  · rw [hphase]
    exact hforward
  · cases hphase.symm.trans heq

theorem earlier_insert {m completed : Finset ℕ} (h : ∀ k ∈ m, ∀ j < k, j ∈ completed)
    (hk : ∀ j < k, j ∈ completed) : ∀ k' ∈ insert k m, ∀ j < k', j ∈ completed := by
  intro k' hk'
  rcases Finset.mem_insert.1 hk' with rfl | hk'
  · exact hk
  · exact h k' hk'

theorem Sound.beginStage (h : s.Sound) (hphase : s.phase = .forward) (hk : ∀ j < k, j ∈ s.completed)
    (hnew : k ∉ s.materialized)
    (hplan : s.planStage k root now ((s.stages[k]?).getD []) [] = .ok (some pending)) : ({ s with
      instances := s.instances ++ pending
      materialized := insert k s.materialized } : ExecutionState).Sound := by
  obtain ⟨_, rfl, hnew', hnodup⟩ := planStage_spec hplan
  have hall := fun i hi => (hnew' i hi).2
  have hforward := h.forward hphase
  have hadd : s.Additions (insert k s.materialized) _ := {
    fits := fun i hi => (hall i hi).fits
    placed := fun i hi => by
      rw [(hall i hi).stage_eq]
      exact (hall i hi).mem
    distinct := hnodup (h.nodup_stage k)
    unknown := fun i hi j hj heq => by
      have hi' := h.placed i hi
      rw [heq] at hi'
      have hstage := h.stage_unique hi' (hall j hj).mem
      exact hnew (hstage ▸ h.begun i hi (hforward i hi))
    begun := fun i hi _ => by
      rw [(hall i hi).stage_eq]
      exact ⟨Finset.mem_insert_self _ _, fun hc => hnew (h.done k hc).1⟩
    untouched := fun i hi => (hall i hi).untouched }
  have hbase := h.toBase.append hforward hadd (.inl fun i hi => (hall i hi).isForward)
    (Finset.subset_insert _ _) (earlier_insert h.earlier hk) s.phase
  refine .of_forward hbase hphase (fun i hi => ?_) fun i hi hpending => ?_
  · exact (mem_append.1 hi).elim (hforward i) fun hi => (hall i hi).isForward
  · rcases mem_append.1 hi with hi | hi
    · exact h.budget i hi hpending
    · exact (hall i hi).fits.hasBudget h.accepted (hall i hi).untouched.2

theorem Sound.completeStage (h : s.Sound) (hphase : s.phase = .forward)
    (hmat : k ∈ s.materialized) (hlt : k < s.stages.length) (hdone : s.stageDone k) :
    ({ s with completed := insert k s.completed } : ExecutionState).Sound := by
  refine .of_forward { h with earlier := ?_, done := ?_ } hphase (h.forward hphase) h.budget
  · exact fun k' hk' j hj => Finset.mem_insert_of_mem (h.earlier k' hk' j hj)
  · intro k' hk'
    rcases Finset.mem_insert.1 hk' with rfl | hk'
    · exact ⟨hmat, hlt, hdone⟩
    · exact h.done k' hk'

theorem Sound.rejectExpansion (h : s.Sound) (hphase : s.phase = .forward)
    (hk : ∀ j < k, j ∈ s.completed) (hr : s.rejectExpansion k now = .ok s') : s'.Sound := by
  have hbase (phase : Phase) : ({ s with
      stageError := some "fanout_limit_exceeded"
      materialized := insert k s.materialized
      phase } : ExecutionState).Base :=
    { h with
      begun := fun i hi hf => Finset.mem_insert_of_mem (h.begun i hi hf)
      earlier := earlier_insert h.earlier hk
      done := fun k' hk' => ⟨Finset.mem_insert_of_mem (h.done k' hk').1, (h.done k' hk').2⟩ }
  unfold ExecutionState.rejectExpansion at hr
  simp only at hr
  split at hr
  · have hloose : ({ s with
        stageError := some "fanout_limit_exceeded"
        materialized := insert k s.materialized
        phase := .stopping (.failure "fanout_limit_exceeded") } : ExecutionState).Loose :=
      ⟨hbase _, h.forward hphase⟩
    exact hloose.wind hr
  · cases hr
    exact .of_forward (hbase s.phase) hphase (h.forward hphase) h.budget

/-- **Expansion.**  Going through the stages from `k` on keeps the invariant. -/
theorem Sound.expand (h : s.Sound) (hphase : s.phase = .forward) {m : ℕ}
    (hk : ∀ j < k, j ∈ s.completed) (hlen : k + m = s.stages.length)
    (he : expand root now (range' k m) s = .ok s') : s'.Sound := by
  induction m generalizing k s with
  | zero =>
    cases he
    exact h
  | succ m ih =>
    rw [range'_succ] at he
    have hnext {s₁ : ExecutionState} (hs : s₁.Sound) (hphase : s₁.phase = .forward)
        (hlen : s₁.stages.length = s.stages.length) (hcompleted : s₁.completed = s.completed)
        (hmat : k ∈ s₁.materialized) (he : (if s₁.stageDone k then
          expand root now (range' (k + 1) m)
            { s₁ with completed := insert k s₁.completed } else .ok s₁) = .ok s') : s'.Sound := by
      split at he
      · next hdone =>
        have hk' : ∀ j < k + 1, j ∈ insert k s₁.completed := by
          intro j hj
          rcases Nat.lt_succ_iff_lt_or_eq.1 hj with hj | rfl
          · exact Finset.mem_insert_of_mem (hcompleted ▸ hk j hj)
          · exact Finset.mem_insert_self _ _
        have hlen' : k + 1 + m = s₁.stages.length := by omega
        exact ih (hs.completeStage hphase hmat (by omega) hdone) hphase hk' hlen' he
      · cases he
        exact hs
    unfold expand at he
    split at he
    · next hc =>
      refine ih h hphase (fun j hj => ?_) (by omega) he
      rcases Nat.lt_succ_iff_lt_or_eq.1 hj with hj | rfl
      · exact hk j hj
      · exact hc
    · split at he
      · next hmat => exact hnext h hphase rfl rfl hmat he
      · next hmat =>
        split at he
        · cases he
          exact h
        · split at he
          · cases he
          · exact h.rejectExpansion hphase hk he
          · next pending hplan =>
            exact hnext (h.beginStage hphase hk hmat hplan) hphase rfl rfl
              (Finset.mem_insert_self _ _) he

/-- **Moving on** restores the invariant, keeps the successes and adds instances at the end. -/
theorem Loose.advance (h : s.Loose) (ha : s.advance root now = .ok s') :
    s'.Sound ∧ SameRun s s' ∧ Grown s.instances s'.instances := by
  refine ⟨?_, (stable_grown s).advance ⟨.refl _, .refl _⟩ ha⟩
  simp only [ExecutionState.advance, bind_eq_ok_iff] at ha
  obtain ⟨s₁, hw, ha⟩ := ha
  have hsound := h.wind hw
  split at ha
  · next hcond =>
    rw [range_eq_range'] at ha
    exact hsound.expand hcond.1 (by simp) (by simp) ha
  · cases ha
    exact hsound

end ExecutionState

end Gears.Durable
