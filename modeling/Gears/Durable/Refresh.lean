import Gears.Durable.Saga
import Gears.Durable.Store
import Gears.Lib.Machine

/-!
# No accepted refresh is lost

A start names a run that has not ended and of which no attempt has begun, as long as no command
hits a run while it is parked.

* `Instance.Fresh`, `Journal.Unstarted` : no attempt has begun.
* `Store.Inv`, `Store.Inv.step` : what holds of every store, and that every transaction keeps it.
* `no_accepted_refresh_is_lost` : over whole histories.
* `cancelled_successor_is_named` : a start that names a run that was cancelled while parked.
-/

namespace Gears.Durable

open Except List

variable {now : ℤ} {contract : ExecutionContract} {key : Option String}

/-- No attempt has begun. -/
def Instance.Fresh (i : Instance) : Prop := i.state.attempts = 0 ∧ ¬ i.isRunning

namespace ExecutionState

variable {s s' : ExecutionState} {now : ℤ} {root : Value}

theorem advance_fresh (h : s.advance root now = .ok s') (hs : ∀ i ∈ s.instances, i.Fresh) :
    ∀ i ∈ s'.instances, i.Fresh := by
  refine (stable_instances (Q := fun l => ∀ i ∈ l, i.Fresh) ?_ ?_).advance hs h
  · intro _ l l' hl hall i' hi'
    obtain ⟨i, hi, ⟨rfl, -⟩ | ⟨-, -, rfl⟩⟩ := hall.exists_of_mem_right hi'
    · exact hl _ hi
    · exact ⟨(hl i hi).1, by simp [Instance.isRunning]⟩
  · intro l new hl hnew
    refine forall_mem_append.2 ⟨hl, fun i hi => ?_⟩
    obtain ⟨_, _, _, _, _, _, rfl⟩ := hnew i hi
    exact ⟨rfl, by simp [Instance.isRunning, Instance.new]⟩

end ExecutionState

namespace Journal

variable {digest : ExecutionContract → String} {j j' : Journal} {c : JournalCall}

/-- The run has not ended and no attempt has begun. -/
structure Unstarted (j : Journal) : Prop where
  live : ¬ j.run.status.isTerminal
  fresh : ∀ i ∈ j.execution.instances, i.Fresh

theorem stored_new {input : Value} {start : ℤ}
    (h : new digest contract input start = .ok j) :
    j.Stored digest ∧ ∀ i ∈ j.execution.instances, i.Fresh := by
  have hsound := (sound_new h).1
  simp only [new, ExecutionState.new, bind_eq_ok_iff] at h
  obtain ⟨execution, ⟨stages, -, hexec⟩, _, -, h⟩ := h
  rw [(syncExecution_spec h).1]
  exact ⟨hsound.toStored, ExecutionState.advance_fresh hexec (by simp)⟩

theorem Stored.parked (hj : j.Stored digest) : j.parked.Stored digest :=
  ⟨⟨hj.valid, hj.fingerprint⟩, hj.execution, hj.activities⟩

theorem Stored.promoted (hj : j.Stored digest) (now : ℤ) : (j.promoted now).Stored digest :=
  ⟨⟨hj.valid, hj.fingerprint⟩, hj.execution, hj.activities⟩

theorem attempt_call {changed : Bool} (h : j.attempt digest c = .ok (changed, j')) :
    j.call digest c = .ok j' := by
  cases c with
  | claimTarget generation target now lease =>
    obtain ⟨r, hr, heq⟩ := map_eq_ok_iff.1 h
    cases heq
    exact map_eq_ok_iff.2 ⟨r, hr, rfl⟩
  | requestCancelAt | requestAbortAt | continueExecution => exact map_eq_ok_iff.2 ⟨_, h, rfl⟩
  | _ =>
    obtain ⟨r, hr, heq⟩ := map_eq_ok_iff.1 h
    cases heq
    exact hr

theorem attempt_of_fresh (hj : ∀ i ∈ j.execution.instances, i.Fresh) (hcommand : ¬ c.isCommand)
    (hclaim : ∀ generation target now lease, c ≠ .claimTarget generation target now lease)
    {changed : Bool} (h : j.attempt digest c = .ok (changed, j')) : changed = false := by
  have hown (index : ℕ) (fence now : ℤ) : ¬ j.execution.owns index fence now := by
    intro hown
    obtain ⟨i, hi, -, hr, -⟩ := ExecutionState.owns_iff.1 hown
    exact (hj i (mem_of_getElem? hi)).2 hr
  cases c with
  | claimTarget generation target now lease => exact absurd rfl (hclaim generation target now lease)
  | heartbeat claim now lease =>
    obtain ⟨_, -, heq⟩ := map_eq_ok_iff.1 h
    cases heq
    exact Bool.eq_false_iff.2 (hown claim.step claim.fence now)
  | complete | fail | release =>
    obtain ⟨_, hr, -⟩ := map_eq_ok_iff.1 h
    simp only [complete, fail, finish, ExecutionState.finish, release, ExecutionState.release,
      ok_iffs] at hr
    obtain ⟨_, ⟨_, howns, -⟩, -⟩ := hr
    exact absurd (by simpa using howns) (hown _ _ _)
  | recover now =>
    obtain ⟨_, -, heq⟩ := map_eq_ok_iff.1 h
    cases heq
    refine Bool.eq_false_iff.2 fun hany => ?_
    obtain ⟨i, hi, hexpired⟩ := any_eq_true.1 hany
    rw [ExecutionState.leaseExpired, Bool.and_eq_true] at hexpired
    exact (hj i hi).2 hexpired.1
  | _ => exact absurd rfl hcommand

end Journal

namespace Store

variable {digest : ExecutionContract → String} {input : Value} {st st' : Store} {id : RunId}
  {j : Journal} {row : Versioned Journal} {slot : Versioned Slot}

/-! ### What holds of every store -/

/-- The parked run. -/
def successor (st : Store) : Option RunId := st.slot.bind (·.value.successor)

/-- The run has not ended, and no attempt of it has begun. -/
def Awaits (st : Store) (id : RunId) : Prop :=
  ∃ row, st.runs id = some row ∧ ¬ row.value.run.status.isTerminal ∧
    ∀ i ∈ row.value.execution.instances, i.state.attempts = 0

/-- The run waits to be promoted: nothing has begun and nothing is enqueued. -/
def Parked (st : Store) (id : RunId) : Prop :=
  (∃ row, st.runs id = some row ∧ row.value.Unstarted) ∧
    ∀ generation, (id, generation) ∉ st.enqueued

/-- What was read is in the past of what is stored, and the successor is parked. -/
structure Inv (digest : ExecutionContract → String) (st : Store) : Prop where
  runReads : ∀ p ∈ st.runReads, ∃ row, st.runs p.1 = some row ∧ p.2.Past row
  slotReads : ∀ loaded ∈ st.slotReads, ∃ slot, st.slot = some slot ∧ loaded.Past slot
  enqueued : ∀ p ∈ st.enqueued, (st.runs p.1).isSome
  stored : ∀ id row, st.runs id = some row → row.value.Stored digest
  parked : ∀ id, st.successor = some id → st.Parked id
  distinct : ∀ slot, st.slot = some slot → ∀ id, slot.value.active = some id →
    slot.value.successor ≠ some id

theorem awaits_of_eq (hrow : st.runs id = some row) (hj : row.value.Unstarted) : st.Awaits id :=
  ⟨row, hrow, hj.live, fun i hi => (hj.fresh i hi).1⟩

theorem Parked.awaits (h : st.Parked id) : st.Awaits id := by
  obtain ⟨⟨row, hrow, hj⟩, -⟩ := h
  exact awaits_of_eq hrow hj

theorem Inv.successor_ne (h : st.Inv digest) (hnone : st.runs id = none) :
    st.successor ≠ some id := by
  intro hk
  obtain ⟨⟨row, hrow, -⟩, -⟩ := h.parked id hk
  cases hnone.symm.trans hrow

theorem inv_empty : empty.Inv digest := by
  constructor <;> simp [empty, successor]

/-! ### Writes -/

@[simp] theorem setRun_runs_self (st : Store) (id : RunId) (row : Versioned Journal) :
    (st.setRun id row).runs id = some row := Function.update_self ..

theorem setRun_runs_of_ne {k : RunId} (h : k ≠ id) : (st.setRun id row).runs k = st.runs k :=
  Function.update_of_ne h ..

theorem insertRun_spec (h : st.insertRun id j = .ok st') :
    st.runs id = none ∧ st' = st.setRun id ⟨j, 0⟩ := by
  simp only [insertRun, ok_iffs] at h
  obtain ⟨_, hnone, rfl⟩ := h
  exact ⟨by simpa using hnone, rfl⟩

theorem enqueue_spec (h : st.enqueue id j = .ok st') :
    ∃ new, st' = { st with enqueued := new ++ st.enqueued } ∧ ∀ p ∈ new, p.1 = id := by
  unfold enqueue at h
  split at h
  · simp only [ok_iffs] at h
    obtain ⟨_, -, rfl⟩ := h
    exact ⟨[(id, j.deliveryGeneration)], rfl, by simp⟩
  · cases h
    exact ⟨[], rfl, by simp⟩

theorem liveActive_spec {slot : Slot} (h : st.liveActive slot = some (id, row)) :
    slot.active = some id ∧ st.runs id = some row ∧ ¬ row.value.run.status.isTerminal := by
  simp only [liveActive, Option.bind_eq_some_iff, Option.map_eq_some_iff,
    Option.filter_eq_some_iff] at h
  obtain ⟨_, hactive, _, ⟨hrow, hlive⟩, rfl, rfl⟩ := h
  exact ⟨hactive, hrow, by simpa using hlive⟩

section

variable (h : st.Inv digest)
include h

/-- A row changes at one id, where what was loaded before stays in the past. -/
theorem Inv.setRun {new : Versioned Journal} (hj : new.value.Stored digest)
    (hpast : ∀ row, st.runs id = some row → ∀ loaded : Versioned Journal, loaded.Past row →
      loaded.Past new)
    (hparked : st.successor = some id → new.value.Unstarted) : (st.setRun id new).Inv digest where
  runReads p hp := by
    obtain ⟨row, hrow, hloaded⟩ := h.runReads p hp
    by_cases hid : p.1 = id
    · refine ⟨new, ?_, hpast row (hid ▸ hrow) p.2 hloaded⟩
      rw [hid, setRun_runs_self]
    · exact ⟨row, by rw [setRun_runs_of_ne hid, hrow], hloaded⟩
  slotReads := h.slotReads
  enqueued p hp := by
    by_cases hid : p.1 = id
    · rw [hid, setRun_runs_self]
      rfl
    · rw [setRun_runs_of_ne hid]
      exact h.enqueued p hp
  stored k row hrow := by
    by_cases hid : k = id
    · rw [hid, setRun_runs_self] at hrow
      cases hrow
      exact hj
    · rw [setRun_runs_of_ne hid] at hrow
      exact h.stored k row hrow
  parked k hk := by
    obtain ⟨⟨row, hrow, hun⟩, hnot⟩ := h.parked k hk
    refine ⟨?_, hnot⟩
    by_cases hid : k = id
    · subst hid
      exact ⟨new, setRun_runs_self .., hparked hk⟩
    · exact ⟨row, by rw [setRun_runs_of_ne hid, hrow], hun⟩
  distinct := h.distinct

theorem Inv.insertRun (hi : st.insertRun id j = .ok st') (hj : j.Stored digest) :
    st'.Inv digest := by
  obtain ⟨hnone, rfl⟩ := insertRun_spec hi
  refine h.setRun hj (fun row hrow => ?_) fun hk => absurd hk (h.successor_ne hnone)
  cases hnone.symm.trans hrow

theorem Inv.writeRun (hrow : st.runs id = some row) (hj : j.Stored digest)
    (hparked : st.successor = some id → j.Unstarted) : (st.writeRun id row j).Inv digest := by
  refine h.setRun hj (fun row' hrow' loaded hloaded => ?_) hparked
  cases hrow.symm.trans hrow'
  exact hloaded.write j

theorem Inv.enqueue (he : st.enqueue id j = .ok st') (hrun : (st.runs id).isSome)
    (hnot : st.successor ≠ some id) : st'.Inv digest := by
  obtain ⟨new, rfl, hnew⟩ := enqueue_spec he
  refine { h with enqueued := fun p hp => ?_, parked := fun k hk => ?_ }
  · rcases mem_append.1 hp with hp | hp
    · rw [hnew p hp]
      exact hrun
    · exact h.enqueued p hp
  · obtain ⟨hrow, hfree⟩ := h.parked k hk
    refine ⟨hrow, fun generation hmem => ?_⟩
    rcases mem_append.1 hmem with hmem | hmem
    · exact hnot (hk.trans (congrArg some (hnew _ hmem)))
    · exact hfree generation hmem

theorem Inv.writeSlot (hslot : st.slot = some slot) {new : Slot}
    (hparked : ∀ id, new.successor = some id → st.Parked id)
    (hdistinct : ∀ id, new.active = some id → new.successor ≠ some id) :
    ({ st with slot := some (slot.write new) } : Store).Inv digest where
  runReads := h.runReads
  slotReads loaded hl := by
    obtain ⟨cur, hcur, hpast⟩ := h.slotReads loaded hl
    cases hslot.symm.trans hcur
    exact ⟨_, rfl, hpast.write new⟩
  enqueued := h.enqueued
  stored := h.stored
  parked := hparked
  distinct slot' hslot' := by
    cases hslot'
    exact hdistinct

theorem Inv.remember (key : Option String) (result : StartResult) :
    (st.remember key result).Inv digest := by
  cases key with
  | none => exact h
  | some key => exact { h with }

theorem Inv.insertEnqueue {st₁ : Store} (hi : st.insertRun id j = .ok st₁)
    (he : st₁.enqueue id j = .ok st') (hj : j.Stored digest) :
    st'.Inv digest ∧ st'.runs id = some ⟨j, 0⟩ ∧ st'.slot = st.slot := by
  have h₁ := h.insertRun hi hj
  obtain ⟨hnone, rfl⟩ := insertRun_spec hi
  have h' := h₁.enqueue he (by rw [setRun_runs_self]; rfl) (h.successor_ne hnone)
  obtain ⟨new, rfl, -⟩ := enqueue_spec he
  exact ⟨h', setRun_runs_self .., rfl⟩

variable {result : StartResult}

theorem Inv.openSlot (hslot : st.slot = none) (hj : j.Stored digest) (hun : j.Unstarted)
    (ho : st.openSlot id j = .ok (result, st')) : st'.Inv digest ∧ st'.Awaits result.runId := by
  simp only [Store.openSlot, ok_iffs] at ho
  obtain ⟨st₁, hi, st₂, he, rfl, rfl⟩ := ho
  obtain ⟨h₂, hrow, hsame⟩ := h.insertEnqueue hi he hj
  refine ⟨⟨h₂.runReads, fun loaded hl => ?_, h₂.enqueued, h₂.stored, fun k hk => ?_, ?_⟩,
    awaits_of_eq hrow hun⟩
  · obtain ⟨slot, hs, -⟩ := h₂.slotReads loaded hl
    rw [hsame, hslot] at hs
    cases hs
  · cases hk
  · intro slot hs id _ hk
    cases hs
    cases hk

theorem Inv.coalesce (hslot : st.slot = some slot) (hj : j.Stored digest) (hun : j.Unstarted)
    (hc : st.coalesce slot id j = .ok (result, st')) :
    st'.Inv digest ∧ st'.Awaits result.runId := by
  have hdistinct := h.distinct slot hslot
  unfold Store.coalesce at hc
  split at hc
  · -- the parked successor
    next successor hs =>
    cases hc
    have hparked (k : RunId) (hk : slot.value.successor = some k) : st.Parked k :=
      h.parked k (by rw [Store.successor, hslot, Option.bind_some, hk])
    exact ⟨h.writeSlot hslot hparked hdistinct, (hparked successor hs).awaits⟩
  · next hs =>
    split at hc
    · next activeId active hactive =>
      obtain ⟨hid, hrow, hlive⟩ := liveActive_spec hactive
      split at hc
      · -- the active run, of which nothing has begun
        next hattempts =>
        simp only [ok_iffs] at hc
        obtain ⟨_, -, rfl, rfl⟩ := hc
        have hstored := h.stored activeId active hrow
        have hnone : st.successor ≠ some activeId := by simp [Store.successor, hslot, hs]
        have h₁ := h.writeRun hrow hstored fun hk => absurd hk hnone
        have hsucc (k : RunId) : slot.value.successor ≠ some k := by simp [hs]
        refine ⟨h₁.writeSlot hslot (fun k hk => absurd hk (hsucc k)) fun k _ => hsucc k,
          _, setRun_runs_self .., hlive, fun i hi => ?_⟩
        rw [hstored.activities] at hattempts
        simpa using all_eq_true.1 hattempts i.state (mem_map_of_mem hi)
      · -- a new run, parked
        simp only [ok_iffs] at hc
        obtain ⟨generation, -, st₁, hi, rfl, rfl⟩ := hc
        have h₁ := h.insertRun hi hj.parked
        obtain ⟨hnone, rfl⟩ := insertRun_spec hi
        have hparked : (st.setRun id ⟨j.parked, 0⟩).Parked id := by
          refine ⟨⟨_, setRun_runs_self .., hun.live, hun.fresh⟩, fun generation hmem => ?_⟩
          have hsome := h.enqueued _ hmem
          rw [hnone] at hsome
          cases hsome
        refine ⟨h₁.writeSlot hslot (fun k hk => ?_) fun k hk hsame => ?_, hparked.awaits⟩
        · cases hk
          exact hparked
        · cases hsame
          rw [show slot.value.active = some id from hk] at hid
          cases hid
          rw [hnone] at hrow
          cases hrow
    · -- a new run, active at once
      simp only [ok_iffs] at hc
      obtain ⟨generation, -, st₁, hi, st₂, he, rfl, rfl⟩ := hc
      obtain ⟨h₂, hrow, hsame⟩ := h.insertEnqueue hi he hj
      have hsucc (k : RunId) : slot.value.successor ≠ some k := by simp [hs]
      refine ⟨h₂.writeSlot (hsame.trans hslot) (fun k hk => absurd hk (hsucc k)) fun k _ => hsucc k,
        awaits_of_eq hrow hun⟩

theorem Inv.startOnce (hj : j.Stored digest) (hun : j.Unstarted) (hnew : st.replay key = none)
    (hs : st.startOnce id j key = .ok (result, st')) :
    st'.Inv digest ∧ st'.Awaits result.runId := by
  have hremember {st₁ : Store} (h₁ : st₁.Inv digest ∧ st₁.Awaits result.runId) :
      (st₁.remember key result).Inv digest ∧ (st₁.remember key result).Awaits result.runId := by
    refine ⟨h₁.1.remember key result, ?_⟩
    cases key with
    | none => exact h₁.2
    | some key => exact h₁.2
  simp only [Store.startOnce, hnew] at hs
  split at hs
  all_goals
    simp only [ok_iffs, Prod.exists] at hs
    obtain ⟨_, st₁, hc, rfl, rfl⟩ := hs
  · exact hremember (h.coalesce ‹_› hj hun hc)
  · exact hremember (h.openSlot ‹_› hj hun hc)

/-! ### Promotions, workers and commands -/

theorem Inv.promote {load : ℕ} (hp : st.promote load now = .ok st') : st'.Inv digest := by
  unfold Store.promote at hp
  split at hp
  · cases hp
  · split at hp
    · cases hp
      exact h
    · split at hp
      · cases hp
        exact h
      · next k hk =>
        split at hp
        · next row slot hrow hslot =>
          simp only [ok_iffs] at hp
          obtain ⟨_, hrev, hp⟩ := hp
          have hnone (active : Option RunId) :
              ({ st with slot := some (slot.write
                { slot.value with active, successor := none }) } : Store).Inv digest :=
            h.writeSlot hslot (fun _ hk => by cases hk) fun _ _ hk => by cases hk
          split at hp
          · cases hp
            exact hnone none
          · have h₁ : (Store.writeRun _ k row (row.value.promoted now)).Inv digest :=
              (hnone (some k)).writeRun hrow ((h.stored k row hrow).promoted now)
                fun hk => by cases hk
            exact h₁.enqueue hp (by rw [Store.writeRun, setRun_runs_self]; rfl) fun hk =>
              by cases hk
        · cases hp

/-- A save writes what a call makes of the present row, and a parked run is not changed by it
unless a command hits it. -/
theorem Inv.save {load : ℕ} {c : JournalCall}
    (hcommand : c.isCommand → ∀ id row, st.runReads[load]? = some (id, row) →
      st.successor ≠ some id)
    (hs : st.save digest load c = .ok st') : st'.Inv digest := by
  unfold Store.save at hs
  split at hs
  · cases hs
  · next k loaded hload =>
    simp only [ok_iffs, Prod.exists] at hs
    obtain ⟨_, hdelivered, changed, j, hattempt, hs⟩ := hs
    split at hs
    · next hchanged =>
      split at hs
      · cases hs
      · next row hrow =>
        simp only [ok_iffs, not_not] at hs
        obtain ⟨_, hrev, hs⟩ := hs
        -- the revision is the one that was loaded, so the row is
        obtain ⟨row', hrow', hpast⟩ := h.runReads _ (mem_of_getElem? hload)
        obtain rfl : row' = row := Option.some.inj (hrow'.symm.trans hrow)
        obtain rfl := hpast.eq_of_revision hrev.symm
        have hnot : st.successor ≠ some k := by
          intro hk
          obtain ⟨⟨row', hrow', hun⟩, hfree⟩ := h.parked k hk
          obtain rfl : row' = _ := Option.some.inj (hrow'.symm.trans hrow)
          refine absurd hchanged (Bool.eq_false_iff.1 (Journal.attempt_of_fresh hun.fresh
            (fun hc => hcommand hc k _ hload hk) ?_ hattempt))
          rintro generation target now lease rfl
          simp [delivered, hfree generation] at hdelivered
        have hstored := (h.stored k _ hrow).call (Journal.attempt_call hattempt)
        have h₁ := h.writeRun hrow hstored fun hk => absurd hk hnot
        split at hs
        · exact h₁.enqueue hs (by rw [Store.writeRun, setRun_runs_self]; rfl) hnot
        · cases hs
          exact h₁
    · cases hs
      exact h

/-- No command hits a parked run; a start is not the replay of an earlier one, and its candidate has
something to do. -/
def Undisturbed (digest : ExecutionContract → String) (input : Value) (st : Store) :
    StoreEvent → Prop
  | .start _ contract now key => st.replay key = none ∧
      ∀ j, Journal.new digest contract input now = .ok j → ¬ j.run.status.isTerminal
  | .save load c => c.isCommand → ∀ id row, st.runReads[load]? = some (id, row) →
      st.successor ≠ some id
  | _ => True

theorem Inv.start (hok : Undisturbed digest input st (.start id contract now key))
    (hs : st.start digest input id contract now key = .ok (result, st')) :
    st'.Inv digest ∧ st'.Awaits result.runId := by
  simp only [Store.start, ok_iffs] at hs
  obtain ⟨j, hnew, hs⟩ := hs
  obtain ⟨hstored, hfresh⟩ := Journal.stored_new hnew
  exact h.startOnce hstored ⟨hok.2 j hnew, hfresh⟩ hok.1 hs

/-- **Every undisturbed transaction keeps the invariant.** -/
theorem Inv.step {e : StoreEvent} (hok : Undisturbed digest input st e)
    (hs : st.step digest input e = .ok st') : st'.Inv digest := by
  cases e with
  | start id contract now key =>
    obtain ⟨⟨result, _⟩, hstart, rfl⟩ := map_eq_ok_iff.1 hs
    exact (h.start hok hstart).1
  | loadRun id =>
    simp only [Store.step] at hs
    split at hs
    · cases hs
    · next row hrow =>
      cases hs
      exact { h with
        runReads := forall_mem_append.2 ⟨h.runReads, by simpa using ⟨row, hrow, .refl row⟩⟩ }
  | save load c => exact h.save hok hs
  | loadSlot =>
    simp only [Store.step] at hs
    split at hs
    · cases hs
    · next slot hslot =>
      cases hs
      exact { h with
        slotReads := forall_mem_append.2
          ⟨h.slotReads, by simpa using ⟨slot, hslot, .refl slot⟩⟩ }
  | promote load now => exact h.promote hs

/-- The slot names two runs at most once each, and no attempt of the parked one has begun. -/
structure SlotOk (st : Store) : Prop where
  distinct : ∀ slot, st.slot = some slot → ∀ id, slot.value.active = some id →
    slot.value.successor ≠ some id
  parked : ∀ slot, st.slot = some slot → ∀ id, slot.value.successor = some id → st.Awaits id

theorem Inv.slotOk : st.SlotOk where
  distinct := h.distinct
  parked slot hslot id hid := (h.parked id (by rw [successor, hslot, Option.bind_some, hid])).awaits

end

end Store

/-- **No accepted refresh is lost.**  In every history in which no command hits a parked run, no
start repeats an earlier one under its idempotency key and every candidate has something to do, a
start names a run that has not ended and of which no attempt has begun, and so is the parked run
throughout. -/
theorem no_accepted_refresh_is_lost {digest : ExecutionContract → String} {input : Value}
    {events : List StoreEvent} {st : Store}
    (hrun : Machine.run (Store.step digest input) Store.empty events = .ok st)
    (hall : Machine.AllSteps (Store.step digest input) (Store.Undisturbed digest input)
      Store.empty events) :
    st.SlotOk ∧ ∀ id contract now key result st',
      Store.Undisturbed digest input st (.start id contract now key) →
      st.start digest input id contract now key = .ok (result, st') →
      st'.Awaits result.runId := by
  have hinv : st.Inv digest :=
    Machine.run_guarded (fun _ _ _ hi hok hs => hi.step hok hs) hrun hall Store.inv_empty
  exact ⟨hinv.slotOk, fun _ _ _ _ _ _ hok hs => (hinv.start hok hs).2⟩

/-- A run is started and claimed, and a second start parks its run behind it. -/
def sampleParked : List StoreEvent :=
  [.start 1 (sampleContract true) 0 none, .loadRun 1, .save 0 (.claimTarget 0 none 0 10),
    .start 2 (sampleContract true) 1 none]

/-- What a start returns and the status of the run it names. -/
def namedRun (digest : ExecutionContract → String) (input : Value) (st : Store) (id : RunId)
    (contract : ExecutionContract) (now : ℤ) : Except StoreError (StartResult × Option RunStatus) :=
  (st.start digest input id contract now none).map fun (result, st') =>
    (result, (st'.runs result.runId).map (·.value.run.status))

theorem no_accepted_refresh_is_lost_sample :
    ∃ st, Machine.run (Store.step (·.name) (.scalar "order")) Store.empty sampleParked = .ok st ∧
      st.successor = some 2 ∧ st.SlotOk := by
  have hnew (now : ℤ) (hnow : ∃ j,
    Journal.new (·.name) (sampleContract true) (.scalar "order") now =
      .ok j ∧ j.run.status = .queued) (j : Journal)
      (hj : Journal.new (·.name) (sampleContract true) (.scalar "order") now = .ok j) :
      ¬ j.run.status.isTerminal := by
    obtain ⟨j', hj', hqueued⟩ := hnow
    cases hj'.symm.trans hj
    rw [hqueued]
    nofun
  refine exists_ok_of (by decide +kernel)
    fun st hst hsucc => ⟨hsucc, (no_accepted_refresh_is_lost hst ?_).1⟩
  refine ⟨⟨rfl, hnew 0 (by decide +kernel)⟩, fun _ _ => ⟨trivial, fun _ _ => ⟨nofun, fun _ _ =>
    ⟨⟨rfl, hnew 1 (by decide +kernel)⟩, fun _ _ => trivial⟩⟩⟩⟩

/-- A run is cancelled while it is parked: the next start names it all the same.  When it is then
resumed, it is delivered and an attempt begins while the active run goes on. -/
theorem cancelled_successor_is_named :
    ((Machine.run (Store.step (·.name) (.scalar "order")) Store.empty (sampleParked ++
      [.loadRun 2, .save 1 (.requestCancelAt 0 2 none)])).bind fun st =>
        namedRun (·.name) (.scalar "order") st 3 (sampleContract true) 3) =
      .ok ({ runId := 2, requestedGeneration := 2, coalesced := true }, some .cancelled) ∧
    (Machine.run (Store.step (·.name) (.scalar "order")) Store.empty (sampleParked ++
      [.loadRun 2, .save 1 (.requestCancelAt 0 2 none), .loadRun 2,
        .save 2 (.continueExecution 0 .cancelled (sampleContract true) 3), .loadRun 2,
        .save 3 (.claimTarget 1 none 4 10)])).map (fun st =>
          (st.successor, [1, 2].map fun id => (st.runs id).map (·.value.run.status))) =
      .ok (some 2, [some .running, some .running]) := by
  constructor <;> decide +kernel

end Gears.Durable
