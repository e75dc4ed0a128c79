import Gears.Quotas.Drift

/-!
# What an evaluation sees

* `Store.ReadAt` : the row of a quota that an evaluation at `now` reads.
* `Store.Started` : no row lies in the future.
* `Store.snapshotOf_settleElapsedRows` : closing elapsed rows changes nothing an evaluation sees.
* `Store.charged_visible` : a charge starts from what the evaluation saw.
* `Store.snapshotOf_debitCounter` : after it, evaluations see the charge and nothing else.
-/

namespace Gears.Quotas.Store

open List

variable {s₁ : Store}
  {s s' : Store} {key : RowKey} {row : CounterRow} {now : ℤ} {quota : Quota}

/-- The row of a quota that is read at `now`. -/
def ReadAt (quota : Quota) (now : ℤ) (row : CounterRow) : Prop :=
  row.quotaId = quota.id ∧
    match quota.quotaType with
    | .allocation => row.window = none
    | .consumption => row.Contains now

/-- No row lies in the future of `now`. -/
def Started (s : Store) (now : ℤ) : Prop := ∀ row ∈ s.rows, ∀ w ∈ row.window, w.start ≤ now

theorem ReadAt.not_elapsed (h : ReadAt quota now row) : ¬ row.HasElapsed now := by
  rintro ⟨w, hw, helapsed⟩
  obtain ⟨-, h⟩ := h
  cases hq : quota.quotaType with
  | allocation =>
    simp only [hq] at h
    cases h.symm.trans hw
  | consumption =>
    simp only [hq] at h
    obtain ⟨w', hw', hc⟩ := h
    cases hw.symm.trans hw'
    exact absurd hc.2 (not_lt.2 helapsed)

/-- What makes the current rows of a store the rows of their calendars. -/
structure Legible (s : Store) (now : ℤ) : Prop where
  keyed : s.Keyed
  placed : s.Placed
  started : s.Started now

/-- **The current row is the one that the calendar puts `now` in**, when no row lies in the
future. -/
theorem currentRow_eq_some_iff (h : s.Legible now) (hq : quota ∈ s.quotas) :
    s.currentRow quota now = some row ↔ row ∈ s.rows ∧ ReadAt quota now row := by
  unfold currentRow ReadAt
  cases htype : quota.quotaType with
  | allocation =>
    constructor
    · intro hfind
      have hkey := key_of_findRow hfind
      refine ⟨mem_of_findRow hfind, congrArg RowKey.quotaId hkey, ?_⟩
      simpa [CounterRow.key] using congrArg RowKey.period hkey
    · rintro ⟨hrow, hid, hw⟩
      have hkey : row.key = ⟨quota.id, none⟩ := by simp [CounterRow.key, hid, hw]
      exact hkey ▸ findRow_of_mem h.keyed hrow
  | consumption =>
    simp only [Option.filter_eq_some_iff, decide_eq_true_eq]
    constructor
    · rintro ⟨hlatest, hc⟩
      obtain ⟨hrow, hid, -⟩ := mem_of_findLatest hlatest
      exact ⟨hrow, hid, hc⟩
    · rintro ⟨hrow, hid, hc⟩
      refine ⟨?_, hc⟩
      obtain ⟨w, hw, hin⟩ := hc
      have hsome : row.window.isSome := by simp [Option.mem_def.1 hw]
      obtain ⟨latest, hlatest⟩ : ∃ latest, s.findLatest quota.id = some latest := by
        refine Option.ne_none_iff_exists'.1 fun hl => ?_
        rw [findLatest, argmax_eq_none, periodRows, filter_eq_nil_iff] at hl
        exact hl row hrow (by simpa using ⟨hid, hsome⟩)
      rw [hlatest]
      obtain ⟨hlrow, hlid, -⟩ := mem_of_findLatest hlatest
      have hle := start_le_latest hrow hid hsome hlatest
      obtain ⟨t, ht, hwt⟩ := h.placed.window_eq htype hrow hq hid
      obtain ⟨u, hu, hlw⟩ := h.placed.window_eq htype hlrow hq hlid
      have hlstart := h.started latest hlrow _ hlw
      cases hwt.symm.trans hw
      rw [CounterRow.start_of_window hwt, CounterRow.start_of_window hlw] at hle
      -- the latest row starts by now and not before the row of now, so the two are one
      have hsame : windowOf quota u = windowOf quota t := by
        rcases PeriodType.eq_or_apart hu ht with heq | hbefore | hafter
        · exact heq
        · exact absurd (hbefore.trans hle) (not_le.2 (PeriodWindow.start_lt_end hu))
        · exact absurd (hafter.trans hlstart) (not_le.2 hin.2)
      congr 1
      refine inj_on_of_nodup_map h.keyed.rowKeys hlrow hrow ?_
      simp only [CounterRow.key, hlid, hid, hlw, hwt, hsame]

section Stamps

variable {select : Hold → Prop} [DecidablePred select]

theorem unreturnedExpired_stampHolds {at' : ℤ} :
    (s.stampHolds select at').unreturnedExpired key now = s.holds.tally
      (fun hold => (hold.key = key ∧ hold.Unreturned ∧ s.ExpiredHold now hold) ∧ ¬ select hold)
      (·.heldAmount) := by
  have h : (s.stampHolds select at').unreturnedExpired key now =
      (s.stampHolds select at').holds.tally
        (fun hold => hold.key = key ∧ hold.Unreturned ∧ s.ExpiredHold now hold)
        (·.heldAmount) := rfl
  rw [h, holds_stampHolds, tally_map]
  refine tally_congr (fun hold _ => ?_) fun hold _ _ => stamped_heldAmount hold
  have hexpired : s.ExpiredHold now (stamped select at' hold) ↔ s.ExpiredHold now hold := by
    simp only [ExpiredHold, stamped_leaseToken]
  rw [Bool.eq_iff_iff]
  simp only [decide_eq_true_eq, stamped_key, unreturned_stamped_iff]
  tauto

theorem unreturnedExpired_of_unselected {at' : ℤ} (h : ∀ hold, hold.key = key → ¬ select hold) :
    (s.stampHolds select at').unreturnedExpired key now = s.unreturnedExpired key now := by
  rw [unreturnedExpired_stampHolds]
  refine tally_congr (fun hold _ => ?_) fun _ _ _ => rfl
  rw [Bool.eq_iff_iff]
  simp only [decide_eq_true_eq]
  exact ⟨And.left, fun hold' => ⟨hold', h hold hold'.1⟩⟩

end Stamps

theorem unreturnedExpired_returned :
    (s.returnExpiredHolds key now).2.unreturnedExpired key now = 0 := by
  rw [returnExpiredHolds, unreturnedExpired_stampHolds]
  refine tally_eq_zero fun hold _ h => ?_
  simp only [decide_eq_true_eq] at h
  exact absurd ⟨h.1.1, h.1.2.2⟩ h.2

theorem unreturnedExpired_settleRow {elapsed : CounterRow} (h : key ≠ elapsed.key) :
    (settleRow quota now s elapsed).unreturnedExpired key now = s.unreturnedExpired key now := by
  unfold settleRow
  split
  · rfl
  · have hreturned : (s.returnExpiredHolds elapsed.key now).2.unreturnedExpired key now =
        s.unreturnedExpired key now :=
      unreturnedExpired_of_unselected fun hold hkey hsel => h (hkey.symm.trans hsel.1)
    exact hreturned

theorem consumed_of_read (h : s.Legible now) (hq : quota ∈ s.quotas) (hrow : row ∈ s.rows)
    (hread : ReadAt quota now row) :
    (s.snapshotOf now quota).consumed = row.value - s.unreturnedExpired row.key now := by
  have hcurrent : s.currentRow quota now = some row :=
    (currentRow_eq_some_iff h hq).2 ⟨hrow, hread⟩
  have hkey : (⟨quota.id, row.key.period⟩ : RowKey) = row.key := by rw [← hread.1]; rfl
  simp only [snapshotOf, hcurrent, Option.map_some, Option.getD_some, Option.bind_some, hkey]

theorem consumed_of_none (h : s.currentRow quota now = none) :
    (s.snapshotOf now quota).consumed = 0 := by
  simp [snapshotOf, h]

section

variable (h : s.Legible now)
include h

/-- An evaluation sees the same while the row it reads and its expired holds are the same. -/
theorem snapshotOf_congr (h' : s'.Legible now) (hq : quota ∈ s.quotas) (hq' : quota ∈ s'.quotas)
    (hrows : ∀ row, ReadAt quota now row → (row ∈ s'.rows ↔ row ∈ s.rows))
    (hexpired : ∀ row ∈ s.rows, ReadAt quota now row →
      s'.unreturnedExpired row.key now = s.unreturnedExpired row.key now) :
    s'.snapshotOf now quota = s.snapshotOf now quota := by
  have hcurrent : s'.currentRow quota now = s.currentRow quota now := by
    refine Option.ext fun row => ?_
    rw [currentRow_eq_some_iff h hq, currentRow_eq_some_iff h' hq']
    exact ⟨fun hrow => ⟨(hrows row hrow.2).1 hrow.1, hrow.2⟩,
      fun hrow => ⟨(hrows row hrow.2).2 hrow.1, hrow.2⟩⟩
  have hconsumed : (s'.snapshotOf now quota).consumed = (s.snapshotOf now quota).consumed := by
    cases hrow : s.currentRow quota now with
    | none => rw [consumed_of_none hrow, consumed_of_none (hcurrent.trans hrow)]
    | some row =>
      obtain ⟨hmem, hread⟩ := (currentRow_eq_some_iff h hq).1 hrow
      rw [consumed_of_read h hq hmem hread,
        consumed_of_read h' hq' ((hrows row hread).2 hmem) hread, hexpired row hmem hread]
  exact congrArg (fun consumed => (⟨quota.id, quota.subject, quota.quotaType, quota.cap, consumed,
    quota.validityWindow⟩ : QuotaSnapshot)) hconsumed

theorem Legible.settleRow : (settleRow quota now s row).Legible now := by
  refine ⟨?_, h.placed.settleRow, fun r hr w hw => ?_⟩
  · obtain ⟨owed, -, hk⟩ := used_settleRow h.keyed quota now row
    exact hk
  · rcases mem_settleRow hr with hr | ⟨r₀, hr₀, -, rfl⟩
    · exact h.started r hr w hw
    · exact h.started r₀ hr₀ w hw

theorem snapshotOf_settleRow {quota' : Quota} (hq : quota ∈ s.quotas) (hrow : row ∈ s.rows)
    (helapsed : row.HasElapsed now) :
    (settleRow quota' now s row).snapshotOf now quota = s.snapshotOf now quota := by
  have hne : ∀ r, ReadAt quota now r → r ∈ s.rows → r.key ≠ row.key := by
    intro r hread hr heq
    have : r = row := inj_on_of_nodup_map h.keyed.rowKeys hr hrow heq
    exact hread.not_elapsed (this ▸ helapsed)
  have hquotas : (settleRow quota' now s row).quotas = s.quotas := Later.settleRow.quotas
  refine snapshotOf_congr h h.settleRow hq (hquotas ▸ hq) (fun r hread =>
    ⟨fun hr => ?_, fun hr => ?_⟩)
    fun r hr hread => unreturnedExpired_settleRow (hne r hread hr)
  · rcases mem_settleRow hr with hr | ⟨r₀, hr₀, hkey, rfl⟩
    · exact hr
    · have : r₀ = row := inj_on_of_nodup_map h.keyed.rowKeys hr₀ hrow hkey
      subst this
      exact absurd helapsed hread.not_elapsed
  · exact mem_settleRow_of_ne hr (hne r hread hr)

/-- **Closing the elapsed rows of a quota changes nothing that an evaluation sees.** -/
theorem snapshotOf_settleElapsedRows {quota' : Quota} :
    (s.settleElapsedRows quota' now).Legible now ∧ ∀ quota ∈ s.quotas,
      (s.settleElapsedRows quota' now).snapshotOf now quota = s.snapshotOf now quota := by
  have hrun := settleElapsedRows_induction quota' now h.keyed (P := fun s₁ =>
      s₁.Legible now ∧ s₁.quotas = s.quotas ∧
        ∀ quota ∈ s.quotas, s₁.snapshotOf now quota = s.snapshotOf now quota)
    ⟨h, rfl, fun _ _ => rfl⟩ ?_
  · exact ⟨hrun.1, hrun.2.2⟩
  · rintro s₁ row ⟨h₁, hquotas, hsame⟩ hrow
    refine ⟨h₁.settleRow, Later.settleRow.quotas.trans hquotas, fun quota hq => ?_⟩
    exact (snapshotOf_settleRow h₁ (hquotas ▸ hq) hrow.mem hrow.elapsed).trans (hsame quota hq)

theorem Charged.readAt (hq : quota ∈ s.quotas) (hreg : ReadsRegular quota now)
    (hc : Charged s quota now row s₁) : ReadAt quota now row ∧ (s.snapshotOf now quota).consumed =
      row.value - s₁.unreturnedExpired row.key now ∧ s₁.Legible now := by
  have hthere (hrow : row ∈ s.rows) (hread : ReadAt quota now row) :
      ReadAt quota now row ∧ (s.snapshotOf now quota).consumed =
        row.value - s.unreturnedExpired row.key now ∧ s.Legible now :=
    ⟨hread, consumed_of_read h hq hrow hread, h⟩
  have hid := hc.quotaId_eq
  cases hc with
  | opened htype hnone hfresh =>
    have hread : ReadAt quota now (newPeriod quota now) := by
      refine ⟨rfl, ?_⟩
      simp only [htype]
      exact ⟨_, rfl, (hreg htype).2⟩
    have hcurrent : s.currentRow quota now = none := by
      simp only [currentRow, htype, Option.filter_eq_none_iff, decide_eq_true_eq]
      exact hnone
    refine ⟨hread, ?_, h.keyed.addRow hfresh,
      h.placed.addRow hq rfl (locatedIn_newPeriod htype (hreg htype)), fun r hr w hw => ?_⟩
    · rw [consumed_of_none hcurrent]
      exact (Nat.zero_sub _).symm
    · rcases mem_concat_iff.1 hr with hr | rfl
      · exact h.started r hr w hw
      · cases hw
        exact (hreg htype).2.1
  | allocation htype hfind =>
    refine hthere (mem_of_findRow hfind) ⟨hid, ?_⟩
    simp only [htype]
    simpa [CounterRow.key] using congrArg RowKey.period (key_of_findRow hfind)
  | current htype hlatest hcontains =>
    refine hthere (mem_of_findLatest hlatest).1 ⟨hid, ?_⟩
    simp only [htype]
    exact hcontains
  | lost htype hlatest hnot hlost =>
    -- no row is later than now, so the race for a new row cannot be lost
    obtain ⟨w, hw, hin | hafter⟩ := lost_later h.placed hq htype (hreg htype) hlatest hnot hlost
    · exact absurd ⟨w, hw, hin⟩ hnot
    · have := h.started row (mem_of_findLatest hlatest).1 w hw
      omega

end

theorem Charged.mem_iff_of_ne {r : CounterRow} (hc : Charged s quota now row s₁)
    (hne : r.key ≠ row.key) : r ∈ s₁.rows ↔ r ∈ s.rows := by
  cases hc with
  | opened _ _ _ =>
    refine ⟨fun hr => ?_, mem_append_left _⟩
    rcases mem_append.1 hr with hr | hr
    · exact hr
    · exact absurd (congrArg CounterRow.key (mem_singleton.1 hr)) hne
  | _ => exact Iff.rfl

theorem Charged.unreturnedExpired_eq (hc : Charged s quota now row s₁) (k : RowKey) :
    s₁.unreturnedExpired k now = s.unreturnedExpired k now := by
  cases hc <;> rfl

theorem Legible.writeCounter (h : s.Legible now) {value : ℕ} {marker : Option ℕ} :
    ((s.returnExpiredHolds key now).2.writeCounter key value marker).Legible now := by
  have ho : ((s.returnExpiredHolds key now).2.writeCounter key value marker).outlines =
    s.outlines := outlines_writeCounter
  refine ⟨h.keyed.stampHolds.writeCounter _ _, h.placed.of_outlines ho rfl, fun r hr w hw => ?_⟩
  obtain ⟨r₀, hr₀, -, hwin, -⟩ := mem_outlines ho hr
  exact h.started r₀ hr₀ w (hwin ▸ hw)

section Written

variable {value : ℕ} {marker : Option ℕ}

theorem consumed_writeCounter (h : s.Legible now) (hq : quota ∈ s.quotas) (hrow : row ∈ s.rows)
    (hread : ReadAt quota now row) :
    (((s.returnExpiredHolds row.key now).2.writeCounter row.key value marker).snapshotOf now
      quota).consumed = value := by
  have hmem : ({ row with value, marker } : CounterRow) ∈
      ((s.returnExpiredHolds row.key now).2.writeCounter row.key value marker).rows :=
    mem_map.2 ⟨row, hrow, if_pos rfl⟩
  rw [consumed_of_read h.writeCounter hq hmem hread]
  change value - (s.returnExpiredHolds row.key now).2.unreturnedExpired row.key now = value
  rw [unreturnedExpired_returned, Nat.sub_zero]

theorem snapshotOf_writeCounter_other (h : s.Legible now) (hq : quota ∈ s.quotas)
    (hother : quota.id ≠ row.quotaId) :
    ((s.returnExpiredHolds row.key now).2.writeCounter row.key value marker).snapshotOf now quota =
      s.snapshotOf now quota := by
  have hne : ∀ r, ReadAt quota now r → r.key ≠ row.key :=
    fun r hread heq => hother (hread.1.symm.trans (congrArg RowKey.quotaId heq))
  refine snapshotOf_congr h h.writeCounter hq hq (fun r hread => ⟨fun hr => ?_, fun hr => ?_⟩)
    fun r _ hread => ?_
  · obtain ⟨r₀, hr₀, rfl⟩ := mem_map.1 hr
    have hkey : r₀.key ≠ row.key := (rewritten_key value marker r₀).symm.trans_ne (hne _ hread)
    rwa [if_neg hkey]
  · exact mem_map.2 ⟨r, hr, if_neg (hne r hread)⟩
  · have hreturned : (s.returnExpiredHolds row.key now).2.unreturnedExpired r.key now =
        s.unreturnedExpired r.key now :=
      unreturnedExpired_of_unselected fun hold hkey hsel =>
        hne r hread (hkey.symm.trans hsel.1)
    exact hreturned

end Written

/-- **After a charge, evaluations see the charge and nothing else.** -/
theorem snapshotOf_debitCounter {amount : ℕ} {entry : AppliedEntry}
    {crossing : Option ThresholdCrossing} (h : s.Legible now) (hq : quota ∈ s.quotas)
    (hreg : ReadsRegular quota now)
    (hdebit : s.debitCounter quota amount now = .ok (entry, crossing, s')) :
    s'.Legible now ∧ ∀ q ∈ s.quotas, s'.snapshotOf now q = if q.id = quota.id then
        { s.snapshotOf now q with consumed := (s.snapshotOf now q).consumed + amount }
      else s.snapshotOf now q := by
  obtain ⟨row, s₁, marker, hcharged, -, rfl⟩ := debitCounter_eq_ok hdebit
  obtain ⟨hread, hconsumed, h₁⟩ := hcharged.readAt h hq hreg
  have hquotas : s₁.quotas = s.quotas := (Later.charged hcharged).quotas
  refine ⟨h₁.writeCounter, fun q hq' => ?_⟩
  have hq₁ : q ∈ s₁.quotas := hquotas ▸ hq'
  split
  · rename_i hsame
    have : q = quota := inj_on_of_nodup_map h.placed.quotaIds hq' hq hsame
    subst this
    rw [hconsumed]
    exact congrArg (fun consumed => (⟨q.id, q.subject, q.quotaType, q.cap, consumed,
      q.validityWindow⟩ : QuotaSnapshot)) (consumed_writeCounter h₁ hq₁ hcharged.mem hread)
  · rename_i hother
    rw [snapshotOf_writeCounter_other h₁ hq₁ (hcharged.quotaId_eq ▸ hother)]
    refine snapshotOf_congr h h₁ hq' hq₁ (fun r hr => hcharged.mem_iff_of_ne fun hkey => hother ?_)
      fun r _ _ => hcharged.unreturnedExpired_eq r.key
    exact hr.1.symm.trans ((congrArg RowKey.quotaId hkey).trans hcharged.quotaId_eq)

end Gears.Quotas.Store
