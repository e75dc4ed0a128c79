import Gears.Quotas.Conservation

/-!
# Rows in their calendars

* `CounterRow.LocatedIn` : the row's window is one of its quota's calendar, read at a regular
  clock.
* `Store.Succeeded` : a settled row has a later row of its quota.
-/

namespace Gears.Quotas

open List

/-- The calendar of a quota's periods. -/
def calendarOf (quota : Quota) : PeriodType := quota.period.getD .oneTime

/-- The row's window is one of the quota's calendar; an allocation row has none. -/
def CounterRow.LocatedIn (row : CounterRow) (quota : Quota) : Prop :=
  match quota.quotaType with
  | .allocation => row.window = none
  | .consumption => ∃ t, (calendarOf quota).Regular t ∧ row.window = some (Store.windowOf quota t)

theorem PeriodWindow.start_lt_end {p : PeriodType} {t : ℤ} (h : p.Regular t) :
    (p.windowContaining t).start < (p.windowContaining t).end := h.2.1.trans_lt h.2.2

namespace CounterRow

variable {row row' : CounterRow} {quota : Quota} {now : ℤ}

/-- The row is of the current period or of a later one. -/
def CurrentOrLater (row : CounterRow) (now : ℤ) : Prop :=
  ∃ w, row.window = some w ∧ (w.Contains now ∨ now < w.start ∧ w.start < w.end)

theorem CurrentOrLater.not_elapsed (h : row.CurrentOrLater now) : ¬ row.HasElapsed now := by
  obtain ⟨w, hw, hc⟩ := h
  rintro ⟨w', hw', helapsed⟩
  rw [hw] at hw'
  cases hw'
  rcases hc with hc | hc
  · exact absurd hc.2 (not_lt.2 helapsed)
  · exact absurd (hc.1.trans hc.2) (not_lt.2 helapsed)

theorem start_of_window {w : PeriodWindow} (h : row.window = some w) : row.start = w.start := by
  rw [start, h]
  rfl

/-- A row that has elapsed starts before the current one and before later ones. -/
theorem start_lt_of_elapsed (hq : quota.quotaType = .consumption) (hr : row.LocatedIn quota)
    (hr' : row'.LocatedIn quota) (helapsed : row.HasElapsed now)
    (hcur : row'.CurrentOrLater now) : row.start < row'.start := by
  simp only [LocatedIn, hq] at hr hr'
  obtain ⟨t, ht, hw⟩ := hr
  obtain ⟨t', ht', hw'⟩ := hr'
  obtain ⟨w, hmem, hend⟩ := helapsed
  rw [hw] at hmem
  cases hmem
  obtain ⟨w', hmem', hc⟩ := hcur
  rw [hw'] at hmem'
  cases hmem'
  rw [start_of_window hw, start_of_window hw']
  have hlt := PeriodWindow.start_lt_end ht
  have hend : ((calendarOf quota).windowContaining t).end ≤ now := hend
  -- windows of one calendar are equal or apart, and an elapsed one does not contain `now`
  rcases hc with hc | hc
  · rcases PeriodType.eq_or_apart ht ht' with heq | hbefore | hafter
    · rw [heq] at hend
      exact absurd hc.2 (not_lt.2 hend)
    · exact hlt.trans_le hbefore
    · exact absurd (hc.2.trans_le (hafter.trans hlt.le)) (not_lt.2 hend)
  · exact hlt.trans (hend.trans_lt hc.1)

end CounterRow

namespace Store

variable {s s' : Store} {key : RowKey} {row : CounterRow} {now : ℤ} {quota : Quota}

/-- Every row lies in the calendar of its quota. -/
structure Placed (s : Store) : Prop where
  quotaIds : (s.quotas.map (·.id)).Nodup
  located : ∀ row ∈ s.rows, ∃ quota ∈ s.quotas, quota.id = row.quotaId ∧ row.LocatedIn quota

theorem Placed.locatedIn (h : s.Placed) (hrow : row ∈ s.rows) (hq : quota ∈ s.quotas)
    (hid : row.quotaId = quota.id) : row.LocatedIn quota := by
  obtain ⟨q, hq', hid', hloc⟩ := h.located row hrow
  have : q = quota := inj_on_of_nodup_map h.quotaIds hq' hq (hid'.trans hid)
  exact this ▸ hloc

theorem Placed.window_eq (h : s.Placed) (htype : quota.quotaType = .consumption)
    (hrow : row ∈ s.rows) (hq : quota ∈ s.quotas) (hid : row.quotaId = quota.id) :
    ∃ t, (calendarOf quota).Regular t ∧ row.window = some (windowOf quota t) := by
  have hloc := h.locatedIn hrow hq hid
  rwa [CounterRow.LocatedIn, htype] at hloc

/-- A later period row of the same quota is there. -/
def HasSuccessor (s : Store) (row : CounterRow) : Prop :=
  ∃ row' ∈ s.rows, row'.quotaId = row.quotaId ∧ row'.window.isSome ∧ row.start < row'.start

/-- Every settled row has a later row of its quota. -/
def Succeeded (s : Store) : Prop := ∀ row ∈ s.rows, row.settled = true → s.HasSuccessor row

/-- The same, but for elapsed rows of one quota, which a charge has just closed. -/
def SucceededBut (s : Store) (quota : Quota) (now : ℤ) : Prop :=
  ∀ row ∈ s.rows, row.settled = true →
    s.HasSuccessor row ∨ row.quotaId = quota.id ∧ row.HasElapsed now

theorem not_hasSuccessor_of_latest (h : s.findLatest quota.id = some row) :
    ¬ s.HasSuccessor row := by
  rintro ⟨row', hrow', hid, hw, hlt⟩
  exact absurd (start_le_latest hrow' (hid.trans (mem_of_findLatest h).2.1) hw h) (not_le.2 hlt)

theorem Placed.allocation_row (hp : s.Placed) (hq : quota ∈ s.quotas)
    (htype : quota.quotaType = .allocation) (hid : row.quotaId = quota.id) :
    ¬ s.HasSuccessor row ∧ (row ∈ s.rows → ∀ now, ¬ row.HasElapsed now) := by
  have hnone : ∀ row' ∈ s.rows, row'.quotaId = quota.id → row'.window = none := by
    intro row' hrow' hid'
    have hloc := hp.locatedIn hrow' hq hid'
    simpa only [CounterRow.LocatedIn, htype] using hloc
  constructor
  · rintro ⟨row', hrow', hid', hw, -⟩
    rw [hnone row' hrow' (hid'.trans hid)] at hw
    cases hw
  · rintro hrow now ⟨w, hw, -⟩
    rw [hnone row hrow hid] at hw
    cases hw

theorem Placed.allocation_open (hp : s.Placed) (hs : s.Succeeded) (hrow : row ∈ s.rows)
    (hw : row.window = none) : row.settled = false := by
  by_contra hset
  obtain ⟨quota, hq, hid, hloc⟩ := hp.located row hrow
  cases htype : quota.quotaType with
  | allocation =>
    exact (hp.allocation_row hq htype hid.symm).1 (hs row hrow (by simpa using hset))
  | consumption =>
    simp only [CounterRow.LocatedIn, htype] at hloc
    obtain ⟨t, -, hw'⟩ := hloc
    rw [hw] at hw'
    cases hw'

/-- An instant of the quota's own calendar. -/
def ReadsRegular (quota : Quota) (now : ℤ) : Prop :=
  quota.quotaType = .consumption → (calendarOf quota).Regular now

theorem locatedIn_newPeriod (htype : quota.quotaType = .consumption)
    (hreg : (calendarOf quota).Regular now) : (newPeriod quota now).LocatedIn quota := by
  simp only [CounterRow.LocatedIn, htype]
  exact ⟨now, hreg, rfl⟩

theorem newPeriod_current (hreg : (calendarOf quota).Regular now) :
    (newPeriod quota now).CurrentOrLater now := ⟨_, rfl, .inl hreg.2⟩

/-- When the current period's row is there but not the latest, the latest is of a later period. -/
theorem lost_later (hp : s.Placed) (hq : quota ∈ s.quotas)
    (htype : quota.quotaType = .consumption) (hreg : (calendarOf quota).Regular now)
    (hlatest : s.findLatest quota.id = some row) (hnot : ¬ row.Contains now)
    (hthere : (s.findRow (newPeriod quota now).key).isSome) : row.CurrentOrLater now := by
  obtain ⟨hrow, hid, hsome⟩ := mem_of_findLatest hlatest
  obtain ⟨cur, hcur⟩ := Option.isSome_iff_exists.1 hthere
  have hcurkey := key_of_findRow hcur
  have hcurid : cur.quotaId = quota.id := congrArg RowKey.quotaId hcurkey
  obtain ⟨t, ht, hw⟩ := hp.window_eq htype hrow hq hid
  obtain ⟨u, hu, hcurw⟩ := hp.window_eq htype (mem_of_findRow hcur) hq hcurid
  have hstart : (windowOf quota u).start = (windowOf quota now).start := by
    have := congrArg RowKey.period hcurkey
    simpa [CounterRow.key, hcurw, newPeriod] using this
  -- the row found by its start is the window of `now`
  have hsame : windowOf quota u = windowOf quota now := by
    rcases PeriodType.eq_or_apart hu hreg with heq | hbefore | hafter
    · exact heq
    · exact absurd (hbefore.trans_eq hstart.symm) (not_le.2 (PeriodWindow.start_lt_end hu))
    · exact absurd (hafter.trans_eq hstart) (not_le.2 (PeriodWindow.start_lt_end hreg))
  have hle := start_le_latest (mem_of_findRow hcur) hcurid (by simp [hcurw]) hlatest
  rw [CounterRow.start_of_window hcurw, CounterRow.start_of_window hw, hsame] at hle
  refine ⟨_, hw, .inr ⟨?_, PeriodWindow.start_lt_end ht⟩⟩
  rcases PeriodType.eq_or_apart hreg ht with heq | hbefore | hafter
  · exact absurd ⟨_, hw, by rw [windowOf, ← calendarOf, ← heq]; exact hreg.2⟩ hnot
  · exact hreg.2.2.trans_le hbefore
  · exact absurd (hafter.trans hle) (not_le.2 (PeriodWindow.start_lt_end ht))

theorem Placed.addRow (hp : s.Placed) (hq : quota ∈ s.quotas) (hid : row.quotaId = quota.id)
    (hloc : row.LocatedIn quota) : (s.addRow row).Placed := by
  refine ⟨hp.quotaIds, fun r hr => ?_⟩
  rcases List.mem_concat_iff.1 hr with hr | rfl
  · exact hp.located r hr
  · exact ⟨quota, hq, hid.symm, hloc⟩

theorem HasSuccessor.addRow (h : s.HasSuccessor row) (row' : CounterRow) :
    (s.addRow row').HasSuccessor row := by
  obtain ⟨r, hr, hrest⟩ := h
  exact ⟨r, mem_append_left _ hr, hrest⟩

/-- A row of the current period or of a later one succeeds every elapsed row of its quota. -/
theorem succeeded_of_current (hp : s.Placed) (hs : s.SucceededBut quota now)
    (hq : quota ∈ s.quotas) (htype : quota.quotaType = .consumption) (hrow : row ∈ s.rows)
    (hid : row.quotaId = quota.id) (hcur : row.CurrentOrLater now) : s.Succeeded := by
  intro r hr hset
  rcases hs r hr hset with hsucc | ⟨hrid, helapsed⟩
  · exact hsucc
  · obtain ⟨w, hw, -⟩ := id hcur
    refine ⟨row, hrow, hid.trans hrid.symm, by simp [hw], ?_⟩
    exact CounterRow.start_lt_of_elapsed htype (hp.locatedIn hr hq hrid) (hp.locatedIn hrow hq hid)
      helapsed hcur

theorem latest_charged (hp : s.Placed) (hs : s.SucceededBut quota now) (hq : quota ∈ s.quotas)
    (htype : quota.quotaType = .consumption) (hlatest : s.findLatest quota.id = some row)
    (hcur : row.CurrentOrLater now) :
    row.settled = false ∧ ¬ row.HasElapsed now ∧ s.Placed ∧ s.Succeeded := by
  obtain ⟨hrow, hid, -⟩ := mem_of_findLatest hlatest
  have hsucc := succeeded_of_current hp hs hq htype hrow hid hcur
  refine ⟨?_, hcur.not_elapsed, hp, hsucc⟩
  by_contra hset
  exact not_hasSuccessor_of_latest hlatest (hsucc row hrow (by simpa using hset))

/-- **A charge at a regular clock goes to an open row that has not elapsed**, and that row
succeeds whatever the charge has closed. -/
theorem charged_current (hp : s.Placed) (hs : s.SucceededBut quota now) (hq : quota ∈ s.quotas)
    (hreg : ReadsRegular quota now) (hc : Charged s quota now row s') :
    row.settled = false ∧ ¬ row.HasElapsed now ∧ s'.Placed ∧ s'.Succeeded := by
  cases hc with
  | allocation htype hfind =>
    have hid : row.quotaId = quota.id := congrArg RowKey.quotaId (key_of_findRow hfind)
    have hrow := mem_of_findRow hfind
    obtain ⟨hnosucc, hnot⟩ := hp.allocation_row hq htype hid
    have hsucc : s.Succeeded := by
      intro r hr hset
      rcases hs r hr hset with hsucc | ⟨hrid, helapsed⟩
      · exact hsucc
      · exact absurd helapsed ((hp.allocation_row hq htype hrid).2 hr now)
    refine ⟨?_, hnot hrow now, hp, hsucc⟩
    by_contra hset
    exact hnosucc (hsucc row hrow (by simpa using hset))
  | current htype hlatest hcontains =>
    obtain ⟨w, hw, hin⟩ := hcontains
    exact latest_charged hp hs hq htype hlatest ⟨w, hw, .inl hin⟩
  | lost htype hlatest hnot hthere =>
    exact latest_charged hp hs hq htype hlatest
      (lost_later hp hq htype (hreg htype) hlatest hnot hthere)
  | opened htype _ _ =>
    have hcur := newPeriod_current (hreg htype)
    have hp' : (s.addRow (newPeriod quota now)).Placed :=
      hp.addRow hq rfl (locatedIn_newPeriod htype (hreg htype))
    have hs' : (s.addRow (newPeriod quota now)).SucceededBut quota now := by
      intro r hr hset
      rcases List.mem_concat_iff.1 hr with hr | rfl
      · exact (hs r hr hset).imp_left fun hsucc => hsucc.addRow _
      · cases hset
    exact ⟨rfl, hcur.not_elapsed, hp', succeeded_of_current hp' hs' hq htype
      (mem_append_right _ (mem_singleton_self _)) rfl hcur⟩

/-! ### Outlines -/

/-- What counter movements leave alone about the rows. -/
def outlines (s : Store) : List (Uuid × Option PeriodWindow × Bool) :=
  s.rows.map fun row => (row.quotaId, row.window, row.settled)

theorem mem_outlines (ho : s'.outlines = s.outlines) (hrow : row ∈ s'.rows) :
    ∃ r ∈ s.rows, r.quotaId = row.quotaId ∧ r.window = row.window ∧ r.settled = row.settled := by
  have hmem : (row.quotaId, row.window, row.settled) ∈ s.outlines :=
    ho ▸ mem_map_of_mem hrow
  obtain ⟨r, hr, heq⟩ := mem_map.1 hmem
  simp only [Prod.mk.injEq] at heq
  exact ⟨r, hr, heq⟩

theorem outlines_writeCounter {value : ℕ} {marker : Option ℕ} :
    (s.writeCounter key value marker).outlines = s.outlines := by
  simp only [outlines, writeCounter, map_map]
  refine map_congr_left fun row _ => ?_
  simp only [Function.comp_apply]
  split <;> rfl

theorem Placed.of_outlines (hp : s.Placed) (ho : s'.outlines = s.outlines)
    (hq : s'.quotas = s.quotas) : s'.Placed := by
  refine ⟨hq ▸ hp.quotaIds, fun row hrow => ?_⟩
  obtain ⟨r, hr, hid, hw, -⟩ := mem_outlines ho hrow
  obtain ⟨quota, hquota, hqid, hloc⟩ := hp.located r hr
  refine ⟨quota, hq ▸ hquota, hqid.trans hid, ?_⟩
  simpa only [CounterRow.LocatedIn, hw] using hloc

theorem Succeeded.of_outlines (hs : s.Succeeded) (ho : s'.outlines = s.outlines) :
    s'.Succeeded := by
  intro row hrow hset
  obtain ⟨r, hr, hid, hw, hset'⟩ := mem_outlines ho hrow
  obtain ⟨next, hnext, hnid, hnw, hlt⟩ := hs r hr (hset'.trans hset)
  obtain ⟨n, hn, hid', hw', -⟩ := mem_outlines ho.symm hnext
  refine ⟨n, hn, ?_, by rw [hw']; exact hnw, ?_⟩
  · rw [hid', hnid, hid]
  · simpa only [CounterRow.start, hw, hw'] using hlt

/-- The row of a key is open and its period has not ended. -/
def Standing (s : Store) (now : ℤ) (key : RowKey) : Prop :=
  ∃ row ∈ s.rows, row.key = key ∧ row.settled = false ∧ ¬ row.HasElapsed now

theorem Standing.isOpen (h : s.Standing now key) : s.Open key := by
  obtain ⟨row, hrow, hkey, hset, -⟩ := h
  exact ⟨row, hrow, hkey, hset⟩

theorem Standing.of_outlines (h : s.Standing now key) (ho : s'.outlines = s.outlines) :
    s'.Standing now key := by
  obtain ⟨row, hrow, hkey, hset, hnot⟩ := h
  obtain ⟨r, hr, hid, hw, hset'⟩ := mem_outlines ho.symm hrow
  refine ⟨r, hr, ?_, hset'.trans hset, ?_⟩
  · simpa only [CounterRow.key, hid, hw] using hkey
  · simpa only [CounterRow.HasElapsed, hw] using hnot

theorem open_of_outlines (h : s.Open key) (ho : s'.outlines = s.outlines) : s'.Open key := by
  obtain ⟨row, hrow, hkey, hset⟩ := h
  obtain ⟨r, hr, hid, hw, hset'⟩ := mem_outlines ho.symm hrow
  refine ⟨r, hr, ?_, hset'.trans hset⟩
  simpa only [CounterRow.key, hid, hw] using hkey

end Store

end Gears.Quotas
