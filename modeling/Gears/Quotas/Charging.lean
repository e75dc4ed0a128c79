import Gears.Quotas.Balance

/-!
# Transactions that charge

* `Balanced.settleElapsedRows` : closing the elapsed rows of a quota keeps the balance.
* `Charging` : the state of a transaction that charges plans at one clock.
* `Charging.chargePlan` : a plan keeps it, when the clock is regular for the quotas it names.
* `Charging.insertLease` : the holds of a new lease take up what was charged.
-/

namespace Gears.Quotas.Store

open List

variable {missing : Uuid → StorageError} {before : List AppliedEntry} {settles : Quota → Bool}
  {quotas : List Quota}
  {s s' : Store} {key : RowKey} {row : CounterRow} {now : ℤ} {pend : RowKey → ℤ}
  {quota : Quota}

theorem Placed.settleRow (hp : s.Placed) : (settleRow quota now s row).Placed := by
  have hl : Later s (Store.settleRow quota now s row) := Later.settleRow
  refine ⟨hl.quotas ▸ hp.quotaIds, fun r hr => ?_⟩
  rw [hl.quotas]
  rcases mem_settleRow hr with hr | ⟨r₀, hr₀, -, rfl⟩
  · exact hp.located r hr
  · exact hp.located r₀ hr₀

theorem HasSuccessor.settleRow {r : CounterRow} (h : s.HasSuccessor r) :
    (settleRow quota now s row).HasSuccessor r := by
  obtain ⟨next, hnext, hid, hw, hlt⟩ := h
  unfold Store.settleRow
  split
  · exact ⟨next, hnext, hid, hw, hlt⟩
  · refine ⟨closed row.key next, mem_map_of_mem hnext, ?_⟩
    unfold closed
    split <;> exact ⟨hid, hw, hlt⟩

theorem SucceededBut.settleRow (hk : s.Keyed) (hs : s.SucceededBut quota now)
    (hrow : s.Due quota now row) : (settleRow quota now s row).SucceededBut quota now := by
  intro r hr hset
  rcases mem_settleRow hr with hr | ⟨r₀, hr₀, hkey, rfl⟩
  · exact (hs r hr hset).imp_left fun hsucc => hsucc.settleRow
  · have : r₀ = row := inj_on_of_nodup_map hk.rowKeys hr₀ hrow.mem hkey
    subst this
    exact .inr ⟨hrow.quotaId, hrow.elapsed⟩

theorem KeepsSettled.settleRow : KeepsSettled s (settleRow quota now s row) := by
  unfold Store.settleRow
  split
  · exact KeepsSettled.refl s
  · exact KeepsSettled.stampHolds.trans KeepsSettled.closeRow

theorem Standing.settleRow (hk : s.Keyed) (hrow : s.Due quota now row)
    (h : s.Standing now key) : (settleRow quota now s row).Standing now key := by
  obtain ⟨r, hr, hkey, hset, hnot⟩ := h
  refine ⟨r, mem_settleRow_of_ne hr fun heq => hnot ?_, hkey, hset, hnot⟩
  have : r = row := inj_on_of_nodup_map hk.rowKeys hr hrow.mem heq
  exact this ▸ hrow.elapsed

/-- **Closing the elapsed rows of a quota** keeps the balance, if the open transaction moved none
of them. -/
theorem Balanced.settleElapsedRows (h : s.Balanced pend) (hp : s.Placed) (hs : s.Succeeded)
    (quota : Quota) (hpend : ∀ row ∈ s.rows, row.HasElapsed now → pend row.key = 0) :
    (s.settleElapsedRows quota now).Balanced pend ∧ (s.settleElapsedRows quota now).Placed ∧
      (s.settleElapsedRows quota now).SucceededBut quota now ∧
      KeepsSettled s (s.settleElapsedRows quota now) ∧
      ∀ k, s.Standing now k → (s.settleElapsedRows quota now).Standing now k := by
  have hrun :=
    settleElapsedRows_induction quota now h.keyed (P := fun s₁ => s₁.Balanced pend ∧ s₁.Placed ∧
      s₁.SucceededBut quota now ∧ KeepsSettled s s₁ ∧
      (∀ k, s.Standing now k → s₁.Standing now k) ∧
      ∀ row ∈ s₁.rows, row.HasElapsed now → pend row.key = 0)
    ⟨h, hp, fun row hrow hset => .inl (hs row hrow hset), KeepsSettled.refl s, fun _ hk => hk,
      hpend⟩
    ?_
  · obtain ⟨hbal, hp, hs, hkeep, hstand, -⟩ := hrun
    exact ⟨hbal, hp, hs, hkeep, hstand⟩
  · rintro s₁ row ⟨hbal, hp, hs, hkeep, hstand, hpend⟩ hrow
    refine ⟨hbal.settleRow quota hrow.mem hrow.unsettled (hpend row hrow.mem hrow.elapsed),
      hp.settleRow, hs.settleRow hbal.keyed hrow, hkeep.trans KeepsSettled.settleRow,
      fun k hk => (hstand k hk).settleRow hbal.keyed hrow, fun r hr helapsed => ?_⟩
    rcases mem_settleRow hr with hr | ⟨r₀, hr₀, -, rfl⟩
    · exact hpend r hr helapsed
    · exact hpend r₀ hr₀ helapsed

/-- **The state of a transaction that charges at `now`**: `entries` are the movements it has made
since `s₀`. -/
structure Charging (s₀ : Store) (now : ℤ) (entries : List AppliedEntry) (s : Store) : Prop where
  balanced : s.Balanced fun key => entriesOn entries key
  standing : ∀ entry ∈ entries, s.Standing now entry.key
  placed : s.Placed
  succeeded : s.Succeeded
  keeps : KeepsSettled s₀ s
  later : Later s₀ s

namespace Charging

variable {s₀ : Store} {entries : List AppliedEntry}

theorem entriesOn_elapsed (h : Charging s₀ now entries s) (hrow : row ∈ s.rows)
    (helapsed : row.HasElapsed now) : (entriesOn entries row.key : ℤ) = 0 := by
  rw [entriesOn, List.tally_eq_zero, Nat.cast_zero]
  intro entry hentry hkey
  obtain ⟨r, hr, hrkey, -, hnot⟩ := h.standing entry hentry
  have : r = row := inj_on_of_nodup_map h.balanced.keyed.rowKeys hr hrow
    (hrkey.trans (by simpa using hkey))
  exact absurd (this ▸ helapsed) hnot

/-- The row a charge went to stands, and it succeeds what was closed before. -/
theorem debitCounter {amount : ℕ} {entry : AppliedEntry} {crossing : Option ThresholdCrossing}
    (hbal : s.Balanced pend) (hp : s.Placed) (hs : s.SucceededBut quota now)
    (hq : quota ∈ s.quotas) (hreg : ReadsRegular quota now)
    (h : s.debitCounter quota amount now = .ok (entry, crossing, s')) :
    s'.Balanced (pend + Pi.single entry.key (entry.amount : ℤ)) ∧ s'.Placed ∧ s'.Succeeded ∧
      KeepsSettled s s' ∧ s'.Standing now entry.key ∧
      ∀ k, s.Standing now k → s'.Standing now k := by
  obtain ⟨hbal', hkeep⟩ := hbal.debitCounter
    (fun row s₁ hcharged => (charged_current hp hs hq hreg hcharged).1) h
  obtain ⟨row, s₁, marker, hcharged, rfl, rfl⟩ := debitCounter_eq_ok h
  obtain ⟨hset, hnot, hp₁, hs₁⟩ := charged_current hp hs hq hreg hcharged
  have ho : ((s₁.returnExpiredHolds row.key now).2.writeCounter row.key
      (row.value - s₁.unreturnedExpired row.key now + amount) marker).outlines = s₁.outlines :=
    outlines_writeCounter
  refine ⟨hbal', hp₁.of_outlines ho rfl, hs₁.of_outlines ho, hkeep, ?_, fun k hk => ?_⟩
  · have hstand : s₁.Standing now row.key := ⟨row, hcharged.mem, rfl, hset, hnot⟩
    exact hstand.of_outlines ho
  -- finding the row of the charge adds a row at most
  · have hstand : s₁.Standing now k := by
      obtain ⟨r, hr, hrest⟩ := hk
      cases hcharged with
      | opened _ _ _ => exact ⟨r, mem_append_left _ hr, hrest⟩
      | _ => exact ⟨r, hr, hrest⟩
    exact hstand.of_outlines ho

theorem chargeEntry {done done' : List AppliedEntry × Store} {planned : Uuid × ℕ}
    (h : Charging s₀ now (before ++ done.1) done.2)
    (hquotas : ∀ quota ∈ quotas, quota ∈ s₀.quotas ∧ ReadsRegular quota now)
    (hentry : chargeEntry settles missing quotas now done planned = .ok done') :
    Charging s₀ now (before ++ done'.1) done'.2 := by
  have hlater := h.later.trans (Later.chargeEntry hentry)
  obtain ⟨quota, hquota, -, entry, crossing, s', hdebit, rfl⟩ := chargeEntry_eq_ok hentry
  obtain ⟨hq, hreg⟩ := hquotas quota hquota
  -- elapsed rows are closed first, unless the accounting model of the quota has none
  obtain ⟨s₁, hs₁⟩ : ∃ s₁, s₁ = if settles quota then done.2.settleElapsedRows quota now
      else done.2 := ⟨_, rfl⟩
  rw [← hs₁] at hdebit
  have hsettled : s₁.Balanced (fun key => entriesOn (before ++ done.1) key) ∧ s₁.Placed ∧
      s₁.SucceededBut quota now ∧ KeepsSettled done.2 s₁ ∧
      (∀ k, done.2.Standing now k → s₁.Standing now k) ∧ s₁.quotas = done.2.quotas := by
    split at hs₁
    · subst hs₁
      obtain ⟨hbal, hp, hs, hkeep, hstand⟩ :=
        h.balanced.settleElapsedRows h.placed h.succeeded quota
          fun row hrow helapsed => h.entriesOn_elapsed hrow helapsed
      exact ⟨hbal, hp, hs, hkeep, hstand, Later.settleElapsedRows.quotas⟩
    · subst hs₁
      exact ⟨h.balanced, h.placed, fun row hrow hset => .inl (h.succeeded row hrow hset),
        KeepsSettled.refl _, fun _ hk => hk, rfl⟩
  obtain ⟨hbal, hp, hs, hkeep, hstand, hquotas₁⟩ := hsettled
  have hq₁ : quota ∈ s₁.quotas := by rwa [hquotas₁, h.later.quotas]
  obtain ⟨hbal', hp', hs', hkeep', hstand', hstands⟩ :=
    Charging.debitCounter hbal hp hs hq₁ hreg hdebit
  refine ⟨?_, ?_, hp', hs', (h.keeps.trans hkeep).trans hkeep', hlater⟩
  · have hpend : (fun key => (entriesOn (before ++ done.1) key : ℤ)) +
        Pi.single entry.key (entry.amount : ℤ) =
          fun key => (entriesOn (before ++ (done.1 ++ [entry])) key : ℤ) := by
      funext k
      rw [← append_assoc, entriesOn_append, Nat.cast_add, entriesOn_singleton]
      rfl
    exact hpend ▸ hbal'
  · intro e he
    rw [← append_assoc] at he
    rcases List.mem_concat_iff.1 he with he | rfl
    · exact hstands _ (hstand _ (h.standing e he))
    · exact hstand'

/-- **Charging a plan** at a clock that is regular for its quotas. -/
theorem chargePlan {plan : DebitPlan} (h : Charging s₀ now before s)
    (hquotas : ∀ quota ∈ quotas, quota ∈ s₀.quotas ∧ ReadsRegular quota now)
    (hplan : s.chargePlan settles missing quotas plan now = .ok (entries, s')) :
    Charging s₀ now (before ++ entries) s' :=
  Except.foldlM_invariant (I := fun done => Charging s₀ now (before ++ done.1) done.2)
    (fun _ _ _ _ hi hentry => hi.chargeEntry hquotas hentry) hplan (by simpa using h)

theorem applyItems {quotasOf : EvaluatedMutation → List Quota}
    {items : List (EvaluatedMutation × Decision)} (h : Charging s₀ now [] s)
    (hquotas : ∀ item ∈ items, ∀ quota ∈ quotasOf item.1,
      quota ∈ s₀.quotas ∧ ReadsRegular quota now)
    (hitems : items.foldlM (applyItem quotasOf now) ([], s) = .ok (entries, s')) :
    Charging s₀ now entries s' := by
  refine Except.foldlM_invariant (I := fun done => Charging s₀ now done.1 done.2) ?_ hitems h
  rintro done item hitem done' hi happly
  simp only [applyItem, Except.ok_iffs, Prod.exists] at happly
  obtain ⟨moved, s₂, hplan, rfl⟩ := happly
  exact hi.chargePlan (hquotas item hitem) hplan

/-- **The holds of a new lease take up what was charged for them.** -/
theorem insertLease {lease : Lease} (h : Charging s₀ now entries s)
    (hactive : lease.state = .active)
    (hids : (entries.map (·.key.quotaId)).Nodup)
    (hinsert : s.insertLease lease entries = .ok s') : s'.Balanced 0 := by
  have hused := used_insertLease hinsert
  have hkeyed := h.balanced.keyed.insertLease hids hinsert
  have htended := h.balanced.sheltered.2.insertLease hactive hinsert
  obtain ⟨-, rfl⟩ := insertLease_eq_ok hinsert
  have hbeyond : ∀ k, (entriesOn entries k : ℤ) ≤ s.used k := by
    intro k
    by_cases hk : (entriesOn entries k : ℤ) = 0
    · exact hk ▸ h.balanced.covered.2 k
    · have hopen := h.balanced.pendOpen k hk
      have := h.balanced.balance k (not_settled_of_open h.balanced.keyed hopen)
      omega
  refine ⟨⟨⟨hkeyed, fun k => ?_⟩, htended⟩, ?_, ?_, ?_, h.balanced.closing⟩
  · rw [hused]
    have := hbeyond k
    omega
  · intro k hk
    rw [hused, h.balanced.balance k hk]
    exact add_sub_cancel_right _ _ |>.trans (add_zero _).symm
  · intro hold hh hu
    rcases mem_append.1 hh with hh | hh
    · exact h.balanced.holdsOpen hold hh hu
    · obtain ⟨entry, hentry, rfl⟩ := mem_map.1 hh
      exact (h.standing entry hentry).isOpen
  · exact fun k hk => absurd rfl hk

end Charging

end Gears.Quotas.Store
