import Gears.Quotas.Caps

/-!
# Histories of committed transactions

* `Event.clock`, `Event.MostRestrictiveWins` : what a transaction reads and how it evaluates.
* `counters_never_drift` : counters over whole histories.
* `settled_row_moves` : the end of the calendar, where a charge lands on a settled row.
-/

namespace Gears.Quotas

open Except List

variable {events : List Event} {state : LeaseState}

namespace Event

/-- The clock a transaction read; creating a quota reads none. -/
def clock : Event → Option ℤ
  | .createQuota _ => none
  | .debit _ now => some now
  | .batchDebit _ _ _ now => some now
  | .acquireLease _ _ _ _ now => some now
  | .settleLease _ _ _ _ _ _ now => some now
  | .reclaimExpiredLeases _ before => some before
  | .deactivateQuota _ now => some now
  | .updateQuota _ _ now => some now
  | .rollback _ _ _ _ now => some now
  | .credit _ _ _ _ _ _ _ now => some now

/-- Every evaluation of the transaction uses the most-restrictive-wins engine. -/
def MostRestrictiveWins : Event → Prop
  | .debit m _ => m.MostRestrictiveWins
  | .batchDebit items _ _ _ => ∀ m ∈ items, m.MostRestrictiveWins
  | .acquireLease m _ _ _ _ => m.MostRestrictiveWins
  | _ => True

end Event

namespace Store

variable {s s' : Store} {now t : ℤ}

theorem Conserved.legible (h : s.Conserved) (hc : s.Capped now) : s.Legible now :=
  ⟨h.balanced.keyed, h.placed, hc.started⟩

section LastWrite

variable {write : IdempotencyWrite} {entries moves : List AppliedEntry} {attribution : Option ℕ}
  {expiresAt : ℤ}

theorem Lowered.writeRecord
    (hwrite : s.writeRecord write entries moves attribution expiresAt now = .ok s') :
    Lowered s s' := by
  obtain ⟨-, rfl⟩ := writeRecord_eq_ok hwrite
  exact Lowered.of_rows rfl rfl

end LastWrite

section

variable (h : s.Conserved)
include h

theorem Capped.evaluated {m : EvaluatedMutation} {decision : Decision} {settles : Quota → Bool}
    {missing : Uuid → StorageError} {entries : List AppliedEntry} (hc : s.Capped now)
    (hreg : RegularFor s now m) (hengine : m.MostRestrictiveWins)
    (hdecide : decideOn ((s.lockApplicable m.applicable).map (s.snapshotOf now)) m now =
      .ok decision)
    (hallowed : decision.result = .allowed)
    (hplan : s.chargePlan settles missing (s.lockApplicable m.applicable) decision.debitPlan now =
      .ok (entries, s'))
    : s'.Capped now := by
  obtain ⟨snapshot, hsnapshot, hsat, hsingle⟩ :=
    decideOn_mostRestrictive hengine hdecide hallowed
  obtain ⟨q, hq, rfl⟩ := mem_map.1 hsnapshot
  have hqs := (RegularFor.quotas hreg q hq).1
  rw [hsingle] at hplan
  exact (Capped.chargePlan h.charging hc (RegularFor.quotas hreg) hqs hsat hplan).1

theorem Lowered.resolveLease {lease : Lease} (hr : resolveLease state now s lease = .ok s') :
    Lowered s s' := by
  obtain ⟨s₁, -, -, -, -, hlow, -, rfl⟩ := resolveLease_spec h.balanced.covered hr
  exact hlow.trans (Lowered.of_rows rfl rfl)

theorem Lowered.resolveLeases {leases : List Lease}
    (hr : leases.foldlM (Store.resolveLease state now) s = .ok s') : Lowered s s' := by
  have hrun := foldlM_invariant (I := fun s₁ => s₁.Conserved ∧ Lowered s s₁) ?_ hr
    ⟨h, Lowered.refl s⟩
  · exact hrun.2
  · rintro s₁ lease - s₂ ⟨h₁, hlow⟩ hstep
    exact ⟨(h₁.resolveLease hstep).1, hlow.trans (Lowered.resolveLease h₁ hstep)⟩

theorem Lowered.applyRollback {original : IdempotencyScope} {authorized : ℕ}
    {write : IdempotencyWrite} {retention : ℕ}
    (hroll : s.step (.rollback original authorized write retention now) = .ok s') :
    Lowered s s' := by
  rcases applyRollback_eq_ok hroll with rfl | ⟨_, hwrite | ⟨record, s₁, s₂, -, -, -, -, hreverse,
    hwrite, rfl⟩⟩
  · exact Lowered.refl _
  · exact Lowered.writeRecord hwrite
  · refine Lowered.trans ?_ ((Lowered.writeRecord hwrite).trans (Lowered.of_rows rfl rfl))
    simp only [Store.reverseEntries, bind_eq_ok_iff] at hreverse
    obtain ⟨_, -, hfold⟩ := hreverse
    have hrun := foldlM_invariant (I := fun s₁ => s₁.Keyed ∧ Lowered s s₁) ?_ hfold
      ⟨h.balanced.keyed, Lowered.refl s⟩
    · exact hrun.2
    · rintro s₃ entry - s₄ ⟨hk, hlow⟩ hstep
      simp only [reverseEntry, ok_iffs, Prod.exists] at hstep
      obtain ⟨v, s₅, hcredit, rfl⟩ := hstep
      refine ⟨?_, hlow.trans (Lowered.creditCounter hk hcredit)⟩
      obtain ⟨row, -, -, -, rfl⟩ := creditCounter_eq_ok hk hcredit
      exact hk.stampHolds.writeCounter _ _

/-- **A transaction keeps caps**, if every evaluation uses the built-in engine and the clock does
not run back. -/
theorem capped_step {e : Event} (hc : s.Capped t) (hclock : ∀ now ∈ e.clock, t ≤ now)
    (hnot : e.isCredit = false) (hreg : ChargesRegularly s e) (hengine : e.MostRestrictiveWins)
    (hstep : s.step e = .ok s') : s'.Capped (e.clock.getD t) := by
  replace hc : s.Capped (e.clock.getD t) := by
    refine hc.mono ?_
    cases hnow : e.clock with
    | none => exact le_rfl
    | some now => exact hclock now hnow
  cases e with
  | createQuota quota => exact hc.createQuota h.placed hstep
  | debit m now =>
    rcases debit_eq_ok hstep with rfl | ⟨decision, entries, s₁, hdecide, hplan, _, hwrite⟩
    · exact hc
    refine Capped.lowered ?_ (Lowered.writeRecord hwrite)
    rcases hplan with ⟨hallowed, hplan⟩ | ⟨-, rfl⟩
    · exact Capped.evaluated h hc hreg hengine hdecide hallowed hplan
    · exact hc
  | batchDebit items envelope retention now =>
    rcases batchDebit_eq_ok hstep with rfl | ⟨decisions, snapshots, entries, s₁, hdecide, hitems,
      _, hwrite⟩
    · exact hc
    refine Capped.lowered ?_ (Lowered.writeRecord hwrite)
    rcases hitems with ⟨hallowed, hitems⟩ | ⟨-, rfl⟩
    · exact Capped.applyItems h.charging hc (fun quota hq => (mem_filter.1 hq).1)
        (fun m hm => RegularFor.quotas (hreg m hm)) hengine hdecide hallowed hitems
    · exact hc
  | acquireLease m token ttl leaseCap now =>
    rcases acquireLease_eq_ok hstep with rfl | ⟨s₁, hinsert, _, hwrite⟩
    · exact hc
    refine Capped.lowered ?_ (Lowered.writeRecord hwrite)
    rcases hinsert with rfl | ⟨decision, entries, s₂, _, hdecide, hallowed, hplan, hinsert⟩
    · exact hc
    · have hcapped := Capped.evaluated h hc hreg hengine hdecide hallowed hplan
      obtain ⟨-, rfl⟩ := insertLease_eq_ok hinsert
      exact hcapped.lowered (Lowered.of_rows rfl rfl)
  | settleLease token settlement tenantId key payloadHash retention now =>
    rcases settleLease_eq_ok hstep with rfl | ⟨lease, kept, entries, s₁, write, attribution, _, -,
      -, hkept, hfold, hwrite⟩
    · exact hc
    · obtain ⟨-, -, -, hlow, -⟩ := settleHolds_spec h.balanced.covered (keptOf_bounded hkept) hfold
      have hstate : Lowered s₁ (s₁.markState token settlement.state) := Lowered.of_rows rfl rfl
      exact hc.lowered ((hlow.trans hstate).trans (Lowered.writeRecord hwrite))
  | reclaimExpiredLeases batchSize before =>
    exact hc.lowered (Lowered.resolveLeases h hstep)
  | deactivateQuota quotaId now =>
    simp only [step, deactivateQuota, bind_eq_ok_iff] at hstep
    obtain ⟨quota, -, hfold⟩ := hstep
    have hset : (s.setQuota quotaId fun quota => { quota with active := false }).Conserved :=
      h.setQuota quotaId fun quota => ⟨rfl, rfl, rfl⟩
    have hcset : (s.setQuota quotaId fun quota => { quota with active := false }).Capped now :=
      hc.setQuota quotaId (fun _ => rfl) fun q hq hid cap hcap row hrow hrid hnot =>
        hc.capped q hq cap hcap row hrow (hrid.trans hid.symm) hnot
    exact hcset.lowered (Lowered.resolveLeases hset hfold)
  | updateQuota quotaId update now =>
    exact hc.updateQuota (h.legible hc) hstep
  | rollback original authorized write retention now =>
    exact hc.lowered (Lowered.applyRollback h hstep)
  | credit => cases hnot

/-! ### Whole histories -/

/-- A transaction of the kind that keeps counters from drifting. -/
def Regular (s : Store) (e : Event) : Prop := e.isCredit = false ∧ ChargesRegularly s e

theorem conserved_run (hall : Machine.AllSteps step Regular s events)
    (hrun : Machine.run step s events = .ok s') : s'.Conserved ∧ KeepsSettled s s' := by
  refine Machine.run_guarded (I := fun s₁ => s₁.Conserved ∧ KeepsSettled s s₁) ?_ hrun hall
    ⟨h, KeepsSettled.refl s⟩
  rintro s₁ e s₂ ⟨h₁, hkeep⟩ ⟨hnot, hreg⟩ hstep
  obtain ⟨h₂, hkeep'⟩ := conserved_step h₁ hnot hreg hstep
  exact ⟨h₂, hkeep.trans hkeep'⟩

/-- Regular histories under the built-in engine and a clock that does not run back keep caps. -/
theorem capped_run (hc : s.Capped t) (hall : Machine.AllSteps step Regular s events)
    (hengine : ∀ e ∈ events, e.MostRestrictiveWins)
    (hclocks : (events.filterMap Event.clock).Pairwise (· ≤ ·))
    (hfrom : ∀ now ∈ events.filterMap Event.clock, t ≤ now)
    (hrun : Machine.run step s events = .ok s') {u : ℤ} (htu : t ≤ u)
    (huntil : ∀ now ∈ events.filterMap Event.clock, now ≤ u) : s'.Capped u := by
  induction events generalizing s t with
  | nil =>
    cases hrun
    exact hc.mono htu
  | cons e events ih =>
    obtain ⟨s₁, hstep, hrest⟩ := Machine.run_cons_eq_ok_iff.1 hrun
    obtain ⟨hnot, hreg⟩ := hall.1
    have h₁ := (conserved_step h hnot hreg hstep).1
    have hmem : ∀ now ∈ e.clock, now ∈ (e :: events).filterMap Event.clock :=
      fun now hnow => mem_filterMap.2 ⟨e, mem_cons_self, hnow⟩
    have hrestmem : ∀ now ∈ events.filterMap Event.clock,
        now ∈ (e :: events).filterMap Event.clock := by
      intro now hnow
      obtain ⟨e', he', hnow⟩ := mem_filterMap.1 hnow
      exact mem_filterMap.2 ⟨e', mem_cons_of_mem _ he', hnow⟩
    have hc₁ := capped_step h hc (fun now hnow => hfrom now (hmem now hnow)) hnot hreg
      (hengine e mem_cons_self) hstep
    have hengine' := fun e' he' => hengine e' (mem_cons_of_mem _ he')
    have huntil' := fun now hnow => huntil now (hrestmem now hnow)
    -- the clocks of the rest are bounded below by the clock of this event, if it read one
    cases hclock : e.clock with
    | none =>
      rw [hclock] at hc₁
      rw [filterMap_cons_none hclock] at hclocks hfrom
      exact ih h₁ hc₁ (hall.2 s₁ hstep) hengine' hclocks hfrom hrest htu huntil'
    | some now =>
      rw [hclock] at hc₁
      rw [filterMap_cons_some hclock, pairwise_cons] at hclocks
      exact ih h₁ hc₁ (hall.2 s₁ hstep) hengine' hclocks.2 hclocks.1 hrest
        (huntil now (hmem now hclock)) huntil'

end

theorem conserved_empty : empty.Conserved where
  balanced := ⟨sheltered_empty, fun _ _ => rfl, nofun, fun _ hk => absurd rfl hk, nofun⟩
  placed := ⟨nodup_nil, nofun⟩
  succeeded := nofun
  recorded := ⟨nodup_nil, nofun⟩

theorem capped_empty (t : ℤ) : empty.Capped t := ⟨nofun, nofun⟩

theorem Capped.currentRow_le {quota : Quota} {row : CounterRow} {cap : ℕ} (h : s.Conserved)
    (hc : s.Capped now) (hq : quota ∈ s.quotas) (hcap : cap ∈ quota.cap)
    (hrow : s.currentRow quota now = some row) : row.value ≤ cap := by
  have hl := h.legible hc
  obtain ⟨hmem, hread⟩ := (currentRow_eq_some_iff hl hq).1 hrow
  exact hc.capped quota hq cap hcap row hmem hread.1 hread.not_elapsed

theorem currentRow_le_of_run (hall : Machine.AllSteps step Regular empty events)
    (hengine : ∀ e ∈ events, e.MostRestrictiveWins)
    (hclocks : (events.filterMap Event.clock).Pairwise (· ≤ ·))
    (hrun : Machine.run step empty events = .ok s)
    (huntil : ∀ now ∈ events.filterMap Event.clock, now ≤ t) :
    ∀ quota ∈ s.quotas, ∀ cap ∈ quota.cap, ∀ row ∈ s.currentRow quota t, row.value ≤ cap := by
  have hstart : ∃ t₀, t₀ ≤ t ∧ ∀ now ∈ events.filterMap Event.clock, t₀ ≤ now := by
    cases hlist : events.filterMap Event.clock with
    | nil => exact ⟨t, le_rfl, fun now hnow => by cases hnow⟩
    | cons first rest =>
      rw [hlist] at hclocks huntil
      refine ⟨first, huntil first mem_cons_self, fun now hnow => ?_⟩
      rcases mem_cons.1 hnow with rfl | hnow
      · exact le_rfl
      · exact (pairwise_cons.1 hclocks).1 now hnow
  obtain ⟨t₀, ht₀, hfrom⟩ := hstart
  have hcapped := capped_run conserved_empty (capped_empty t₀) hall hengine hclocks hfrom hrun ht₀
    huntil
  intro quota hq cap hcap row hrow
  exact hcapped.currentRow_le (conserved_run conserved_empty hall hrun).1 hq hcap hrow

end Store

/-- **Counters never drift** in histories without explicit credits whose charges read clocks of
their quotas' calendars: every unsettled row stores its movements and its open holds; no hold is
given back twice; a rollover event closes a row on its movements; later transactions of the same
kind leave settled rows alone; and under the most-restrictive-wins engine and a clock that does not
run back, the current row of a capped quota stays under its cap. -/
theorem counters_never_drift {events : List Event} {s : Store}
    (hcredits : ∀ e ∈ events, e.isCredit = false)
    (hregular : Machine.AllSteps Store.step ChargesRegularly Store.empty events)
    (hrun : Machine.run Store.step Store.empty events = .ok s) :
    (∀ row ∈ s.rows, row.settled = false → row.value = s.moved row.key + s.held row.key) ∧
      s.givenBack.Nodup ∧
      (∀ event ∈ s.rollovers, s.Settled event.key ∧ event.closingConsumed = s.moved event.key) ∧
      (∀ later s', (∀ e ∈ later, e.isCredit = false) →
        Machine.AllSteps Store.step ChargesRegularly s later →
        Machine.run Store.step s later = .ok s' →
          ∀ row ∈ s.rows, row.settled = true → row ∈ s'.rows) ∧
      ((∀ e ∈ events, e.MostRestrictiveWins) → (events.filterMap Event.clock).Pairwise (· ≤ ·) →
          ∀ t, (∀ now ∈ events.filterMap Event.clock, now ≤ t) →
            ∀ quota ∈ s.quotas, ∀ cap ∈ quota.cap, ∀ row ∈ s.currentRow quota t,
              row.value ≤ cap) := by
  have hall : Machine.AllSteps Store.step Store.Regular Store.empty events :=
    hregular.and_forall hcredits
  have h := (Store.conserved_run Store.conserved_empty hall hrun).1
  refine ⟨fun row hrow hset => ?_, h.balanced.keyed.givenBackOnce, h.balanced.closing, ?_, ?_⟩
  · have hopen : s.Open row.key := ⟨row, hrow, rfl, hset⟩
    have hbalance := h.balanced.balance row.key
      (Store.not_settled_of_open h.balanced.keyed hopen)
    rw [Store.used, Store.stored_of_mem h.balanced.keyed hrow, Pi.zero_apply] at hbalance
    omega
  · intro later s' hcredits' hregular' hrun' row hrow hset
    exact (Store.conserved_run h (hregular'.and_forall hcredits') hrun').2 row hrow hset
  · intro hengine hclocks t huntil
    exact Store.currentRow_le_of_run hall hengine hclocks hrun huntil

/-! ### The end of the calendar -/

/-- A yearly quota of ten credits. -/
def yearly : Quota :=
  ⟨2, 7, ⟨"user", "u"⟩, "credits", .consumption, some .year, some 10, [], none, true⟩

/-- Midnight of a day of June, in a year that is no leap year. -/
def june (year day : ℤ) : ℤ := midnight (Calendar.yearStart year + 150 + day)

/-- One credit is used in the year 9998 and one in the year 9999. -/
def lastYears : List Event :=
  [.createQuota yearly, .debit (sampleMutation "credits" 1 .debit "first") (june 9998 1),
    .debit (sampleMutation "credits" 1 .debit "second") (june 9999 1)]

/-- **In the year 9999 a debit moves a settled row.**  The calendar has no end of that year, so its
row has the open-ended window, which starts in 1970.  The settled row of 9998 stays the latest, and
the next debit, whose insert meets the open-ended row's key, reads the latest row and charges it. -/
theorem settled_row_moves : ∃ s s', Machine.run Store.step Store.empty lastYears = .ok s ∧
      Machine.run Store.step s
        [.debit (sampleMutation "credits" 1 .debit "third") (june 9999 2)] = .ok s' ∧
      (∃ event ∈ s'.rollovers, event.closingConsumed = 1 ∧ s'.moved event.key = 2) ∧
      ∃ row ∈ s.rows, row.settled = true ∧ row.value = 1 ∧ row ∉ s'.rows ∧
        s'.stored row.key = 2 := by
  simp only [exists_and_left]
  decide +kernel

/-- A regular history: credits are used, five seats are held and three committed, two seats are used
and the use is rolled back, and a year later credits are used again. -/
def regularHistory : List Event :=
  [.createQuota (seats 100 []), .createQuota yearly,
    .debit (sampleMutation "credits" 4 .debit "first") (june 1970 1),
    .acquireLease (sampleMutation "seats" 5 .reserve "hold") 9 60000000000 10 (june 1970 1),
    .settleLease 9 (.commit (some 3)) 7 "commit" 0 86400 (june 1970 1),
    .debit (sampleMutation "seats" 2 .debit "use") (june 1970 2),
    .rollback ⟨7, 0, .debit, "use"⟩ 0 ⟨⟨7, 0, .rollback, "undo"⟩, 0⟩ 86400 (june 1970 2),
    .debit (sampleMutation "credits" 6 .debit "next") (june 1971 1)]

theorem counters_never_drift_sample :
    ∃ s, Machine.run Store.step Store.empty regularHistory = .ok s ∧ s.stored ⟨1, none⟩ = 3 ∧
      (∃ event ∈ s.rollovers, event.closingConsumed = 4 ∧ s.moved event.key = 4) ∧
      (∀ row ∈ s.rows, row.settled = false → row.value = s.moved row.key + s.held row.key) ∧
      ∀ quota ∈ s.quotas, ∀ cap ∈ quota.cap, ∀ row ∈ s.currentRow quota (june 1971 1),
        row.value ≤ cap := by
  refine exists_ok_of (P := fun s => s.stored ⟨1, none⟩ = 3 ∧
    ∃ event ∈ s.rollovers, event.closingConsumed = 4) (by decide +kernel) ?_
  rintro s hs ⟨hstored, event, hevent, hclosing⟩
  obtain ⟨hrows, -, hevents, -, hcaps⟩ := counters_never_drift (by decide) (by decide +kernel) hs
  refine ⟨hstored, ⟨event, hevent, hclosing, (hevents event hevent).2.symm.trans hclosing⟩, hrows,
    hcaps ?_ (by decide) _ (by decide)⟩
  intro e he
  simp only [regularHistory, mem_cons, not_mem_nil, or_false] at he
  rcases he with rfl | rfl | rfl | rfl | rfl | rfl | rfl | rfl
  all_goals first | rfl | trivial

end Gears.Quotas
