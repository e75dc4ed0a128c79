import Gears.Quotas.Records

/-!
# Counters never drift

* `Store.Conserved` : counters are movements and holds, rows lie in their calendars and are
  succeeded when they are settled, and records can be told apart.
* `ChargesRegularly` : a transaction that charges reads a clock of its quotas' calendars.
-/

namespace Gears.Quotas.Store

open Except List

variable {s₁ : Store} {attribution : Option ℕ} {settlement : Settlement}
  {s s' : Store} {now : ℤ} {entries : List AppliedEntry}

/-- **What every committed transaction leaves behind.** -/
structure Conserved (s : Store) : Prop where
  balanced : s.Balanced 0
  placed : s.Placed
  succeeded : s.Succeeded
  recorded : Recorded s.records

theorem Conserved.charging (h : s.Conserved) : Charging s now [] s where
  balanced := h.balanced
  standing := nofun
  placed := h.placed
  succeeded := h.succeeded
  keeps := KeepsSettled.refl s
  later := Later.refl s

theorem KeepsSettled.of_rows (h : s'.rows = s.rows) : KeepsSettled s s' :=
  fun _ hrow _ => h ▸ hrow

section LastWrite

variable {write : IdempotencyWrite} {moves : List AppliedEntry} {attribution : Option ℕ}
  {expiresAt : ℤ}

theorem Conserved.writeRecord (h : s.Conserved) (s₁ : Store) (hl : s₁.records = s.records)
    (hbal : s₁.Balanced fun key => entriesOn moves key) (hp : s₁.Placed) (hs : s₁.Succeeded)
    (hpair : attribution.isSome → entries = moves)
    (hwrite : s₁.writeRecord write entries moves attribution expiresAt now = .ok s') :
    s'.Conserved ∧ KeepsSettled s₁ s' := by
  have hrec : Recorded s₁.records := hl ▸ h.recorded
  refine ⟨⟨hbal.writeRecord hwrite, ?_, ?_, hrec.writeRecord hpair hwrite⟩, ?_⟩ <;>
    obtain ⟨-, rfl⟩ := writeRecord_eq_ok hwrite
  · exact ⟨hp.quotaIds, hp.located⟩
  · exact hs
  · exact KeepsSettled.of_rows rfl

theorem Charging.writeRecord (h : s.Conserved) (hc : Charging s now moves s₁)
    (hpair : attribution.isSome → entries = moves)
    (hwrite : s₁.writeRecord write entries moves attribution expiresAt now = .ok s') :
    s'.Conserved ∧ KeepsSettled s s' := by
  obtain ⟨hcons, hkeep⟩ :=
    h.writeRecord s₁ hc.later.records hc.balanced hc.placed hc.succeeded hpair hwrite
  exact ⟨hcons, hc.keeps.trans hkeep⟩

end LastWrite

/-! ### Leases -/

variable {state : LeaseState} {token : Uuid} {kept : List ℕ} {write : IdempotencyWrite}

theorem Balanced.markState {pend : RowKey → ℤ} (h : s.Balanced pend)
    (hall : ∀ hold ∈ s.holds, hold.leaseToken = token → ¬ hold.Unreturned) :
    (s.markState token state).Balanced pend :=
  { h with sheltered := h.sheltered.markState hall }

/-- The counters of open rows moved; rows and quotas are otherwise as they were. -/
theorem Conserved.touched (h : s.Conserved) (ht : Touched s s') (hl : Later s s') :
    s'.Placed ∧ s'.Succeeded ∧ Recorded s'.records :=
  ⟨h.placed.of_outlines ht.outlines hl.quotas, h.succeeded.of_outlines ht.outlines,
    hl.records ▸ h.recorded⟩

theorem Balanced.giveBackHolds {holds : List Hold} (h : s.Balanced 0)
    (hholds : ∀ hold ∈ holds, hold.shape ∈ s.shapes)
    (hfold : holds.foldlM (Store.giveBack now) s = .ok s') : s'.Balanced 0 ∧ Touched s s' := by
  have hrun := foldlM_invariant
    (I := fun s₁ => Later s s₁ ∧ s₁.Balanced 0 ∧ Touched s s₁) ?_ hfold
    ⟨Later.refl s, h, Touched.refl s⟩
  · exact hrun.2
  · rintro s₁ hold hhold s₂ ⟨hl, hbal, ht⟩ hgive
    obtain ⟨hbal', ht'⟩ := hbal.giveBack (hl.shapes ▸ hholds hold hhold) hgive
    exact ⟨hl.trans (Later.handed hbal.keyed (giveBack_handed hgive)), hbal', ht.trans ht'⟩

theorem Conserved.resolveLease {lease : Lease} (h : s.Conserved)
    (hr : resolveLease state now s lease = .ok s') : s'.Conserved ∧ KeepsSettled s s' := by
  obtain ⟨s₁, hfold, hl, -, -, -, hall, rfl⟩ := resolveLease_spec h.balanced.covered hr
  obtain ⟨hbal, ht⟩ :=
    h.balanced.giveBackHolds (fun hold hh => shape_mem_of_holdsOf hh) hfold
  obtain ⟨hp, hs, hrec⟩ := h.touched ht hl
  exact ⟨⟨hbal.markState hall, ⟨hp.quotaIds, hp.located⟩, hs, hrec⟩, ht.settled⟩

theorem Conserved.resolveLeases {leases : List Lease} (h : s.Conserved)
    (hr : leases.foldlM (Store.resolveLease state now) s = .ok s') :
    s'.Conserved ∧ KeepsSettled s s' := by
  refine foldlM_invariant (I := fun s₁ => s₁.Conserved ∧ KeepsSettled s s₁) ?_ hr
    ⟨h, KeepsSettled.refl s⟩
  rintro s₁ lease - s₂ ⟨h₁, hkeep⟩ hstep
  obtain ⟨h₂, hkeep'⟩ := h₁.resolveLease hstep
  exact ⟨h₂, hkeep.trans hkeep'⟩

theorem Balanced.settleHolds (h : s.Balanced 0)
    (hkept : Forall₂ (· ≤ ·) kept ((s.holdsOf token).map (·.heldAmount)))
    (hfold : ((s.holdsOf token).zip kept).foldlM (Store.settleHold now) ([], s) =
      .ok (entries, s')) :
    s'.Balanced (fun key => entriesOn entries key) ∧ Touched s s' := by
  obtain ⟨hzip, -⟩ := mem_zip_kept hkept
  have hrun := foldlM_invariant
    (I := fun done => Later s done.2 ∧ done.2.Balanced (fun key => entriesOn done.1 key) ∧
      Touched s done.2) ?_ hfold ⟨Later.refl s, h, Touched.refl s⟩
  · exact hrun.2
  · rintro done ⟨hold, share⟩ hitem done' ⟨hl, hbal, ht⟩ hsettle
    obtain ⟨hhold, -, hle⟩ := hzip _ hitem
    have hshape : hold.shape ∈ done.2.shapes := hl.shapes ▸ shape_mem_of_holdsOf hhold
    obtain ⟨-, -, hentries⟩ := used_settleHold hbal.covered hshape hle hsettle
    obtain ⟨hbal', ht'⟩ := hbal.settleHold hshape hle hsettle
    refine ⟨hl.trans (Later.handed hbal.keyed (settleHold_handed hsettle).2.2.1), ?_, ht.trans ht'⟩
    have hpend : (fun key => (entriesOn done.1 key : ℤ)) + Pi.single hold.key (share : ℤ) =
        fun key => (entriesOn done'.1 key : ℤ) := by
      funext k
      rw [hentries, Pi.add_apply, Pi.single_apply]
      split <;> rfl
    exact hpend ▸ hbal'

theorem settleHolds_recorded {reserved : ℕ} (hc : s.Covered)
    (hkept : keptOf ((s.holdsOf token).map (·.heldAmount)) reserved (settlement.kept reserved) =
      .ok kept)
    (hfold : ((s.holdsOf token).zip kept).foldlM (settleHold now) ([], s) = .ok (entries, s')) :
    (if settlement.operation = .commit then entries else []) = entries := by
  cases settlement with
  | commit actual => rfl
  | release =>
    obtain ⟨-, -, -, -, -, hentries⟩ := settleHolds_spec hc (keptOf_bounded hkept) hfold
    refine (eq_nil_iff_forall_not_mem.2 fun entry hentry => ?_).symm
    obtain ⟨hmem, hpos, -⟩ := hentries entry hentry
    have := keptOf_zero hkept _ hmem
    omega

section

variable (h : s.Conserved)
include h

theorem Conserved.settled {reserved : ℕ} {expiresAt : ℤ}
    (hkept : keptOf ((s.holdsOf token).map (·.heldAmount)) reserved (settlement.kept reserved) =
      .ok kept)
    (hfold : ((s.holdsOf token).zip kept).foldlM (settleHold now) ([], s) = .ok (entries, s₁))
    (hwrite : (s₁.markState token settlement.state).writeRecord write
      (if settlement.operation = .commit then entries else [])
      (if settlement.operation = .commit then entries else []) attribution expiresAt now = .ok s')
    : s'.Conserved ∧ KeepsSettled s s' := by
  have hbounded := keptOf_bounded hkept
  obtain ⟨hl, -, -, -, hall, -⟩ := settleHolds_spec h.balanced.covered hbounded hfold
  obtain ⟨hbal, ht⟩ := h.balanced.settleHolds hbounded hfold
  obtain ⟨hp, hs, hrec⟩ := h.touched ht hl
  rw [settleHolds_recorded h.balanced.covered hkept hfold] at hwrite
  obtain ⟨hcons, hkeep⟩ := h.writeRecord (s₁.markState token settlement.state) hl.records
    (hbal.markState hall) ⟨hp.quotaIds, hp.located⟩ hs (fun _ => rfl) hwrite
  exact ⟨hcons, ht.settled.trans hkeep⟩

theorem Conserved.acquired {settles : Quota → Bool} {missing : Uuid → StorageError}
    {quotas : List Quota} {plan : DebitPlan} {lease : Lease} {s₂ : Store} {expiresAt : ℤ}
    (hquotas : ∀ quota ∈ quotas, quota ∈ s.quotas ∧ ReadsRegular quota now)
    (hactive : lease.state = .active)
    (hplan : s.chargePlan settles missing quotas plan now = .ok (entries, s₁))
    (hinsert : s₁.insertLease lease entries = .ok s₂)
    (hwrite : s₂.writeRecord write [] [] attribution expiresAt now = .ok s') :
    s'.Conserved ∧ KeepsSettled s s' := by
  have hc : Charging s now entries s₁ := h.charging.chargePlan hquotas hplan
  have hids : (entries.map (·.key.quotaId)).Nodup := quotaIds_chargePlan hplan ▸ plan.nodup
  have hbal : s₂.Balanced fun key => entriesOn [] key := hc.insertLease hactive hids hinsert
  obtain ⟨-, hs₂⟩ := insertLease_eq_ok hinsert
  have hrows : s₂.outlines = s₁.outlines := by rw [hs₂]; rfl
  have hquotas₂ : s₂.quotas = s₁.quotas := by rw [hs₂]
  have hrecords : s₂.records = s.records := by rw [hs₂]; exact hc.later.records
  have hkeep₂ : KeepsSettled s₁ s₂ := KeepsSettled.of_rows (by rw [hs₂])
  obtain ⟨hcons, hkeep⟩ := h.writeRecord s₂ hrecords hbal (hc.placed.of_outlines hrows hquotas₂)
    (hc.succeeded.of_outlines hrows) (fun _ => rfl) hwrite
  exact ⟨hcons, (hc.keeps.trans hkeep₂).trans hkeep⟩

theorem Conserved.setQuota (quotaId : Uuid) {f : Quota → Quota}
    (hf : ∀ quota, (f quota).id = quota.id ∧ (f quota).quotaType = quota.quotaType ∧
      (f quota).period = quota.period)
    : (s.setQuota quotaId f).Conserved := by
  have hset : ∀ quota : Quota, (if quota.id = quotaId then f quota else quota).id = quota.id := by
    intro quota
    split
    · exact (hf quota).1
    · rfl
  refine ⟨{ h.balanced with sheltered := h.balanced.sheltered.setQuota quotaId f },
    ⟨?_, fun row hrow => ?_⟩, h.succeeded, h.recorded⟩
  · simpa only [Store.setQuota, map_map, Function.comp_def, hset] using h.placed.quotaIds
  · obtain ⟨quota, hquota, hid, hloc⟩ := h.placed.located row hrow
    refine ⟨_, mem_map_of_mem hquota, (hset quota).trans hid, ?_⟩
    split
    · simpa only [CounterRow.LocatedIn, hf, windowOf, calendarOf] using hloc
    · exact hloc

theorem Conserved.createQuota {quota : Quota} (hcreate : s.createQuota quota = .ok s') :
    s'.Conserved ∧ KeepsSettled s s' := by
  obtain ⟨hfresh, hcases⟩ := createQuota_eq_ok hcreate
  have hids : ((s.quotas ++ [({ quota with active := true } : Quota)]).map
      fun quota : Quota => quota.id).Nodup := by
    rw [map_append, nodup_append]
    refine ⟨h.placed.quotaIds, by simp, fun id hid id' hid' heq => ?_⟩
    obtain ⟨other, hother, rfl⟩ := mem_map.1 hid
    exact hfresh other hother (heq.trans (by simpa using hid'))
  have hadded : ({ s with quotas := s.quotas ++ [{ quota with active := true }] } :
      Store).Conserved := by
    refine ⟨{ h.balanced with sheltered := h.balanced.sheltered.withQuotas _ },
      ⟨hids, fun row hrow => ?_⟩, h.succeeded, h.recorded⟩
    obtain ⟨q, hq, hrest⟩ := h.placed.located row hrow
    exact ⟨q, mem_append_left _ hq, hrest⟩
  rcases hcases with ⟨-, rfl⟩ | ⟨htype, hnone, rfl⟩
  · exact ⟨hadded, KeepsSettled.of_rows rfl⟩
  · have hnew : ({ quota with active := true } : Quota) ∈
        s.quotas ++ [({ quota with active := true } : Quota)] :=
      mem_append_right _ (mem_singleton_self _)
    have hloc : (⟨quota.id, none, 0, none, false⟩ : CounterRow).LocatedIn
        { quota with active := true } := by
      simp only [CounterRow.LocatedIn, htype]
    have hplaced := hadded.placed.addRow hnew rfl hloc
    -- the new row is not settled, and the others keep their successors
    refine ⟨⟨hadded.balanced.addRow hnone rfl, hplaced, ?_, hadded.recorded⟩,
      fun row hrow _ => mem_append_left _ hrow⟩
    intro row hrow hset
    rcases mem_concat_iff.1 hrow with hrow | rfl
    · exact (hadded.succeeded row hrow hset).addRow _
    · cases hset

theorem Conserved.currentRow_open {quota : Quota} {row : CounterRow}
    (hrow : s.currentRow quota now = some row) : s.Open row.key := by
  unfold currentRow at hrow
  cases hq : quota.quotaType with
  | allocation =>
    simp only [hq] at hrow
    have hmem := mem_of_findRow hrow
    have hw : row.window = none := by
      have := congrArg RowKey.period (key_of_findRow hrow)
      simpa [CounterRow.key] using this
    exact ⟨row, hmem, rfl, h.placed.allocation_open h.succeeded hmem hw⟩
  | consumption =>
    simp only [hq, Option.filter_eq_some_iff] at hrow
    have hmem := (mem_of_findLatest hrow.1).1
    refine ⟨row, hmem, rfl, ?_⟩
    by_contra hset
    exact not_hasSuccessor_of_latest hrow.1 (h.succeeded row hmem (by simpa using hset))

theorem Conserved.updateQuota {quotaId : Uuid} {update : QuotaUpdate}
    (hupdate : s.updateQuota quotaId update now = .ok s') : s'.Conserved ∧ KeepsSettled s s' := by
  obtain ⟨quota, consumed, s₁, hlock, hconsumed, -, rfl⟩ := updateQuota_eq_ok hupdate
  have hread : s₁.Conserved ∧ KeepsSettled s s₁ := by
    rcases consumedUnderLock_eq_ok hconsumed with ⟨row, hrow, hcredit⟩ | ⟨-, -, rfl⟩
    · obtain ⟨hbal, ht⟩ := h.balanced.creditCounter (h.currentRow_open hrow)
        (h.balanced.covered.2 _) hcredit
      obtain ⟨hp, hs, hrec⟩ := h.touched ht (Later.creditCounter h.balanced.keyed hcredit)
      have hzero : (0 : RowKey → ℤ) - Pi.single row.key ((0 : ℕ) : ℤ) = 0 := by simp
      exact ⟨⟨hzero ▸ hbal, hp, hs, hrec⟩, ht.settled⟩
    · exact ⟨h, KeepsSettled.refl _⟩
  refine ⟨hread.1.setQuota quotaId fun quota => ⟨rfl, rfl, rfl⟩, ?_⟩
  exact hread.2.trans (KeepsSettled.of_rows rfl)

end

/-! ### Rollbacks -/

theorem mem_of_findRecord {scope : IdempotencyScope} {record : IdempotencyRecord}
    (h : s.findRecord scope now = some record) :
    record ∈ s.records ∧ record.scope = scope ∧ record.deleted = false ∧
      now < record.expiresAt := by
  refine ⟨mem_of_find?_eq_some h, ?_⟩
  simpa using find?_some h

theorem Conserved.applyRollback {original : IdempotencyScope} {authorized : ℕ}
    {retention : ℕ} (h : s.Conserved)
    (hroll : s.step (.rollback original authorized write retention now) = .ok s') :
    s'.Conserved ∧ KeepsSettled s s' := by
  rcases applyRollback_eq_ok hroll with rfl | ⟨deadline, hwrite | ⟨record, s₁, s₂, hfree, hfind,
    hauthorized, hlive, hreverse, hwrite, rfl⟩⟩
  · exact ⟨h, KeepsSettled.refl _⟩
  · have hbal : s.Balanced fun key => entriesOn [] key := h.balanced
    exact h.writeRecord s rfl hbal h.placed h.succeeded (fun _ => rfl) hwrite
  obtain ⟨hmem, rfl, hundeleted, hexpiry⟩ := mem_of_findRecord hfind
  have hentries : record.entries = record.moved :=
    h.recorded.reversible record hmem (by simp [hauthorized])
  -- the record is one of those that the movements sum up
  have hle : ∀ k, entriesOn record.entries k ≤ s.moved k := by
    intro k
    rw [moved_eq_tally, hentries]
    exact le_tally (p := fun record => decide (record.reversedByKey = none))
      (w := fun record => entriesOn record.moved k) hmem (decide_eq_true hlive)
  obtain ⟨hbal, ht, hl⟩ := h.balanced.reverseEntries h.placed h.succeeded hle hreverse
  obtain ⟨hp, hs, hrec⟩ := h.touched ht hl
  have hrec₂ : Recorded s₂.records := hrec.writeRecord (fun _ => rfl) hwrite
  have hmoved₂ := moved_writeRecord hwrite
  obtain ⟨-, rfl⟩ := writeRecord_eq_ok hwrite
  -- the record that is marked is not the one under the rollback's own key
  have hother : record.scope ≠ write.scope := by
    intro heq
    rw [heq, hfree] at hfind
    cases hfind
  have hstill : record ∈ (s₁.deleteExpiredAtKey write.scope now).records ++
      [⟨write.scope, write.payloadHash, [], [], none, none, deadline, false⟩] := by
    refine mem_append_left _ (mem_map.2 ⟨record, hl.records ▸ hmem, ?_⟩)
    rw [if_neg fun hsame => hother hsame.1]
  have hmoved := moved_markReversed hrec₂ hstill ⟨rfl, hundeleted, hlive⟩ write.scope.key
  refine ⟨⟨hbal.withRecords fun k => ?_, ⟨hp.quotaIds, hp.located⟩, hs,
    hrec₂.markReversed _ _⟩, ht.settled⟩
  have hk := hmoved k
  rw [hmoved₂ k, entriesOn_nil, ← hentries] at hk
  change ((markReversed _ _ _).moved k : ℤ) = _
  omega

end Gears.Quotas.Store

namespace Gears.Quotas

open Store Except List

instance (quota : Quota) (now : ℤ) : Decidable (ReadsRegular quota now) :=
  inferInstanceAs (Decidable (_ → _))

/-- The clock is an instant of the calendar of every quota that a mutation may charge. -/
def RegularFor (s : Store) (now : ℤ) (m : EvaluatedMutation) : Prop :=
  ∀ quota ∈ s.lockApplicable m.applicable, ReadsRegular quota now

instance (s : Store) (now : ℤ) (m : EvaluatedMutation) : Decidable (RegularFor s now m) :=
  inferInstanceAs (Decidable (∀ quota ∈ s.lockApplicable m.applicable, ReadsRegular quota now))

/-- **A transaction that charges reads a clock of its quotas' calendars.** -/
def ChargesRegularly (s : Store) : Event → Prop
  | .debit m now => RegularFor s now m
  | .batchDebit items _ _ now => ∀ m ∈ items, RegularFor s now m
  | .acquireLease m _ _ _ now => RegularFor s now m
  | _ => True

instance (s : Store) : (e : Event) → Decidable (ChargesRegularly s e)
  | .debit .. | .acquireLease .. => inferInstanceAs (Decidable (RegularFor s _ _))
  | .batchDebit items .. => decidableBAll (RegularFor s _) items
  | .createQuota .. | .settleLease .. | .reclaimExpiredLeases .. | .deactivateQuota .. |
    .updateQuota .. | .rollback .. | .credit .. => instDecidableTrue

/-- The transaction is an explicit credit. -/
def Event.isCredit : Event → Bool
  | .credit _ _ _ _ _ _ _ _ => true
  | _ => false

namespace Store

variable {s s' : Store} {now : ℤ}

theorem RegularFor.quotas {m : EvaluatedMutation} (h : RegularFor s now m) :
    ∀ quota ∈ s.lockApplicable m.applicable, quota ∈ s.quotas ∧ ReadsRegular quota now := by
  intro quota hquota
  refine ⟨?_, h quota hquota⟩
  simp only [lockApplicable, mem_sortByKey, mem_filter] at hquota
  exact hquota.1

/-- **Every transaction keeps the balance and the settled rows**, if it is no explicit credit and
charges by a regular clock. -/
theorem conserved_step {e : Event} (h : s.Conserved) (hnot : e.isCredit = false)
    (hreg : ChargesRegularly s e) (hstep : s.step e = .ok s') :
    s'.Conserved ∧ KeepsSettled s s' := by
  cases e with
  | createQuota quota => exact h.createQuota hstep
  | debit m now =>
    rcases debit_eq_ok hstep with rfl | ⟨decision, entries, s₁, -, hplan, _, hwrite⟩
    · exact ⟨h, KeepsSettled.refl _⟩
    rcases hplan with ⟨-, hplan⟩ | ⟨rfl, rfl⟩
    · have hcharging : Charging s now entries s₁ :=
        h.charging.chargePlan (RegularFor.quotas hreg) hplan
      exact Charging.writeRecord h hcharging (fun _ => rfl) hwrite
    · exact Charging.writeRecord h h.charging (fun _ => rfl) hwrite
  | batchDebit items envelope retention now =>
    rcases batchDebit_eq_ok hstep with rfl | ⟨decisions, _, entries, s₁, -, hitems, _, hwrite⟩
    · exact ⟨h, KeepsSettled.refl _⟩
    rcases hitems with ⟨-, hitems⟩ | ⟨rfl, rfl⟩
    · have hcharging : Charging s now entries s₁ :=
        h.charging.applyItems
          (fun item hitem => RegularFor.quotas (hreg item.1 (of_mem_zip hitem).1)) hitems
      exact Charging.writeRecord h hcharging (fun hsome => by cases hsome) hwrite
    · exact Charging.writeRecord h h.charging (fun hsome => by cases hsome) hwrite
  | acquireLease m token ttl leaseCap now =>
    rcases acquireLease_eq_ok hstep with rfl | ⟨s₁, hinsert, _, hwrite⟩
    · exact ⟨h, KeepsSettled.refl _⟩
    rcases hinsert with rfl | ⟨decision, entries, s₂, _, -, -, hplan, hinsert⟩
    · exact Charging.writeRecord h h.charging (fun _ => rfl) hwrite
    · exact h.acquired (RegularFor.quotas hreg) rfl hplan hinsert hwrite
  | settleLease token settlement tenantId key payloadHash retention now =>
    rcases settleLease_eq_ok hstep with rfl | ⟨lease, kept, entries, s₁, write, attribution, _, -,
      -, hkept, hfold, hwrite⟩
    · exact ⟨h, KeepsSettled.refl _⟩
    · exact h.settled hkept hfold hwrite
  | reclaimExpiredLeases batchSize before => exact h.resolveLeases hstep
  | deactivateQuota quotaId now =>
    simp only [step, deactivateQuota, bind_eq_ok_iff] at hstep
    obtain ⟨quota, -, hfold⟩ := hstep
    have hset := h.setQuota quotaId (f := fun quota => { quota with active := false })
      fun quota => ⟨rfl, rfl, rfl⟩
    exact hset.resolveLeases hfold
  | updateQuota quotaId update now => exact h.updateQuota hstep
  | rollback original authorized write retention now =>
    exact h.applyRollback hstep
  | credit => cases hnot

end Store

end Gears.Quotas
