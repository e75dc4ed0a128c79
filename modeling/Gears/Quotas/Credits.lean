import Gears.Quotas.Resolution

/-!
# Explicit credits and holds

A credit floors a counter at zero after it has given back the *expired* holds of the row.  The
holds of live leases are still in the counter then, so a credit can eat them.

* `Store.Sheltered` : every counter is at least its holds, and open holds have active leases.
* `CreditSpares` : a credit meets no live hold, or leaves the holds in the counter.
* `returns_exact_while_credits_spare_holds` : while credits do, returns are exact.
* `credit_erases_usage` : a credit, a debit and a release that together lose the debit.
-/

namespace Gears.Quotas

open Except List

variable {missing : Uuid → StorageError} {quota : Quota} {settles : Quota → Bool}
  {quotas : List Quota} {v : ℕ}

namespace Store

variable {s s' : Store} {key : RowKey} {now : ℤ}

/-- Every counter is at least its holds, and open holds belong to active leases. -/
def Sheltered (s : Store) : Prop := s.Covered ∧ s.Tended

namespace Sheltered

theorem withRecords (h : s.Sheltered) (records : List IdempotencyRecord) :
    ({ s with records } : Store).Sheltered := ⟨⟨h.1.1.withRecords records, h.1.2⟩, h.2⟩

variable {entries : List AppliedEntry} {state : LeaseState}

section

variable (h : s.Sheltered)
include h

theorem writeRecord {write : IdempotencyWrite} {moved : List AppliedEntry} {attribution : Option ℕ}
    {expiresAt : ℤ} (hw : s.writeRecord write entries moved attribution expiresAt now = .ok s') :
    s'.Sheltered := by
  obtain ⟨-, rfl⟩ := writeRecord_eq_ok hw
  exact h.withRecords _

theorem withQuotas (quotas : List Quota) : ({ s with quotas } : Store).Sheltered :=
  ⟨⟨h.1.1.withQuotas _, h.1.2⟩, h.2⟩

theorem setQuota (quotaId : Uuid) (f : Quota → Quota) : (s.setQuota quotaId f).Sheltered :=
  h.withQuotas _

theorem chargePlan {plan : DebitPlan}
    (hplan : s.chargePlan settles missing quotas plan now = .ok (entries, s')) : s'.Sheltered :=
  ⟨(CoveredBeyond.chargePlan h.1 hplan).1, h.2.later (Later.chargePlan hplan)⟩

theorem markState {token : Uuid}
    (hall : ∀ hold ∈ s.holds, hold.leaseToken = token → ¬ hold.Unreturned) :
    (s.markState token state).Sheltered :=
  ⟨⟨h.1.1.markState token state, h.1.2⟩, h.2.markState hall⟩

theorem resolveLease {lease : Lease} (hr : resolveLease state now s lease = .ok s') :
    s'.Sheltered := by
  obtain ⟨s₁, -, hl, hk, hused, -, hall, rfl⟩ := resolveLease_spec h.1 hr
  exact markState ⟨⟨hk, hused ▸ h.1.2⟩, h.2.later hl⟩ hall

theorem resolveLeases {leases : List Lease}
    (hr : leases.foldlM (Store.resolveLease state now) s = .ok s') : s'.Sheltered :=
  foldlM_invariant (fun _ _ _ _ hi hstep => hi.resolveLease hstep) hr h

theorem acquireLease {lease : Lease} {plan : DebitPlan} {s₁ : Store}
    (hactive : lease.state = .active)
    (hplan : s.chargePlan settles missing quotas plan now = .ok (entries, s₁))
    (hinsert : s₁.insertLease lease entries = .ok s') : s'.Sheltered := by
  obtain ⟨hc₁, hbeyond⟩ := CoveredBeyond.chargePlan h.1 hplan
  have hids : (entries.map (·.key.quotaId)).Nodup := quotaIds_chargePlan hplan ▸ plan.nodup
  refine ⟨⟨hc₁.1.insertLease hids hinsert, fun k => ?_⟩,
    (h.2.later (Later.chargePlan hplan)).insertLease hactive hinsert⟩
  rw [used_insertLease hinsert]
  have := hbeyond k
  omega

theorem settleLease {token : Uuid} {kept : List ℕ}
    (hkept : Forall₂ (· ≤ ·) kept ((s.holdsOf token).map (·.heldAmount)))
    (hfold : ((s.holdsOf token).zip kept).foldlM (settleHold now) ([], s) = .ok (entries, s')) :
    (s'.markState token state).Sheltered := by
  obtain ⟨hl, hk, hused, -, hall, -⟩ := settleHolds_spec h.1 hkept hfold
  refine markState ⟨⟨hk, fun k => ?_⟩, h.2.later hl⟩ hall
  rw [hused]
  have := h.1.2 k
  omega

theorem creditNothing (hcredit : s.creditCounter key 0 now = .ok (v, s')) : s'.Sheltered := by
  obtain ⟨hk, hused⟩ := used_creditCounter h.1 (h.1.2 key) hcredit
  refine ⟨⟨hk, ?_⟩, h.2.later (Later.creditCounter h.1.1 hcredit)⟩
  rw [hused]
  simpa using h.1.2

/-- A credit keeps the holds covered when none of the row is live, or when it fits beside them. -/
theorem creditCounter {amount : ℕ}
    (hspare : ¬ s.HasLiveHolds key now ∨ amount + s.held key ≤ s.stored key)
    (hcredit : s.creditCounter key amount now = .ok (v, s')) : s'.Sheltered := by
  refine ⟨?_, h.2.later (Later.creditCounter h.1.1 hcredit)⟩
  by_cases hfits : (amount : ℤ) ≤ s.used key
  · obtain ⟨hk, hused⟩ := used_creditCounter h.1 hfits hcredit
    refine ⟨hk, fun k => ?_⟩
    rw [hused, Pi.sub_apply, Pi.single_apply]
    have := h.1.2 k
    split
    · rename_i hkey
      rw [hkey]
      omega
    · omega
  · -- the floor is reached, and every hold of the row was given back first
    have hlive : ¬ s.HasLiveHolds key now := by
      refine hspare.resolve_right fun hle => hfits ?_
      rw [used]
      omega
    obtain ⟨row, hrow, rfl, rfl, rfl⟩ := creditCounter_eq_ok h.1.1 hcredit
    have hheld := h.2.held_eq_expired hlive
    refine ⟨h.1.1.stampHolds.writeCounter _ _, fun k => ?_⟩
    have hvalue := stored_of_mem h.1.1 hrow
    rw [used] at hfits
    have hzero : row.value - s.unreturnedExpired row.key now - amount = 0 := by omega
    have hd : ((0 : ℕ) : ℤ) = row.value - s.unreturnedExpired row.key now +
        -((row.value : ℤ) - s.unreturnedExpired row.key now) := by omega
    rw [hzero, used_reconcile h.1.1 hrow hd, Pi.add_apply, Pi.single_apply]
    have := h.1.2 k
    split
    · rename_i hkey
      rw [hkey, used]
      omega
    · omega

end

end Sheltered

/-! ### The row of a credit -/

theorem creditedRow_eq_ok (h : s.creditedRow quota now = .ok (key, s')) :
    s' = s ∨ ∃ row s₁, Charged s quota now row s₁ ∧ s' = s₁.settleElapsedRows quota now := by
  unfold creditedRow at h
  cases hq : quota.quotaType with
  | allocation =>
    simp only [hq, Except.ok.injEq, Prod.mk.injEq] at h
    exact .inl h.2.symm
  | consumption =>
    simp only [hq, ok_iffs, exists_const, Prod.exists] at h
    obtain ⟨-, row, s₁, hrow, -, rfl⟩ := h
    exact .inr ⟨row, s₁, ensureCurrentPeriod_eq_ok hq hrow, rfl⟩

/-- Finding the row of a credit keeps the holds covered and takes nothing out of usage. -/
theorem creditedRow_spec (h : s.Sheltered) (hrow : s.creditedRow quota now = .ok (key, s')) :
    s'.Sheltered ∧ Later s s' ∧ ∀ k, s.used k ≤ s'.used k := by
  rcases creditedRow_eq_ok hrow with rfl | ⟨row, s₁, hcharged, rfl⟩
  · exact ⟨h, Later.refl _, fun _ => le_rfl⟩
  · have hc₁ : s₁.Covered := ⟨hcharged.keyed h.1.1, hcharged.used_eq ▸ h.1.2⟩
    have hl : Later s (s₁.settleElapsedRows quota now) :=
      (Later.charged hcharged).trans Later.settleElapsedRows
    obtain ⟨hc₂, hle⟩ := hc₁.settleElapsedRows now quota
    exact ⟨⟨hc₂, h.2.later hl⟩, hl, hcharged.used_eq ▸ hle⟩

theorem HasLiveHolds.of_later (hl : Later s s') (h : s'.HasLiveHolds key now) :
    s.HasLiveHolds key now := by
  obtain ⟨hold, hh, hkey, hu, hlease⟩ := h
  exact ⟨hold, hl.unreturned hold hh hu, hkey, hu, hl.leases ▸ hlease⟩

/-- The row that a credit of a quota would go to. -/
def creditTarget (s : Store) (quotaId : Uuid) (now : ℤ) : Option RowKey :=
  match s.quotas.find? (·.id = quotaId) with
  | none => none
  | some quota =>
    match s.creditedRow quota now with
    | .ok (key, _) => some key
    | .error _ => none

end Store

/-- A credit meets no live hold on its row, or fits into what the row stores beside its holds. -/
def CreditSpares (s : Store) : Event → Prop
  | .credit quotaId amount _ _ _ _ _ now => ∀ key ∈ s.creditTarget quotaId now,
      ¬ s.HasLiveHolds key now ∨ amount + s.held key ≤ s.stored key
  | _ => True

instance (s : Store) (e : Event) : Decidable (CreditSpares s e) := by
  cases e with
  | credit => exact inferInstanceAs (Decidable (∀ key ∈ s.creditTarget _ _, _ ∨ _))
  | _ => exact instDecidableTrue

/-- The transaction reverses a recorded operation. -/
def Event.IsRollback : Event → Prop
  | .rollback _ _ _ _ _ => True
  | _ => False

namespace Store

variable {s s' : Store} {key : RowKey} {now : ℤ} {amount : ℕ}

theorem Sheltered.applyCredit {quotaId tenantId : Uuid}
    {subjectKey payloadHash retention : ℕ} {text : String} (h : s.Sheltered)
    (hspare : ∀ key ∈ s.creditTarget quotaId now,
      ¬ s.HasLiveHolds key now ∨ amount + s.held key ≤ s.stored key)
    (hstep : s.step (.credit quotaId amount tenantId subjectKey text payloadHash retention now) =
      .ok s') : s'.Sheltered := by
  rcases applyCredit_eq_ok hstep with rfl | ⟨quota, key, s₁, v, s₂, write, _, hquota, hrow,
    hcredit, hwrite⟩
  · exact h
  obtain ⟨h₁, hl, hused⟩ := creditedRow_spec h hrow
  have htarget : s.creditTarget quotaId now = some key := by
    simp only [creditTarget, hquota, hrow]
  refine Sheltered.writeRecord (h₁.creditCounter ?_ hcredit) hwrite
  rcases hspare key htarget with hlive | hfits
  · exact .inl fun hlive' => hlive (hlive'.of_later hl)
  · have hk := hused key
    simp only [used] at hk
    omega

/-- **Every transaction but a rollback keeps the holds covered**, if it is no credit that eats
them. -/
theorem sheltered_step {e : Event} (h : s.Sheltered) (hnot : ¬ e.IsRollback)
    (hspare : CreditSpares s e) (hstep : s.step e = .ok s') : s'.Sheltered := by
  cases e with
  | createQuota quota =>
    obtain ⟨-, ⟨-, rfl⟩ | ⟨-, hfresh, rfl⟩⟩ := createQuota_eq_ok hstep
    · exact h.withQuotas _
    · refine ⟨⟨(h.1.1.withQuotas _).addRow hfresh, fun k => ?_⟩, h.2⟩
      rw [used, stored_addRow rfl]
      exact h.1.2 k
  | debit m now =>
    rcases debit_eq_ok hstep with rfl | ⟨decision, entries, s₁, -, hplan, _, hwrite⟩
    · exact h
    · refine Sheltered.writeRecord ?_ hwrite
      rcases hplan with ⟨-, hplan⟩ | ⟨-, rfl⟩
      · exact h.chargePlan hplan
      · exact h
  | batchDebit items envelope retention now =>
    rcases batchDebit_eq_ok hstep with rfl | ⟨_, _, entries, s₁, -, hitems, _, hwrite⟩
    · exact h
    · refine Sheltered.writeRecord ?_ hwrite
      rcases hitems with ⟨-, hitems⟩ | ⟨-, rfl⟩
      · refine foldlM_invariant (I := fun done => done.2.Sheltered) ?_ hitems h
        rintro done ⟨m, decision⟩ - done' hi happly
        simp only [applyItem, ok_iffs, Prod.exists] at happly
        obtain ⟨moved, s₂, hplan, rfl⟩ := happly
        exact hi.chargePlan hplan
      · exact h
  | acquireLease m token ttl leaseCap now =>
    rcases acquireLease_eq_ok hstep with rfl | ⟨s₁, hinsert, _, hwrite⟩
    · exact h
    · refine Sheltered.writeRecord ?_ hwrite
      rcases hinsert with rfl | ⟨decision, entries, s₂, _, -, -, hplan, hinsert⟩
      · exact h
      · exact h.acquireLease rfl hplan hinsert
  | settleLease token settlement tenantId key payloadHash retention now =>
    rcases settleLease_eq_ok hstep with rfl | ⟨lease, kept, entries, s₁, write, attribution, _, -,
      -, hkept, hfold, hwrite⟩
    · exact h
    · exact (h.settleLease (keptOf_bounded hkept) hfold).writeRecord hwrite
  | reclaimExpiredLeases batchSize before => exact h.resolveLeases hstep
  | deactivateQuota quotaId now =>
    simp only [step, deactivateQuota, bind_eq_ok_iff] at hstep
    obtain ⟨quota, -, hfold⟩ := hstep
    exact (h.setQuota quotaId _).resolveLeases hfold
  | updateQuota quotaId update now =>
    obtain ⟨quota, consumed, s₁, -, hconsumed, -, rfl⟩ := updateQuota_eq_ok hstep
    refine Sheltered.setQuota ?_ quotaId _
    rcases consumedUnderLock_eq_ok hconsumed with ⟨row, -, hcredit⟩ | ⟨-, -, rfl⟩
    · exact h.creditNothing hcredit
    · exact h
  | rollback => exact absurd trivial hnot
  | credit quotaId amount tenantId subjectKey key payloadHash retention now =>
    exact h.applyCredit hspare hstep

theorem sheltered_empty : empty.Sheltered :=
  ⟨⟨⟨nodup_nil, nodup_nil, nofun, nodup_nil, nofun⟩, fun _ => le_rfl⟩, nofun⟩

/-- The other expired holds of the row that returning a hold gives back in the same write. -/
def besides (s : Store) (hold : Hold) (now : ℤ) : ℕ :=
  (s.markHoldReturned hold.leaseToken hold.key.quotaId now).2.unreturnedExpired hold.key now

/-- Whoever returns a hold lowers the counter by exactly what the hold amounts to. -/
structure ReturnsExactly (s : Store) : Prop where
  /-- A reader under the lock returns expired holds. -/
  lazily : ∀ key now v s', s.creditCounter key 0 now = .ok (v, s') →
    s'.stored key + s.unreturnedExpired key now = s.stored key
  /-- A debit returns expired holds and charges on top. -/
  charging : ∀ quota amount now entry crossing s',
    s.debitCounter quota amount now = .ok (entry, crossing, s') →
      s'.stored entry.key + s.unreturnedExpired entry.key now = s.stored entry.key + amount
  /-- A sweep or a deactivation returns a whole hold. -/
  giving : ∀ hold ∈ s.holds, hold.Unreturned → 0 < hold.heldAmount → ∀ now s',
    giveBack now s hold = .ok s' →
      s'.stored hold.key + hold.heldAmount + s.besides hold now = s.stored hold.key
  /-- A release returns a whole hold, a commit what it does not keep. -/
  settling : ∀ hold ∈ s.holds, hold.Unreturned → ∀ kept < hold.heldAmount,
    ∀ now entries done', settleHold now (entries, s) (hold, kept) = .ok done' →
      done'.2.stored hold.key + (hold.heldAmount - kept) + s.besides hold now = s.stored hold.key

/-- A credit that fits beside the holds of its row lowers the counter by exactly its amount and
what the expired holds amount to. -/
theorem stored_creditCounter (hc : s.Covered) (hle : (amount : ℤ) ≤ s.used key)
    (h : s.creditCounter key amount now = .ok (v, s')) :
    s'.stored key + amount + s.unreturnedExpired key now = s.stored key := by
  obtain ⟨row, hrow, rfl, rfl, rfl⟩ := creditCounter_eq_ok hc.1 h
  have hfind : (s.returnExpiredHolds row.key now).2.findRow row.key = some row :=
    findRow_of_mem hc.1.stampHolds hrow
  have hheld : s.unreturnedExpired row.key now ≤ s.held row.key := unreturnedExpired_le_held
  have hvalue := stored_of_mem hc.1 hrow
  rw [stored_writeCounter (by rw [hfind]; rfl), if_pos rfl]
  rw [used] at hle
  omega

theorem stored_debitCounter {entry : AppliedEntry} {crossing : Option ThresholdCrossing}
    (hc : s.Covered) (h : s.debitCounter quota amount now = .ok (entry, crossing, s')) :
    s'.stored entry.key + s.unreturnedExpired entry.key now = s.stored entry.key + amount := by
  obtain ⟨row, s₁, marker, hcharged, rfl, rfl⟩ := debitCounter_eq_ok h
  have hc₁ : s₁.Covered := ⟨hcharged.keyed hc.1, hcharged.used_eq ▸ hc.2⟩
  have hfind : (s₁.returnExpiredHolds row.key now).2.findRow row.key = some row :=
    findRow_of_mem hc₁.1.stampHolds hcharged.mem
  have hle : s₁.unreturnedExpired row.key now ≤ row.value := hc₁.expired_le hcharged.mem
  have hvalue := stored_of_mem hc₁.1 hcharged.mem
  -- opening a row changes neither what is stored nor which holds have expired
  have hsame : s₁.stored row.key = s.stored row.key ∧
      s₁.unreturnedExpired row.key now = s.unreturnedExpired row.key now := by
    cases hcharged with
    | opened _ _ _ => exact ⟨stored_addRow rfl _, rfl⟩
    | _ => exact ⟨rfl, rfl⟩
  rw [stored_writeCounter (by rw [hfind]; rfl), if_pos rfl, ← hsame.1, ← hsame.2]
  omega

theorem heldAmount_le_used {hold : Hold} (hc : s.Covered) (hh : hold ∈ s.holds)
    (hu : hold.Unreturned) (now : ℤ) : (hold.heldAmount : ℤ) ≤
      (s.markHoldReturned hold.leaseToken hold.key.quotaId now).2.used hold.key := by
  have howed : s.owed hold now = hold.heldAmount :=
    if_pos (decide_eq_true ⟨hold, hh, ⟨rfl, rfl⟩, hu⟩)
  rw [used_markHoldReturned hc.1 (mem_map_of_mem hh), Pi.add_apply, Pi.single_eq_same]
  have := hc.2 hold.key
  omega

theorem Covered.returnsExactly (hc : s.Covered) : s.ReturnsExactly where
  lazily := by
    intro key now v s' h
    simpa using stored_creditCounter hc (hc.2 key) h
  charging := fun _ _ _ _ _ _ h => stored_debitCounter hc h
  giving := by
    intro hold hh hu hpos now s' h
    have howed : s.owed hold now = hold.heldAmount :=
      if_pos (decide_eq_true ⟨hold, hh, ⟨rfl, rfl⟩, hu⟩)
    have hhanded := giveBack_handed h
    rw [howed, Handed, if_pos hpos] at hhanded
    obtain ⟨v, hcredit⟩ := hhanded
    exact stored_creditCounter (hc.markHoldReturned (mem_map_of_mem hh))
      (heldAmount_le_used hc hh hu now) hcredit
  settling := by
    intro hold hh hu kept hkept now entries done' h
    obtain ⟨-, -, hhanded, -⟩ := settleHold_handed h
    rw [Handed, if_pos (by omega)] at hhanded
    obtain ⟨v, hcredit⟩ := hhanded
    have hle := heldAmount_le_used hc hh hu now
    exact stored_creditCounter (hc.markHoldReturned (mem_map_of_mem hh)) (by omega) hcredit

end Store

/-- **Returns are exact while credits spare the holds.**  In every history of transactions other
than rollbacks whose credits meet no live hold or fit beside the holds of their row, every counter
is at least its holds, and whoever returns a hold lowers the counter by exactly its amount. -/
theorem returns_exact_while_credits_spare_holds {events : List Event} {s : Store}
    (hrun : Machine.run Store.step Store.empty events = .ok s)
    (hkinds : ∀ e ∈ events, ¬ e.IsRollback)
    (hspare : Machine.AllSteps Store.step CreditSpares Store.empty events) :
    (∀ row ∈ s.rows, s.held row.key ≤ row.value) ∧ s.ReturnsExactly := by
  have hsheltered : s.Sheltered :=
    Machine.run_guarded (fun s e s' hi hcond hstep => Store.sheltered_step hi hcond.1 hcond.2 hstep)
      hrun (hspare.and_forall hkinds) Store.sheltered_empty
  refine ⟨fun row hrow => ?_, hsheltered.1.returnsExactly⟩
  have hused := hsheltered.1.2 row.key
  rw [Store.used, Store.stored_of_mem hsheltered.1.1 hrow] at hused
  omega

/-! ### A credit that eats a hold -/

/-- A quota of seats. -/
def seats (cap : ℕ) (thresholds : List ℕ) : Quota :=
  ⟨1, 7, ⟨"user", "u"⟩, "seats", .allocation, none, some cap, thresholds, none, true⟩

/-- An operation under the built-in engine, with the default retention of 24 hours. -/
def sampleMutation (metric : String) (amount : ℕ) (operation : OperationType) (key : String) :
    EvaluatedMutation where
  applicable := ⟨7, metric, [⟨"user", "u"⟩]⟩
  userProjection := none
  amount := amount
  idempotency := ⟨⟨7, 0, operation, key⟩, 0⟩
  authorized := 0
  engineId := mostRestrictiveId
  evaluate := fun context => .ok (mostRestrictive context)
  retention := 86400

/-- Hold five seats, then credit five. -/
def creditedHold : List Event :=
  [.createQuota (seats 100 []),
    .acquireLease (sampleMutation "seats" 5 .reserve "hold") 9 60000000000 10 0,
    .credit 1 5 7 0 "credit" 0 86400 1]

/-- Use three seats, then release the lease. -/
def usedAndReleased : List Event :=
  [.debit (sampleMutation "seats" 3 .debit "use") 2, .settleLease 9 .release 7 "release" 0 86400 3]

/-- **A credit can eat a live hold.**  After five seats are held and five are credited the counter
is zero with five seats still held; three seats that are used next disappear from the counter when
the lease is released, while their movement stays on record. -/
theorem credit_erases_usage : ∃ s s', Machine.run Store.step Store.empty creditedHold = .ok s ∧
      (∃ row ∈ s.rows, row.value < s.held row.key) ∧
      Machine.run Store.step s usedAndReleased = .ok s' ∧
      s'.stored ⟨1, none⟩ = 0 ∧ s'.held ⟨1, none⟩ = 0 ∧
      ∃ record ∈ s'.records, record.reversedByKey = none ∧
        entriesOn record.moved ⟨1, none⟩ = 3 := by
  simp only [exists_and_left]
  decide +kernel

/-- A history whose credit fits: seven seats are used, five more are held, and seven are credited
before the lease is released. -/
theorem returns_exact_while_credits_spare_holds_sample : ∃ s, Machine.run Store.step Store.empty
        [.createQuota (seats 100 []), .debit (sampleMutation "seats" 7 .debit "use") 0,
          .acquireLease (sampleMutation "seats" 5 .reserve "hold") 9 60000000000 10 1,
          .credit 1 7 7 0 "credit" 0 86400 2] = .ok s ∧
      s.stored ⟨1, none⟩ = 5 ∧ s.held ⟨1, none⟩ = 5 ∧
      (∀ row ∈ s.rows, s.held row.key ≤ row.value) ∧ s.ReturnsExactly := by
  refine exists_ok_of (P := fun s => s.stored ⟨1, none⟩ = 5 ∧ s.held ⟨1, none⟩ = 5)
    (by decide +kernel) fun s hs hfacts => ⟨hfacts.1, hfacts.2,
      returns_exact_while_credits_spare_holds hs ?_ ?_⟩
  · simp [Event.IsRollback]
  · decide +kernel

end Gears.Quotas
