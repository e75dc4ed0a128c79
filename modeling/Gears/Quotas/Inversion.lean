import Gears.Quotas.Transactions

/-!
# What a committed transaction did

One lemma for each transaction takes a committed run apart: it either left the tables alone or
made the pieces listed.
-/

namespace Gears.Quotas.Store

open Except

variable {retention payloadHash : ℕ} {write : IdempotencyWrite}
  {s s' : Store} {now : ℤ} {m : EvaluatedMutation}

theorem replayOf_eq_none (h : s.replayOf write now = .ok none) :
    s.findRecord write.scope now = none := by
  unfold replayOf at h
  cases hfind : s.findRecord write.scope now with
  | none => rfl
  | some record =>
    simp only [hfind] at h
    split at h <;> cases h

theorem debit_eq_ok (hstep : s.step (.debit m now) = .ok s') : s' = s ∨ ∃ decision entries s₁,
      decideOn ((s.lockApplicable m.applicable).map (s.snapshotOf now)) m now = .ok decision ∧
      (decision.result = .allowed ∧
        s.applyPlan (s.lockApplicable m.applicable) decision now = .ok (entries, s₁) ∨
          entries = [] ∧ s₁ = s) ∧
      ∃ deadline, s₁.writeRecord m.idempotency entries entries (some m.authorized) deadline now =
        .ok s' := by
  obtain ⟨⟨outcome, _⟩, h, rfl⟩ := map_eq_ok_iff.1 hstep
  simp only [debit, bind_eq_ok_iff] at h
  obtain ⟨_ | record, -, h⟩ := h
  case some =>
    cases h
    exact .inl rfl
  simp only [bind_eq_ok_iff] at h
  obtain ⟨decision, hdecide, h⟩ := h
  split at h
  · cases h
    exact .inl rfl
  · refine .inr ⟨decision, ?_⟩
    split at h
    · rename_i hallowed
      simp only [ok_iffs, Prod.exists] at h
      obtain ⟨entries, s₁, hplan, deadline, -, s₂, hwrite, -, rfl⟩ := h
      exact ⟨entries, s₁, hdecide, .inl ⟨hallowed, hplan⟩, deadline, hwrite⟩
    · simp only [ok_iffs, ok_bind] at h
      obtain ⟨deadline, -, s₂, hwrite, -, rfl⟩ := h
      exact ⟨[], s, hdecide, .inr ⟨rfl, rfl⟩, deadline, hwrite⟩

theorem batchDebit_eq_ok {items : List EvaluatedMutation} {envelope : IdempotencyWrite}
    (hstep : s.step (.batchDebit items envelope retention now) = .ok s') :
    s' = s ∨ ∃ decisions snapshots entries s₁,
      items.foldlM (evaluateItem (fun m => s.lockApplicable m.applicable) now)
        ([], (s.quotas.filter fun quota => ∃ m ∈ items,
          quota ∈ s.lockApplicable m.applicable).map (s.snapshotOf now)) =
            .ok (decisions, snapshots) ∧
      ((∀ decision ∈ decisions, decision.result = .allowed) ∧
        (items.zip decisions).foldlM (applyItem (fun m => s.lockApplicable m.applicable) now)
          ([], s) = .ok (entries, s₁) ∨ entries = [] ∧ s₁ = s) ∧
      ∃ deadline, s₁.writeRecord envelope [] entries none deadline now = .ok s' := by
  obtain ⟨⟨outcome, _⟩, h, rfl⟩ := map_eq_ok_iff.1 hstep
  simp only [batchDebit, bind_eq_ok_iff] at h
  obtain ⟨_ | record, -, h⟩ := h
  case some =>
    cases h
    exact .inl rfl
  simp only [bind_eq_ok_iff, Prod.exists] at h
  obtain ⟨decisions, snapshots, hdecide, h⟩ := h
  split at h
  · rename_i hallowed
    simp only [bind_eq_ok_iff, Prod.exists] at h
    obtain ⟨entries, s₁, hplan, h⟩ := h
    -- a batch that was applied holds no denial, so its record is written
    have hnot : ¬ ∃ decision ∈ decisions, decision.deniedReason = some noApplicableQuota := by
      rintro ⟨decision, hd, hreason⟩
      simp [Decision.deniedReason, hallowed decision hd] at hreason
    rw [if_neg hnot] at h
    simp only [ok_iffs] at h
    obtain ⟨deadline, -, s₂, hwrite, -, rfl⟩ := h
    exact .inr ⟨decisions, snapshots, entries, s₁, hdecide, .inl ⟨hallowed, hplan⟩, deadline,
      hwrite⟩
  · simp only [ok_bind] at h
    split at h
    · cases h
      exact .inl rfl
    · simp only [ok_iffs] at h
      obtain ⟨deadline, -, s₂, hwrite, -, rfl⟩ := h
      exact .inr ⟨decisions, snapshots, [], s, hdecide, .inr ⟨rfl, rfl⟩, deadline, hwrite⟩

/-- The lease that an acquisition inserts. -/
def acquired (m : EvaluatedMutation) (token : Uuid) (expiry : ℤ) : Lease :=
  ⟨token, m.applicable.tenantId, m.applicable.metric, m.idempotency.scope.subjectKey, m.authorized,
    .active, m.amount, expiry⟩

theorem acquireLease_eq_ok {token : Uuid} {ttl leaseCap : ℕ}
    (hstep : s.step (.acquireLease m token ttl leaseCap now) = .ok s') : s' = s ∨ ∃ s₁,
      (s₁ = s ∨ ∃ decision entries s₂ expiry,
        decideOn ((s.lockApplicable m.applicable).map (s.snapshotOf now)) m now = .ok decision ∧
        decision.result = .allowed ∧
        s.holdPlan (s.lockApplicable m.applicable) decision now = .ok (entries, s₂) ∧
        s₂.insertLease (acquired m token expiry) entries = .ok s₁) ∧
      ∃ deadline, s₁.writeRecord m.idempotency [] [] (some m.authorized) deadline now =
        .ok s' := by
  obtain ⟨⟨outcome, _⟩, h, rfl⟩ := map_eq_ok_iff.1 hstep
  simp only [acquireLease, bind_eq_ok_iff] at h
  obtain ⟨_ | record, -, h⟩ := h
  case some =>
    cases h
    exact .inl rfl
  simp only [bind_eq_ok_iff] at h
  obtain ⟨decision, hdecide, h⟩ := h
  split at h
  · cases h
    exact .inl rfl
  · split at h
    · rename_i hallowed
      simp only [ok_iffs, exists_const, Prod.exists] at h
      obtain ⟨-, entries, s₂, hplan, expiry, -, s₁, hinsert, deadline, -, s₃, hwrite, -, rfl⟩ := h
      exact .inr ⟨s₁, .inr ⟨decision, entries, s₂, expiry, hdecide, hallowed.1, hplan, hinsert⟩,
        deadline, hwrite⟩
    · simp only [ok_iffs, ok_bind] at h
      obtain ⟨deadline, -, s₂, hwrite, -, rfl⟩ := h
      exact .inr ⟨s, .inl rfl, deadline, hwrite⟩

theorem settleLease_eq_ok {token tenantId : Uuid} {settlement : Settlement} {key : String}
    (hstep : s.step (.settleLease token settlement tenantId key payloadHash retention now) =
      .ok s') :
    s' = s ∨ ∃ lease kept entries s₁ write attribution deadline,
      s.leases.find? (·.token = token) = some lease ∧ lease.Live now ∧
      keptOf ((s.holdsOf token).map (·.heldAmount)) lease.reservedAmount
        (settlement.kept lease.reservedAmount) = .ok kept ∧
      ((s.holdsOf token).zip kept).foldlM (settleHold now) ([], s) = .ok (entries, s₁) ∧
      (s₁.markState token settlement.state).writeRecord write
        (if settlement.operation = .commit then entries else [])
        (if settlement.operation = .commit then entries else []) attribution deadline now =
          .ok s' := by
  obtain ⟨⟨outcome, _⟩, h, rfl⟩ := map_eq_ok_iff.1 hstep
  unfold settleLease at h
  cases hlease : s.leases.find? (·.token = token) with
  | none =>
    rw [hlease] at h
    cases h
  | some lease =>
    simp only [hlease, ok_iffs, exists_const] at h
    obtain ⟨-, replay, -, h⟩ := h
    cases replay with
    | some record =>
      cases h
      exact .inl rfl
    | none =>
      simp only [ok_iffs, exists_const, not_not, Prod.exists] at h
      obtain ⟨hlive, kept, hkept, entries, s₁, hfold, deadline, -, s₂, hwrite, -, rfl⟩ := h
      exact .inr ⟨lease, kept, entries, s₁, _, _, deadline, rfl, hlive, hkept, hfold, hwrite⟩

theorem applyRollback_eq_ok {original : IdempotencyScope} {authorized : ℕ}
    (hstep : s.step (.rollback original authorized write retention now) = .ok s') :
    s' = s ∨ ∃ deadline, s.writeRecord write [] [] none deadline now = .ok s' ∨
      ∃ record s₁ s₂, s.findRecord write.scope now = none ∧
        s.findRecord original now = some record ∧ record.attribution = some authorized ∧
        record.reversedByKey = none ∧
        s.reverseEntries original.key record.entries now = .ok s₁ ∧
        s₁.writeRecord write [] [] none deadline now = .ok s₂ ∧
        s' = s₂.markReversed original write.scope.key := by
  obtain ⟨⟨outcome, _⟩, h, rfl⟩ := map_eq_ok_iff.1 hstep
  simp only [applyRollback, bind_eq_ok_iff] at h
  obtain ⟨_ | record, hreplay, h⟩ := h
  case some =>
    cases h
    exact .inl rfl
  refine .inr ?_
  cases hfind : s.findRecord original now with
  | none =>
    simp only [hfind] at h
    cases h
  | some record =>
    simp only [hfind, ok_iffs, exists_const] at h
    obtain ⟨hauthorized, -, h⟩ := h
    split at h
    · simp only [ok_iffs] at h
      obtain ⟨deadline, -, s₂, hwrite, -, rfl⟩ := h
      exact ⟨deadline, .inl hwrite⟩
    · rename_i hnot
      simp only [ok_iffs] at h
      obtain ⟨s₁, hreverse, deadline, -, s₂, hwrite, -, rfl⟩ := h
      exact ⟨deadline, .inr ⟨record, s₁, s₂, replayOf_eq_none hreplay, rfl, not_not.1 hauthorized,
        by simpa using hnot, hreverse, hwrite, rfl⟩⟩

theorem applyCredit_eq_ok {quotaId tenantId : Uuid} {amount subjectKey : ℕ} {key : String}
    (hstep : s.step (.credit quotaId amount tenantId subjectKey key payloadHash retention now) =
      .ok s') :
    s' = s ∨ ∃ quota rowKey s₁ v s₂ write deadline, s.quotas.find? (·.id = quotaId) = some quota ∧
      s.creditedRow quota now = .ok (rowKey, s₁) ∧
      s₁.creditCounter rowKey amount now = .ok (v, s₂) ∧
      s₂.writeRecord write [] [] none deadline now = .ok s' := by
  obtain ⟨⟨outcome, _⟩, h, rfl⟩ := map_eq_ok_iff.1 hstep
  unfold applyCredit at h
  cases hquota : s.quotas.find? (·.id = quotaId) with
  | none =>
    rw [hquota] at h
    cases h
  | some quota =>
    simp only [hquota, ok_iffs, exists_const] at h
    obtain ⟨-, replay, -, h⟩ := h
    cases replay with
    | some record =>
      cases h
      exact .inl rfl
    | none =>
      simp only [ok_iffs, exists_const, Prod.exists] at h
      obtain ⟨-, rowKey, s₁, hrow, v, s₂, hcredit, deadline, -, s₃, hwrite, -, rfl⟩ := h
      exact .inr ⟨quota, rowKey, s₁, v, s₂, _, deadline, rfl, hrow, hcredit, hwrite⟩

theorem updateQuota_eq_ok {quotaId : Uuid} {update : QuotaUpdate}
    (h : s.updateQuota quotaId update now = .ok s') :
    ∃ quota consumed s₁, s.lockActive quotaId = .ok quota ∧
      s.consumedUnderLock quota now = .ok (consumed, s₁) ∧
      (∀ cap ∈ (update.merge quota).cap, consumed ≤ cap) ∧
      s' = s₁.setQuota quotaId update.merge := by
  simp only [updateQuota, checkMerged, ok_iffs, forSome_eq_ok_iff, exists_const,
    Prod.exists, not_lt] at h
  obtain ⟨quota, hquota, consumed, s₁, hconsumed, ⟨hcap, -⟩, rfl⟩ := h
  exact ⟨quota, consumed, s₁, hquota, hconsumed, hcap, rfl⟩

/-- What an update read: the current row, whose expired holds it gave back, or nothing. -/
theorem consumedUnderLock_eq_ok {quota : Quota} {consumed : ℕ}
    (h : s.consumedUnderLock quota now = .ok (consumed, s')) :
    (∃ row, s.currentRow quota now = some row ∧
        s.creditCounter row.key 0 now = .ok (consumed, s')) ∨
      quota.quotaType = .consumption ∧ s.currentRow quota now = none ∧ s' = s := by
  unfold consumedUnderLock at h
  cases hq : quota.quotaType with
  | allocation =>
    simp only [hq] at h
    cases hrow : s.findRow ⟨quota.id, none⟩ with
    | none =>
      simp only [creditCounter, hrow] at h
      cases h
    | some row =>
      have hkey : row.key = ⟨quota.id, none⟩ := by simpa using List.find?_some hrow
      refine .inl ⟨row, ?_, hkey ▸ h⟩
      simp only [currentRow, hq]
      exact hrow
  | consumption =>
    simp only [hq] at h
    cases hrow : s.currentRow quota now with
    | none =>
      simp only [hrow] at h
      cases h
      exact .inr ⟨rfl, rfl, rfl⟩
    | some row =>
      simp only [hrow] at h
      exact .inl ⟨row, rfl, h⟩

theorem createQuota_eq_ok {quota : Quota} (h : s.createQuota quota = .ok s') :
    (∀ other ∈ s.quotas, other.id ≠ quota.id) ∧
      (quota.quotaType = .consumption ∧
        s' = { s with quotas := s.quotas ++ [{ quota with active := true }] } ∨
      quota.quotaType = .allocation ∧ s.findRow ⟨quota.id, none⟩ = none ∧
        s' = ({ s with quotas := s.quotas ++ [{ quota with active := true }] } : Store).addRow
          ⟨quota.id, none, 0, none, false⟩) := by
  simp only [createQuota, ok_iffs, exists_const] at h
  obtain ⟨hfresh, h⟩ := h
  refine ⟨fun other hother hid => hfresh ⟨other, hother, hid⟩, ?_⟩
  split at h
  · rename_i hq
    simp only [ok_iffs, exists_const] at h
    obtain ⟨hnone, rfl⟩ := h
    exact .inr ⟨hq, Option.not_isSome_iff_eq_none.1 hnone, rfl⟩
  · rename_i hq
    cases h
    refine .inl ⟨?_, rfl⟩
    cases hc : quota.quotaType with
    | consumption => rfl
    | allocation => exact absurd hc hq

end Gears.Quotas.Store
