import Gears.Quotas.Usage

/-!
# What the pieces of a transaction do to usage

* `Store.used_giveBack` : giving a hold back leaves usage alone.
* `Store.used_settleHold` : settling a hold turns what is kept into usage.
* `Store.used_insertLease` : inserting the holds of a lease takes their amounts out of usage.
* `Store.Covered` is kept by all of them, by plans and by settlement.
-/

namespace Gears.Quotas

open Except List

variable {planned : Uuid × ℕ}

/-- What never changes about a hold. -/
def Hold.shape (hold : Hold) : Uuid × RowKey × ℕ := (hold.leaseToken, hold.key, hold.heldAmount)

/-- What a list of movements adds to a row. -/
def entriesOn (entries : List AppliedEntry) (key : RowKey) : ℕ :=
  entries.tally (fun entry => entry.key = key) (·.amount)

@[simp] theorem entriesOn_nil (key : RowKey) : entriesOn [] key = 0 := rfl

theorem entriesOn_append (entries more : List AppliedEntry) (key : RowKey) :
    entriesOn (entries ++ more) key = entriesOn entries key + entriesOn more key :=
  List.tally_append

theorem entriesOn_singleton (entry : AppliedEntry) (key : RowKey) :
    (entriesOn [entry] key : ℤ) = (Pi.single entry.key (entry.amount : ℤ) : RowKey → ℤ) key := by
  rw [entriesOn]
  by_cases h : entry.key = key
  · simp [h]
  · simp [h, Ne.symm h]

namespace Store

variable {s s' : Store} {key : RowKey} {row : CounterRow} {now : ℤ} {hold : Hold}

/-- What never changes about the holds of a store. -/
def shapes (s : Store) : List (Uuid × RowKey × ℕ) := s.holds.map Hold.shape

theorem shapes_stampHolds {select : Hold → Prop} [DecidablePred select] :
    (s.stampHolds select now).shapes = s.shapes := by
  rw [shapes, holds_stampHolds, map_map]
  refine map_congr_left fun hold _ => ?_
  simp only [Function.comp_def, Hold.shape, stamped_leaseToken, stamped_key, stamped_heldAmount]

/-! ### One hold -/

theorem eq_of_ofLease (hk : s.Keyed) {h h' : Hold} (hh : h ∈ s.holds) (hh' : h' ∈ s.holds)
    (hsel : ofLease h.leaseToken h.key.quotaId h') : h' = h :=
  inj_on_of_nodup_map hk.holdIds hh' hh (Prod.ext hsel.1 hsel.2)

/-- What a hold still owes to the counter of its row. -/
def owed (s : Store) (hold : Hold) (now : ℤ) : ℕ :=
  if (s.markHoldReturned hold.leaseToken hold.key.quotaId now).1 then hold.heldAmount else 0

/-- **Stamping one hold** turns its amount into usage of its row, unless it was stamped before. -/
theorem used_markHoldReturned (hk : s.Keyed) (hshape : hold.shape ∈ s.shapes) (now : ℤ) :
    (s.markHoldReturned hold.leaseToken hold.key.quotaId now).2.used =
      s.used + Pi.single hold.key (s.owed hold now : ℤ) := by
  obtain ⟨h, hh, heq⟩ := mem_map.1 hshape
  simp only [Hold.shape, Prod.mk.injEq] at heq
  obtain ⟨htoken, hkey, hamount⟩ := heq
  rw [owed, ← htoken, ← hkey, ← hamount]
  funext k
  have hused : (s.markHoldReturned h.leaseToken h.key.quotaId now).2.used k =
      s.used k + s.heldBy (ofLease h.leaseToken h.key.quotaId) k := used_stampHolds k
  rw [hused, Pi.add_apply, Pi.single_apply]
  congr 1
  by_cases hu : h.Unreturned
  · have howed : (s.markHoldReturned h.leaseToken h.key.quotaId now).1 = true :=
      decide_eq_true ⟨h, hh, ⟨rfl, rfl⟩, hu⟩
    rw [if_pos howed]
    -- the lease has one hold on the quota, so the tally has one summand, on the row of the hold
    by_cases hkk : k = h.key
    · subst hkk
      rw [if_pos rfl]
      refine congrArg _ (List.tally_of_unique hk.holdIds hh (by simp [hu, ofLease]) ?_)
      intro b hb hsel
      simp only [Bool.and_eq_true, decide_eq_true_eq] at hsel
      exact congrArg Hold.id (eq_of_ofLease hk hh hb hsel.2)
    · rw [if_neg hkk]
      refine congrArg _ (List.tally_eq_zero fun b hb hsel => ?_)
      simp only [Bool.and_eq_true, decide_eq_true_eq] at hsel
      rw [eq_of_ofLease hk hh hb hsel.2] at hsel
      exact absurd hsel.1.2.symm hkk
  · have howed : (s.markHoldReturned h.leaseToken h.key.quotaId now).1 = false := by
      refine decide_eq_false ?_
      rintro ⟨b, hb, hsel, hub⟩
      exact hu (eq_of_ofLease hk hh hb hsel ▸ hub)
    have hzero : s.heldBy (ofLease h.leaseToken h.key.quotaId) k = 0 := by
      refine List.tally_eq_zero fun b hb hsel => ?_
      simp only [Bool.and_eq_true, decide_eq_true_eq] at hsel
      exact absurd (eq_of_ofLease hk hh hb hsel.2 ▸ hsel.1.1) hu
    rw [hzero, howed]
    simp

theorem Covered.markHoldReturned (hc : s.Covered) (hshape : hold.shape ∈ s.shapes) :
    (s.markHoldReturned hold.leaseToken hold.key.quotaId now).2.Covered :=
  hc.add hc.1.stampHolds (single_nonneg _ _) (used_markHoldReturned hc.1 hshape now)

/-- The hold was stamped, and `back` of it was returned to the counter of its row. -/
def Handed (now : ℤ) (s : Store) (hold : Hold) (back : ℕ) (s' : Store) : Prop :=
  if 0 < back then ∃ v, (s.markHoldReturned hold.leaseToken hold.key.quotaId now).2.creditCounter
    hold.key back now = .ok (v, s')
  else s' = (s.markHoldReturned hold.leaseToken hold.key.quotaId now).2

theorem giveBack_handed (h : giveBack now s hold = .ok s') :
    Handed now s hold (s.owed hold now) s' := by
  simp only [giveBack, bind_eq_ok_iff] at h
  obtain ⟨_, -, h⟩ := h
  unfold Handed owed
  split at h
  · rename_i howed
    simp only [ok_iffs, Prod.exists] at h
    obtain ⟨v, s₁, hcredit, rfl⟩ := h
    rw [if_pos howed.1, if_pos howed.2]
    exact ⟨v, hcredit⟩
  · rename_i hnot
    cases h
    rw [if_neg]
    split_ifs with howed
    · exact fun hpos => hnot ⟨howed, hpos⟩
    · exact lt_irrefl 0

theorem Handed.used {back : ℕ} (h : Handed now s hold back s') (hc : s.Covered)
    (hshape : hold.shape ∈ s.shapes) (hback : back ≤ s.owed hold now) : s'.Keyed ∧
      s'.used = s.used + Pi.single hold.key ((s.owed hold now - back : ℕ) : ℤ) := by
  have hmark := used_markHoldReturned hc.1 hshape now
  have hcov : (s.markHoldReturned hold.leaseToken hold.key.quotaId now).2.Covered :=
    hc.markHoldReturned hshape
  unfold Handed at h
  split at h
  · obtain ⟨v, hcredit⟩ := h
    have hle : (back : ℤ) ≤
        (s.markHoldReturned hold.leaseToken hold.key.quotaId now).2.used hold.key := by
      rw [hmark, Pi.add_apply, Pi.single_eq_same]
      have := hc.2 hold.key
      omega
    obtain ⟨hk, hused⟩ := used_creditCounter hcov hle hcredit
    refine ⟨hk, ?_⟩
    rw [hused, hmark, add_sub_assoc, ← Pi.single_sub, Nat.cast_sub hback]
  · obtain rfl : back = 0 := by omega
    rw [h]
    exact ⟨hcov.1, hmark⟩

theorem used_giveBack (hc : s.Covered) (hshape : hold.shape ∈ s.shapes)
    (h : giveBack now s hold = .ok s') : s'.Keyed ∧ s'.used = s.used := by
  have hused := (giveBack_handed h).used hc hshape le_rfl
  rwa [Nat.sub_self, Nat.cast_zero, Pi.single_zero, add_zero] at hused

variable {done done' : List AppliedEntry × Store} {missing : Uuid → StorageError}
    {quotas : List Quota} {settles : Quota → Bool} {entries : List AppliedEntry} {lease : Lease}

theorem settleHold_handed {kept : ℕ} (h : settleHold now done (hold, kept) = .ok done') :
    done.2.owed hold now = hold.heldAmount ∧
      (∃ h' ∈ done.2.holds, ofLease hold.leaseToken hold.key.quotaId h' ∧ h'.Unreturned) ∧
      Handed now done.2 hold (hold.heldAmount - kept) done'.2 ∧
      ∃ v, done'.1 = if 0 < kept then done.1 ++ [⟨hold.key, kept, v⟩] else done.1 := by
  simp only [settleHold, ok_iffs, exists_const] at h
  obtain ⟨value, -, howed, h⟩ := h
  refine ⟨if_pos (by simpa using howed), by simpa [markHoldReturned] using howed, ?_⟩
  split at h
  · rename_i hpos
    simp only [ok_iffs, Prod.exists] at h
    obtain ⟨v, s₁, hcredit, rfl⟩ := h
    rw [Handed, if_pos hpos]
    exact ⟨⟨v, hcredit⟩, v, rfl⟩
  · rename_i hnot
    cases h
    rw [Handed, if_neg hnot]
    exact ⟨rfl, value, rfl⟩

theorem used_settleHold {kept : ℕ} (hc : done.2.Covered)
    (hshape : hold.shape ∈ done.2.shapes) (hkept : kept ≤ hold.heldAmount)
    (h : settleHold now done (hold, kept) = .ok done') :
    done'.2.Keyed ∧ done'.2.used = done.2.used + Pi.single hold.key (kept : ℤ) ∧
      ∀ k, entriesOn done'.1 k = entriesOn done.1 k + if k = hold.key then kept else 0 := by
  obtain ⟨howed, -, hhanded, v, hentries⟩ := settleHold_handed h
  have hused := hhanded.used hc hshape (by omega)
  rw [howed, Nat.sub_sub_self hkept] at hused
  refine ⟨hused.1, hused.2, fun k => ?_⟩
  rw [hentries]
  split
  · by_cases hk : k = hold.key
    · simp [entriesOn, hk]
    · simp [entriesOn, hk, Ne.symm hk]
  · have : kept = 0 := by omega
    simp [this]

theorem Covered.settleRow (hc : s.Covered) (quota : Quota) :
    (settleRow quota now s row).Covered := by
  obtain ⟨owed, hused, hk⟩ := used_settleRow hc.1 quota now row
  exact hc.add hk (single_nonneg _ _) hused

theorem Covered.settleElapsedRows (hc : s.Covered) (now : ℤ) (quota : Quota) :
    (s.settleElapsedRows quota now).Covered ∧ s.used ≤ (s.settleElapsedRows quota now).used := by
  refine settleElapsedRows_induction quota now hc.1 (P := fun s₁ => s₁.Covered ∧ s.used ≤ s₁.used)
    ⟨hc, le_rfl⟩ fun s₁ row ⟨hc₁, hle⟩ _ => ⟨hc₁.settleRow quota, hle.trans fun k => ?_⟩
  obtain ⟨owed, hused, -⟩ := used_settleRow hc₁.1 quota now row
  rw [hused]
  exact le_add_of_nonneg_right (single_nonneg row.key owed k)

theorem chargeEntry_eq_ok (h : chargeEntry settles missing quotas now done planned = .ok done') :
    ∃ quota ∈ quotas, quota.id = planned.1 ∧ ∃ entry crossing s',
      (if settles quota then done.2.settleElapsedRows quota now else done.2).debitCounter quota
        planned.2 now = .ok (entry, crossing, s') ∧ done' = (done.1 ++ [entry], s') := by
  unfold chargeEntry at h
  split at h
  · cases h
  · rename_i quota hquota
    simp only [ok_iffs, Prod.exists] at h
    obtain ⟨entry, crossing, s', hdebit, rfl⟩ := h
    exact ⟨quota, mem_of_find?_eq_some hquota, by simpa using find?_some hquota,
      entry, crossing, s', hdebit, rfl⟩

/-- The store covers its holds, and the movements of the open transaction on top. -/
def CoveredBeyond (entries : List AppliedEntry) (s : Store) : Prop :=
  s.Covered ∧ ∀ k, (entriesOn entries k : ℤ) ≤ s.used k

theorem CoveredBeyond.chargeEntry (hc : CoveredBeyond done.1 done.2)
    (h : chargeEntry settles missing quotas now done planned = .ok done') :
    CoveredBeyond done'.1 done'.2 := by
  obtain ⟨quota, -, -, entry, crossing, s', hdebit, rfl⟩ := chargeEntry_eq_ok h
  have hsettled : CoveredBeyond done.1
      (if settles quota then done.2.settleElapsedRows quota now else done.2) := by
    split
    · obtain ⟨hc₁, hle⟩ := hc.1.settleElapsedRows now quota
      exact ⟨hc₁, fun k => (hc.2 k).trans (hle k)⟩
    · exact hc
  obtain ⟨hk, hused⟩ := used_debitCounter hsettled.1 hdebit
  refine ⟨hsettled.1.add hk (single_nonneg _ _) hused, fun k => ?_⟩
  rw [hused, entriesOn_append, Nat.cast_add, entriesOn_singleton, Pi.add_apply]
  have := hsettled.2 k
  omega

/-- Charging a plan keeps the holds covered, with the charged amounts on top. -/
theorem CoveredBeyond.chargePlan {plan : DebitPlan} (hc : s.Covered)
    (h : s.chargePlan settles missing quotas plan now = .ok (entries, s')) :
    CoveredBeyond entries s' := by
  have hstart : CoveredBeyond [] s := ⟨hc, fun k => by simpa using hc.2 k⟩
  exact foldlM_invariant (I := fun done => CoveredBeyond done.1 done.2)
    (fun done planned _ done' hi hstep => hi.chargeEntry hstep) h hstart

theorem quotaIds_chargePlan {plan : DebitPlan}
    (h : s.chargePlan settles missing quotas plan now = .ok (entries, s')) :
    entries.map (·.key.quotaId) = plan.entries.map Prod.fst := by
  have hrun := foldlM_induction
    (P := fun charged done => done.1.map (·.key.quotaId) = charged.map Prod.fst) rfl
    (fun charged done planned done' hi hstep => ?_) h
  · exact hrun
  · obtain ⟨quota, -, hid, entry, crossing, s₁, hdebit, rfl⟩ := chargeEntry_eq_ok hstep
    obtain ⟨row, s₂, marker, hcharged, rfl, -⟩ := debitCounter_eq_ok hdebit
    rw [map_append, map_append, hi, map_singleton, map_singleton, ← hid]
    exact congrArg _ (congrArg (fun id => [id]) hcharged.quotaId_eq)

theorem insertLease_eq_ok (h : s.insertLease lease entries = .ok s') :
    (∀ other ∈ s.leases, other.token ≠ lease.token) ∧ s' = { s with
        leases := s.leases ++ [lease]
        holds := s.holds ++
          entries.map fun entry => ⟨lease.token, entry.key, entry.amount, none⟩ } := by
  simp only [insertLease, ok_iffs, exists_const] at h
  obtain ⟨hfresh, -, rfl⟩ := h
  exact ⟨fun other hother htoken => hfresh ⟨other, hother, htoken⟩, rfl⟩

theorem used_insertLease (h : s.insertLease lease entries = .ok s') (k : RowKey) :
    s'.used k = s.used k - entriesOn entries k := by
  obtain ⟨-, rfl⟩ := insertLease_eq_ok h
  have hheld : (entries.map fun entry =>
      (⟨lease.token, entry.key, entry.amount, none⟩ : Hold)).tally
        (fun hold => hold.Unreturned ∧ hold.key = k) (·.heldAmount) = entriesOn entries k := by
    rw [List.tally_map]
    refine List.tally_congr (fun entry _ => ?_) fun _ _ _ => rfl
    simp [Hold.Unreturned]
  simp only [used, held, List.tally_append]
  have hstored : ∀ (leases : List Lease) (holds : List Hold),
      ({ s with leases, holds } : Store).stored k = s.stored k := fun _ _ => rfl
  rw [hstored]
  omega

theorem Keyed.insertLease (hk : s.Keyed)
    (hids : (entries.map (·.key.quotaId)).Nodup) (h : s.insertLease lease entries = .ok s') :
    s'.Keyed := by
  obtain ⟨hfresh, rfl⟩ := insertLease_eq_ok h
  refine ⟨hk.rowKeys, ?_, ?_, hk.givenBackOnce, ?_⟩
  · rw [map_append, nodup_append]
    refine ⟨hk.holdIds, ?_, ?_⟩
    · rw [map_map]
      have : (Hold.id ∘ fun entry : AppliedEntry =>
          (⟨lease.token, entry.key, entry.amount, none⟩ : Hold)) =
          Prod.mk lease.token ∘ fun entry => entry.key.quotaId := rfl
      rw [this, ← map_map]
      exact hids.map (Prod.mk_right_injective _)
    · rintro _ hid _ hid' rfl
      obtain ⟨hold, hhold, heq⟩ := mem_map.1 hid
      obtain ⟨new, hnew, heq'⟩ := mem_map.1 hid'
      obtain ⟨entry, -, rfl⟩ := mem_map.1 hnew
      obtain ⟨other, hother, htoken⟩ := hk.holdLease hold hhold
      exact hfresh other hother (htoken.trans (congrArg Prod.fst (heq.trans heq'.symm)))
  · intro hold hhold
    rcases mem_append.1 hhold with hhold | hhold
    · obtain ⟨other, hother, htoken⟩ := hk.holdLease hold hhold
      exact ⟨other, mem_append_left _ hother, htoken⟩
    · obtain ⟨entry, -, rfl⟩ := mem_map.1 hhold
      exact ⟨lease, mem_append_right _ (mem_singleton_self _), rfl⟩
  · intro id hid
    obtain ⟨hold, hhold, hrest⟩ := hk.givenBackStamped id hid
    exact ⟨hold, mem_append_left _ hhold, hrest⟩

theorem writeRecord_eq_ok {write : IdempotencyWrite} {moved : List AppliedEntry}
    {attribution : Option ℕ} {expiresAt : ℤ}
    (h : s.writeRecord write entries moved attribution expiresAt now = .ok s') :
    (∀ record ∈ (s.deleteExpiredAtKey write.scope now).records, record.scope = write.scope →
      record.deleted = true) ∧ s' = { s with
      records := (s.deleteExpiredAtKey write.scope now).records ++
        [⟨write.scope, write.payloadHash, entries, moved, attribution, none, expiresAt,
          false⟩] } := by
  unfold writeRecord at h
  simp only at h
  split at h
  · cases h
  · rename_i hnone
    cases h
    refine ⟨fun record hr hscope => ?_, rfl⟩
    by_contra hdel
    exact hnone ⟨record, hr, hscope, by simpa using hdel⟩

theorem Keyed.withRecords (hk : s.Keyed) (records : List IdempotencyRecord) :
    ({ s with records } : Store).Keyed := { hk with }

theorem Keyed.withQuotas (hk : s.Keyed) (quotas : List Quota) :
    ({ s with quotas } : Store).Keyed := { hk with }

theorem Keyed.markState (hk : s.Keyed) (token : Uuid) (state : LeaseState) :
    (s.markState token state).Keyed := by
  refine { hk with holdLease := fun hold hhold => ?_ }
  obtain ⟨lease, hlease, htoken⟩ := hk.holdLease hold hhold
  refine ⟨_, mem_map_of_mem hlease, ?_⟩
  split <;> exact htoken

end Store

end Gears.Quotas
