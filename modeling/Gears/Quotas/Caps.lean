import Gears.Quotas.Visible

/-!
# Caps

* `Store.Capped` : no row lies in the future, and rows that have not ended stay under their caps.
* `Capped.debitCounter` : a charge that fits into what an evaluation saw keeps caps.
* `Capped.applyItems` : the items of a batch, each evaluated against the plans before it.
-/

namespace Gears.Quotas

open Except List

variable {quotasOf : EvaluatedMutation → List Quota} {items : List EvaluatedMutation}
  {before : List AppliedEntry} {decision : Decision} {union : List Quota}

/-- The engine of a mutation is the built-in one. -/
def EvaluatedMutation.MostRestrictiveWins (m : EvaluatedMutation) : Prop :=
  m.evaluate = fun context => .ok (mostRestrictive context)

namespace Store

variable {s s' s'' s₀ : Store} {key : RowKey} {row : CounterRow} {now : ℤ} {quota : Quota}
  {hold : Hold} {entries : List AppliedEntry}

/-- **No row lies in the future of `now`, and no row that has not ended stores more than its
quota's cap.** -/
structure Capped (s : Store) (now : ℤ) : Prop where
  started : s.Started now
  capped : ∀ quota ∈ s.quotas, ∀ cap ∈ quota.cap, ∀ row ∈ s.rows, row.quotaId = quota.id →
    ¬ row.HasElapsed now → row.value ≤ cap

theorem Capped.mono (h : s.Capped now) {t : ℤ} (ht : now ≤ t) : s.Capped t := by
  refine ⟨fun row hrow w hw => (h.started row hrow w hw).trans ht, ?_⟩
  intro quota hq cap hcap row hrow hid hnot
  refine h.capped quota hq cap hcap row hrow hid ?_
  rintro ⟨w, hw, helapsed⟩
  exact hnot ⟨w, hw, le_trans helapsed ht⟩

theorem Capped.lowered (h : s.Capped now) (hl : Lowered s s') : s'.Capped now := by
  refine ⟨fun row' hrow' w hw => ?_, ?_⟩
  · obtain ⟨row, hrow, -, hwin, -⟩ := hl.rows row' hrow'
    exact h.started row hrow w (hwin ▸ hw)
  · intro quota hq cap hcap row' hrow' hid hnot
    obtain ⟨row, hrow, hid', hwin, hle⟩ := hl.rows row' hrow'
    refine hle.trans (h.capped quota (hl.quotas ▸ hq) cap hcap row hrow (hid'.trans hid) ?_)
    simpa only [CounterRow.HasElapsed, hwin] using hnot

theorem Capped.consumed_le (h : s.Capped now) (hl : s.Legible now) (hq : quota ∈ s.quotas) {cap : ℕ}
    (hcap : cap ∈ quota.cap) : (s.snapshotOf now quota).consumed ≤ cap := by
  cases hrow : s.currentRow quota now with
  | none =>
    rw [consumed_of_none hrow]
    exact Nat.zero_le _
  | some row =>
    obtain ⟨hmem, hread⟩ := (currentRow_eq_some_iff hl hq).1 hrow
    rw [consumed_of_read hl hq hmem hread]
    exact (Nat.sub_le _ _).trans
      (h.capped quota hq cap hcap row hmem hread.1 hread.not_elapsed)

variable {amount : ℕ} {snapshots : List QuotaSnapshot} {quotaId : Uuid}

/-- **A charge that fits into what an evaluation saw keeps caps.** -/
theorem Capped.debitCounter {entry : AppliedEntry}
    {crossing : Option ThresholdCrossing} (h : s.Capped now) (hl : s.Legible now)
    (hq : quota ∈ s.quotas) (hreg : ReadsRegular quota now)
    (hfits : ∀ cap ∈ quota.cap, (s.snapshotOf now quota).consumed + amount ≤ cap)
    (hdebit : s.debitCounter quota amount now = .ok (entry, crossing, s')) : s'.Capped now := by
  have hlegible := (snapshotOf_debitCounter hl hq hreg hdebit).1
  refine ⟨hlegible.started, ?_⟩
  obtain ⟨row, s₁, marker, hcharged, -, rfl⟩ := debitCounter_eq_ok hdebit
  obtain ⟨hread, hconsumed, h₁⟩ := hcharged.readAt hl hq hreg
  have hquotas : s₁.quotas = s.quotas := (Later.charged hcharged).quotas
  intro q hq' cap hcap r hr hid hnot
  have hq' : q ∈ s.quotas := hquotas ▸ hq'
  obtain ⟨r₀, hr₀, rfl⟩ := mem_map.1 hr
  by_cases hkey : r₀.key = row.key
  · rw [if_pos hkey] at hid ⊢
    have hsame : q = quota := by
      refine inj_on_of_nodup_map hl.placed.quotaIds hq' hq ?_
      exact hid.symm.trans ((congrArg RowKey.quotaId hkey).trans hread.1)
    subst hsame
    rw [hconsumed] at hfits
    exact hfits cap hcap
  · rw [if_neg hkey] at hid hnot ⊢
    exact h.capped q hq' cap hcap r₀ ((hcharged.mem_iff_of_ne hkey).1 hr₀) hid hnot

/-- An allowed mutation charges its whole amount to one quota that was seen to take it. -/
theorem decideOn_mostRestrictive {m : EvaluatedMutation} (hm : m.MostRestrictiveWins)
    (h : decideOn snapshots m now = .ok decision) (hallowed : decision.result = .allowed) :
    ∃ snapshot ∈ snapshots, Satisfiable m.amount snapshot ∧
      decision.debitPlan = .single snapshot.quotaId m.amount := by
  have hevaluate : m.evaluate = fun context => .ok (mostRestrictive context) := hm
  simp only [decideOn, hevaluate, ok_iffs, ok.injEq] at h
  obtain ⟨_, rfl, h⟩ := h
  simp only [EvaluationOutcome.validate, ok_iffs] at h
  obtain ⟨_, -, _, -, rfl⟩ := h
  obtain ⟨q, hq, hsat, hplan⟩ := mostRestrictive_allowed hallowed
  obtain ⟨snapshot, hsnapshot, rfl⟩ := mem_map.1 hq
  exact ⟨snapshot, hsnapshot, hsat, hplan⟩

theorem Charging.legible (hc : Charging s₀ now entries s) (h : s.Capped now) : s.Legible now :=
  ⟨hc.balanced.keyed, hc.placed, h.started⟩

/-- What an evaluation sees after `amount` was charged to a quota. -/
def SeesCharge (s s' : Store) (now : ℤ) (quotaId : Uuid) (amount : ℕ) : Prop :=
  ∀ q ∈ s.quotas, s'.snapshotOf now q = if q.id = quotaId then
      { s.snapshotOf now q with consumed := (s.snapshotOf now q).consumed + amount }
    else s.snapshotOf now q

/-- **A plan of one charge that the engine saw to fit keeps caps**, and evaluations see the charge
and nothing else. -/
theorem Capped.chargePlan {settles : Quota → Bool} {missing : Uuid → StorageError}
    {quotas : List Quota} (hc : Charging s₀ now before s) (h : s.Capped now)
    (hquotas : ∀ quota ∈ quotas, quota ∈ s₀.quotas ∧ ReadsRegular quota now) (hq : quota ∈ s.quotas)
    (hsat : Satisfiable amount (s.snapshotOf now quota))
    (hplan : s.chargePlan settles missing quotas (.single quota.id amount) now = .ok (entries, s'))
    : s'.Capped now ∧ SeesCharge s s' now quota.id amount := by
  simp only [Store.chargePlan, DebitPlan.single, foldlM_cons, foldlM_nil, ok_iffs]
    at hplan
  obtain ⟨_, hentry, rfl⟩ := hplan
  obtain ⟨q, hqmem, hid, entry, crossing, s₂, hdebit, heq⟩ := chargeEntry_eq_ok hentry
  cases heq
  obtain ⟨hqs, hreg⟩ := hquotas q hqmem
  have hsame : q = quota := by
    refine inj_on_of_nodup_map hc.placed.quotaIds (hc.later.quotas ▸ hqs) hq hid
  subst hsame
  obtain ⟨s₁, hs₁⟩ : ∃ s₁, s₁ = if settles q then s.settleElapsedRows q now else s := ⟨_, rfl⟩
  rw [← hs₁] at hdebit
  have hl := hc.legible h
  have hsettled : s₁.Legible now ∧ s₁.Capped now ∧ s₁.quotas = s.quotas ∧
      ∀ quota ∈ s.quotas, s₁.snapshotOf now quota = s.snapshotOf now quota := by
    split at hs₁
    · subst hs₁
      obtain ⟨hl₁, hsnap⟩ := snapshotOf_settleElapsedRows hl
      exact ⟨hl₁, h.lowered Lowered.settleElapsedRows, Later.settleElapsedRows.quotas, hsnap⟩
    · subst hs₁
      exact ⟨hl, h, rfl, fun _ _ => rfl⟩
  obtain ⟨hl₁, h₁, hquotas₁, hsnap⟩ := hsettled
  have hq₁ : q ∈ s₁.quotas := hquotas₁ ▸ hq
  have hfits : ∀ cap ∈ q.cap, (s₁.snapshotOf now q).consumed + amount ≤ cap := by
    intro cap hcap
    have hle := h.consumed_le hl hq hcap
    have hroom : amount ≤ cap - (s.snapshotOf now q).consumed := by
      refine hsat _ ?_
      rw [QuotaSnapshot.remaining, Option.mem_map]
      exact ⟨cap, hcap, rfl⟩
    rw [hsnap q hq]
    omega
  refine ⟨h₁.debitCounter hl₁ hq₁ hreg hfits hdebit, fun q' hq' => ?_⟩
  rw [(snapshotOf_debitCounter hl₁ hq₁ hreg hdebit).2 q' (hquotas₁ ▸ hq'), hsnap q' hq']

theorem evaluateItems_append {done : List Decision × List QuotaSnapshot} {decisions : List Decision}
    (h : items.foldlM (evaluateItem quotasOf now) done = .ok (decisions, snapshots)) :
    ∃ rest, decisions = done.1 ++ rest := by
  refine foldlM_invariant (I := fun d => ∃ rest, d.1 = done.1 ++ rest) ?_ h
    ⟨[], (append_nil _).symm⟩
  rintro d m - d' ⟨rest, hrest⟩ hstep
  simp only [evaluateItem, ok_iffs] at hstep
  obtain ⟨decision, -, rfl⟩ := hstep
  exact ⟨rest ++ [decision], by rw [hrest, append_assoc]⟩

/-- What later items of a batch are evaluated against is what applying the item leaves. -/
theorem planOnto_eq (hallowed : decision.result = .allowed)
    (hplan : decision.debitPlan = .single quotaId amount)
    (hsees : SeesCharge s s' now quotaId amount) (hunion : ∀ quota ∈ union, quota ∈ s.quotas) :
    planOnto decision (union.map (s.snapshotOf now)) = union.map (s'.snapshotOf now) := by
  rw [planOnto, if_pos hallowed, map_map]
  refine map_congr_left fun q hq => ?_
  rw [hsees q (hunion q hq), hplan]
  by_cases hid : q.id = quotaId
  · simp [DebitPlan.single, snapshotOf, hid]
  · have hid' : quotaId ≠ q.id := fun h => hid h.symm
    simp [DebitPlan.single, snapshotOf, hid, hid']

/-- **The items of a batch keep caps**: each was evaluated against the plans before it. -/
theorem Capped.applyItems {decided rest : List Decision} (hc : Charging s₀ now before s)
    (h : s.Capped now) (hunion : ∀ quota ∈ union, quota ∈ s₀.quotas)
    (hquotas : ∀ m ∈ items, ∀ quota ∈ quotasOf m, quota ∈ s₀.quotas ∧ ReadsRegular quota now)
    (hengine : ∀ m ∈ items, m.MostRestrictiveWins)
    (heval : items.foldlM (evaluateItem quotasOf now) (decided, union.map (s.snapshotOf now)) =
      .ok (decided ++ rest, snapshots))
    (hallowed : ∀ decision ∈ rest, decision.result = .allowed)
    (happly : (items.zip rest).foldlM (applyItem quotasOf now) (before, s) = .ok (entries, s')) :
    s'.Capped now := by
  induction items generalizing s before decided rest with
  | nil =>
    cases happly
    exact h
  | cons m items ih =>
    rw [foldlM_cons, bind_eq_ok_iff] at heval
    obtain ⟨done, hitem, heval⟩ := heval
    simp only [evaluateItem, ok_iffs] at hitem
    obtain ⟨decision, hdecide, rfl⟩ := hitem
    obtain ⟨rest', hrest⟩ := evaluateItems_append heval
    obtain rfl : rest = decision :: rest' := by
      simpa [append_assoc] using hrest
    rw [zip_cons_cons, foldlM_cons, bind_eq_ok_iff] at happly
    obtain ⟨_, hfirst, happly⟩ := happly
    simp only [applyItem, ok_iffs, Prod.exists] at hfirst
    obtain ⟨moves, s₁, hplan, rfl⟩ := hfirst
    have hresult := hallowed decision mem_cons_self
    obtain ⟨snapshot, hsnapshot, hsat, hsingle⟩ :=
      decideOn_mostRestrictive (hengine m mem_cons_self) hdecide hresult
    -- the quota that was charged, as the store before this item has it
    obtain ⟨_, -, hfind⟩ := mem_filterMap.1 hsnapshot
    obtain ⟨q, hq, rfl⟩ := mem_map.1 (mem_of_find?_eq_some hfind)
    have hqs : q ∈ s.quotas := hc.later.quotas ▸ hunion q hq
    have hcharged := hquotas m mem_cons_self
    have hc₁ : Charging s₀ now (before ++ moves) s₁ := hc.chargePlan hcharged hplan
    rw [applyPlan, hsingle] at hplan
    obtain ⟨h₁, hsees⟩ := Capped.chargePlan hc h hcharged hqs hsat hplan
    have hrest' : items.foldlM (evaluateItem quotasOf now)
        (decided ++ [decision], union.map (s₁.snapshotOf now)) =
          .ok ((decided ++ [decision]) ++ rest', snapshots) := by
      rw [planOnto_eq hresult hsingle hsees
        fun quota hquota => hc.later.quotas ▸ hunion quota hquota] at heval
      simpa [append_assoc] using heval
    exact ih hc₁ h₁ (fun m' hm' => hquotas m' (mem_cons_of_mem _ hm'))
      (fun m' hm' => hengine m' (mem_cons_of_mem _ hm')) hrest'
      (fun d hd => hallowed d (mem_cons_of_mem _ hd)) happly

theorem Capped.setQuota (h : s.Capped now) (quotaId : Uuid) {f : Quota → Quota}
    (hid : ∀ quota, (f quota).id = quota.id)
    (hcap : ∀ quota ∈ s.quotas, quota.id = quotaId → ∀ cap ∈ (f quota).cap, ∀ row ∈ s.rows,
      row.quotaId = quotaId → ¬ row.HasElapsed now → row.value ≤ cap) :
    (s.setQuota quotaId f).Capped now := by
  refine ⟨h.started, ?_⟩
  intro q hq cap hc row hrow hrid hnot
  obtain ⟨quota, hquota, rfl⟩ := mem_map.1 hq
  split at hc
  · rename_i heq
    rw [if_pos heq, hid, heq] at hrid
    exact hcap quota hquota heq cap hc row hrow hrid hnot
  · rename_i hne
    rw [if_neg hne] at hrid
    exact h.capped quota hquota cap hc row hrow hrid hnot

theorem Capped.createQuota (h : s.Capped now) (hp : s.Placed)
    (hcreate : s.createQuota quota = .ok s') : s'.Capped now := by
  obtain ⟨hfresh, hcases⟩ := createQuota_eq_ok hcreate
  -- a new quota has no rows, because rows belong to quotas that are there
  have hnone : ∀ row ∈ s.rows, row.quotaId ≠ quota.id := by
    intro row hrow hid
    obtain ⟨q, hq, hqid, -⟩ := hp.located row hrow
    exact hfresh q hq (hqid.trans hid)
  have hcapped : ∀ q ∈ s.quotas ++ [({ quota with active := true } : Quota)], ∀ cap ∈ q.cap,
      ∀ row ∈ s.rows, row.quotaId = q.id → ¬ row.HasElapsed now → row.value ≤ cap := by
    intro q hq cap hcap row hrow hid hnot
    rcases mem_concat_iff.1 hq with hq | rfl
    · exact h.capped q hq cap hcap row hrow hid hnot
    · exact absurd hid (hnone row hrow)
  rcases hcases with ⟨-, rfl⟩ | ⟨-, -, rfl⟩
  · exact ⟨h.started, hcapped⟩
  · refine ⟨fun row hrow w hw => ?_, fun q hq cap hcap row hrow hid hnot => ?_⟩
    · rcases mem_concat_iff.1 hrow with hrow | rfl
      · exact h.started row hrow w hw
      · cases hw
    · rcases mem_concat_iff.1 hrow with hrow | rfl
      · exact hcapped q hq cap hcap row hrow hid hnot
      · exact Nat.zero_le _

/-- A row that has neither ended nor lies in the future is the one that is read. -/
theorem Legible.readAt (h : s.Legible now) (hq : quota ∈ s.quotas) (hrow : row ∈ s.rows)
    (hid : row.quotaId = quota.id) (hnot : ¬ row.HasElapsed now) : ReadAt quota now row := by
  refine ⟨hid, ?_⟩
  have hloc := h.placed.locatedIn hrow hq hid
  cases htype : quota.quotaType with
  | allocation => simpa only [CounterRow.LocatedIn, htype] using hloc
  | consumption =>
    simp only [CounterRow.LocatedIn, htype] at hloc
    obtain ⟨t, -, hw⟩ := hloc
    refine ⟨_, hw, h.started row hrow _ hw, ?_⟩
    by_contra hend
    exact hnot ⟨_, hw, not_lt.1 hend⟩

theorem lockActive_eq_ok (h : s.lockActive quotaId = .ok quota) :
    quota ∈ s.quotas ∧ quota.id = quotaId := by
  unfold lockActive at h
  cases hfind : s.quotas.find? (·.id = quotaId) with
  | none =>
    rw [hfind] at h
    cases h
  | some q =>
    simp only [hfind] at h
    split at h
    · cases h
      exact ⟨mem_of_find?_eq_some hfind, by simpa using find?_some hfind⟩
    · cases h

/-- **A cap update** is checked against the counter that it leaves behind. -/
theorem Capped.updateQuota {update : QuotaUpdate} (h : s.Capped now)
    (hl : s.Legible now) (hupdate : s.updateQuota quotaId update now = .ok s') : s'.Capped now := by
  obtain ⟨quota, consumed, s₁, hlock, hconsumed, hcap, rfl⟩ := updateQuota_eq_ok hupdate
  obtain ⟨hq, rfl⟩ := lockActive_eq_ok hlock
  have hquotas : s₁.quotas = s.quotas ∧ s₁.Capped now ∧ ∀ r ∈ s₁.rows, r.quotaId = quota.id →
      ¬ r.HasElapsed now → r.value = consumed := by
    rcases consumedUnderLock_eq_ok hconsumed with ⟨row, hrow, hcredit⟩ | ⟨-, hnone, rfl⟩
    · refine ⟨(Later.creditCounter hl.keyed hcredit).quotas,
        h.lowered (Lowered.creditCounter hl.keyed hcredit), fun r hr hid hnot => ?_⟩
      obtain ⟨row', -, -, rfl, rfl⟩ := creditCounter_eq_ok hl.keyed hcredit
      obtain ⟨r₀, hr₀, rfl⟩ := mem_map.1 hr
      by_cases hkey : r₀.key = row.key
      · rw [if_pos hkey]
      · rw [if_neg hkey] at hid hnot
        have hread₀ := hl.readAt hq hr₀ hid hnot
        have hcurrent := (currentRow_eq_some_iff hl hq).2 ⟨hr₀, hread₀⟩
        cases hrow.symm.trans hcurrent
        exact absurd rfl hkey
    · refine ⟨rfl, h, fun r hr hid hnot => ?_⟩
      have hread := hl.readAt hq hr hid hnot
      have hcurrent := (currentRow_eq_some_iff hl hq).2 ⟨hr, hread⟩
      cases hnone.symm.trans hcurrent
  obtain ⟨hquotas, h₁, hvalue⟩ := hquotas
  refine h₁.setQuota quota.id (fun _ => rfl) fun q hq' hid cap hcap' row hrow hrid hnot => ?_
  have hsame : q = quota := inj_on_of_nodup_map hl.placed.quotaIds (hquotas ▸ hq') hq hid
  subst hsame
  rw [hvalue row hrow hrid hnot]
  exact hcap cap hcap'

end Store

end Gears.Quotas
