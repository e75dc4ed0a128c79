import Gears.Quotas.Effects
import Gears.Quotas.Inversion

/-!
# What a transaction leaves alone

* `Store.Later` : holds are only stamped; leases, quotas and records stay as they are.  Every
  piece of a transaction up to its last writes is of this kind.
* `Store.Lowered` : counters only went down.
* `Store.Tended` : a hold that nobody has given back belongs to an active lease.
-/

namespace Gears.Quotas.Store

open List

variable {missing : Uuid → StorageError} {amount back : ℕ} {entries : List AppliedEntry}
  {settles : Quota → Bool} {quotas : List Quota}
  {s s' s'' : Store} {key : RowKey} {row : CounterRow} {now : ℤ} {hold : Hold}

/-- Counters moved and holds were stamped; nothing else happened to holds, leases, quotas and
records. -/
structure Later (s s' : Store) : Prop where
  shapes : s'.shapes = s.shapes
  unreturned : ∀ hold ∈ s'.holds, hold.Unreturned → hold ∈ s.holds
  leases : s'.leases = s.leases
  quotas : s'.quotas = s.quotas
  records : s'.records = s.records

namespace Later

theorem refl (s : Store) : Later s s := ⟨rfl, fun _ h _ => h, rfl, rfl, rfl⟩

theorem trans (h : Later s s') (h' : Later s' s'') : Later s s'' where
  shapes := h'.shapes.trans h.shapes
  unreturned := fun hold hh hu => h.unreturned hold (h'.unreturned hold hh hu) hu
  leases := h'.leases.trans h.leases
  quotas := h'.quotas.trans h.quotas
  records := h'.records.trans h.records

theorem stampHolds {select : Hold → Prop} [DecidablePred select] :
    Later s (s.stampHolds select now) where
  shapes := shapes_stampHolds
  unreturned := fun _ hh hu => (of_unreturned_stampHolds hh hu).1
  leases := rfl
  quotas := rfl
  records := rfl

theorem writeCounter {value : ℕ} {marker : Option ℕ} : Later s (s.writeCounter key value marker) :=
  ⟨rfl, fun _ h _ => h, rfl, rfl, rfl⟩

theorem addRow : Later s (s.addRow row) := ⟨rfl, fun _ h _ => h, rfl, rfl, rfl⟩

theorem closeRow {event : PeriodRollover} : Later s (s.closeRow key event) :=
  ⟨rfl, fun _ h _ => h, rfl, rfl, rfl⟩

variable {quota : Quota}

theorem settleRow : Later s (settleRow quota now s row) := by
  unfold Store.settleRow
  split
  · exact refl s
  · exact stampHolds.trans closeRow

theorem settleElapsedRows : Later s (s.settleElapsedRows quota now) :=
  List.foldlRecOn _ _ (refl s) fun _ h _ _ => h.trans settleRow

theorem charged (h : Charged s quota now row s') : Later s s' := by
  cases h with
  | opened _ _ _ => exact addRow
  | _ => exact refl s

theorem debitCounter {entry : AppliedEntry} {crossing : Option ThresholdCrossing}
    (h : s.debitCounter quota amount now = .ok (entry, crossing, s')) : Later s s' := by
  obtain ⟨row, s₁, marker, hcharged, -, rfl⟩ := debitCounter_eq_ok h
  exact (charged hcharged).trans (stampHolds.trans writeCounter)

theorem creditCounter {v : ℕ} (hk : s.Keyed) (h : s.creditCounter key amount now = .ok (v, s')) :
    Later s s' := by
  obtain ⟨row, -, -, -, rfl⟩ := creditCounter_eq_ok hk h
  exact stampHolds.trans writeCounter

theorem handed (hk : s.Keyed) (h : Handed now s hold back s') : Later s s' := by
  unfold Handed at h
  split at h
  · obtain ⟨v, hcredit⟩ := h
    exact stampHolds.trans (creditCounter hk.stampHolds hcredit)
  · rw [h]
    exact stampHolds

theorem chargeEntry {done done' : List AppliedEntry × Store} {planned : Uuid × ℕ}
    (h : chargeEntry settles missing quotas now done planned = .ok done') :
    Later done.2 done'.2 := by
  obtain ⟨quota, -, -, entry, crossing, s', hdebit, rfl⟩ := chargeEntry_eq_ok h
  refine Later.trans ?_ (debitCounter hdebit)
  split
  · exact settleElapsedRows
  · exact refl _

theorem chargePlan {plan : DebitPlan}
    (h : s.chargePlan settles missing quotas plan now = .ok (entries, s')) : Later s s' :=
  Except.foldlM_invariant (I := fun done => Later s done.2)
    (fun _ _ _ _ hi hstep => hi.trans (chargeEntry hstep)) h (refl s)

end Later

/-! ### Counters that go down -/

/-- Counters only went down. -/
structure Lowered (s s' : Store) : Prop where
  quotas : s'.quotas = s.quotas
  rows : ∀ row' ∈ s'.rows, ∃ row ∈ s.rows, row.quotaId = row'.quotaId ∧
    row.window = row'.window ∧ row'.value ≤ row.value

namespace Lowered

theorem of_rows (hrows : s'.rows = s.rows) (hquotas : s'.quotas = s.quotas) : Lowered s s' :=
  ⟨hquotas, fun row hrow => ⟨row, hrows ▸ hrow, rfl, rfl, le_rfl⟩⟩

theorem refl (s : Store) : Lowered s s := of_rows rfl rfl

theorem trans (h : Lowered s s') (h' : Lowered s' s'') : Lowered s s'' := by
  refine ⟨h'.quotas.trans h.quotas, fun row'' hrow'' => ?_⟩
  obtain ⟨row', hrow', hid', hw', hle'⟩ := h'.rows row'' hrow''
  obtain ⟨row, hrow, hid, hw, hle⟩ := h.rows row' hrow'
  exact ⟨row, hrow, hid.trans hid', hw.trans hw', hle'.trans hle⟩

theorem settleRow {quota : Quota} : Lowered s (settleRow quota now s row) := by
  refine ⟨Later.settleRow.quotas, fun r hr => ?_⟩
  rcases mem_settleRow hr with hr | ⟨r₀, hr₀, -, rfl⟩
  · exact ⟨r, hr, rfl, rfl, le_rfl⟩
  · exact ⟨r₀, hr₀, rfl, rfl, le_rfl⟩

theorem settleElapsedRows {quota : Quota} : Lowered s (s.settleElapsedRows quota now) :=
  List.foldlRecOn _ _ (refl s) fun _ h _ _ => h.trans settleRow

theorem creditCounter {v : ℕ} (hk : s.Keyed) (h : s.creditCounter key amount now = .ok (v, s')) :
    Lowered s s' := by
  obtain ⟨row, hrow, rfl, rfl, rfl⟩ := creditCounter_eq_ok hk h
  refine ⟨rfl, fun r hr => ?_⟩
  obtain ⟨r₀, hr₀, rfl⟩ := mem_map.1 hr
  refine ⟨r₀, hr₀, ?_⟩
  split
  · rename_i hkey
    have : r₀ = row := inj_on_of_nodup_map hk.rowKeys hr₀ hrow hkey
    exact ⟨rfl, rfl, by rw [this]; exact (Nat.sub_le _ _).trans (Nat.sub_le _ _)⟩
  · exact ⟨rfl, rfl, le_rfl⟩

theorem handed (hk : s.Keyed) (h : Handed now s hold back s') : Lowered s s' := by
  have hmark : Lowered s (s.markHoldReturned hold.leaseToken hold.key.quotaId now).2 :=
    of_rows rfl rfl
  unfold Handed at h
  split at h
  · obtain ⟨v, hcredit⟩ := h
    exact hmark.trans (creditCounter hk.stampHolds hcredit)
  · rw [h]
    exact hmark

end Lowered

/-- The hold with this key has been given back. -/
def Returned (s : Store) (id : Uuid × Uuid) : Prop :=
  ∀ hold ∈ s.holds, hold.id = id → ¬ hold.Unreturned

theorem Returned.later {id : Uuid × Uuid} (h : s.Returned id) (hl : Later s s') :
    s'.Returned id := fun hold hh hid hu => h hold (hl.unreturned hold hh hu) hid hu

theorem returned_stampHolds {token quotaId : Uuid} :
    (s.stampHolds (ofLease token quotaId) now).Returned (token, quotaId) := by
  intro hold hh hid hu
  obtain ⟨h, -, rfl⟩ := mem_map.1 hh
  have hsel := (unreturned_stamped_iff.1 hu).2
  have hid' : h.id = (token, quotaId) := (stamped_id h).symm.trans hid
  exact hsel ⟨congrArg Prod.fst hid', congrArg Prod.snd hid'⟩

theorem Handed.returned (h : Handed now s hold back s') (hk : s.Keyed) : s'.Returned hold.id := by
  unfold Handed at h
  split at h
  · obtain ⟨v, hcredit⟩ := h
    exact returned_stampHolds.later (Later.creditCounter hk.stampHolds hcredit)
  · rw [h]
    exact returned_stampHolds

/-- A hold that nobody has given back belongs to an active lease. -/
def Tended (s : Store) : Prop :=
  ∀ hold ∈ s.holds, hold.Unreturned →
    ∃ lease ∈ s.leases, lease.token = hold.leaseToken ∧ lease.state = .active

theorem Tended.later (h : s.Tended) (hl : Later s s') : s'.Tended := by
  intro hold hh hu
  rw [hl.leases]
  exact h hold (hl.unreturned hold hh hu) hu

theorem Tended.insertLease {lease : Lease} (ht : s.Tended) (hactive : lease.state = .active)
    (h : s.insertLease lease entries = .ok s') : s'.Tended := by
  obtain ⟨-, rfl⟩ := insertLease_eq_ok h
  intro hold hh hu
  rcases mem_append.1 hh with hh | hh
  · obtain ⟨other, hother, hrest⟩ := ht hold hh hu
    exact ⟨other, mem_append_left _ hother, hrest⟩
  · obtain ⟨entry, -, rfl⟩ := mem_map.1 hh
    exact ⟨lease, mem_append_right _ (mem_singleton_self _), rfl, hactive⟩

theorem Tended.markState {token : Uuid} {state : LeaseState} (ht : s.Tended)
    (hall : ∀ hold ∈ s.holds, hold.leaseToken = token → ¬ hold.Unreturned) :
    (s.markState token state).Tended := by
  intro hold hh hu
  obtain ⟨lease, hlease, htoken, hactive⟩ := ht hold hh hu
  have hne : lease.token ≠ token := fun heq => hall hold hh (htoken.symm.trans heq) hu
  refine ⟨_, mem_map_of_mem hlease, ?_⟩
  rw [if_neg fun h => hne h.1]
  exact ⟨htoken, hactive⟩

theorem Tended.held_eq_expired (ht : s.Tended) (hlive : ¬ s.HasLiveHolds key now) :
    s.held key = s.unreturnedExpired key now := by
  refine List.tally_congr (fun hold hh => ?_) fun _ _ _ => rfl
  rw [Bool.eq_iff_iff]
  simp only [decide_eq_true_eq]
  constructor
  · rintro ⟨hu, hkey⟩
    obtain ⟨lease, hlease, htoken, hactive⟩ := ht hold hh hu
    refine ⟨hkey, hu, lease, hlease, htoken, hactive, ?_⟩
    by_contra hlt
    exact hlive ⟨hold, hh, hkey, hu, lease, hlease, htoken, hactive, by omega⟩
  · rintro ⟨hkey, hu, -⟩
    exact ⟨hu, hkey⟩

end Gears.Quotas.Store
