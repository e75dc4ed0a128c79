import Gears.Lib.Tally
import Gears.Quotas.Transactions

/-!
# Usage: what a counter stores beyond its holds

* `Store.stored`, `Store.held` : the counter of a row, and what its holds not yet given back
  amount to.
* `Store.used` : the difference.  Every piece of a transaction changes it by a known amount
  (`used_debitCounter`, `used_creditCounter`, `used_settleRow`, `used_markHoldReturned`).
* `Store.Keyed` : the keys of the tables are unique and a hold is given back once.
-/

namespace Gears.Quotas

open List

variable {quota : Quota} {amount : ℕ} {crossing : Option ThresholdCrossing}
  {f : CounterRow → CounterRow} {elapsed : CounterRow} {entry : AppliedEntry}

/-- The primary key of a hold. -/
def Hold.id (hold : Hold) : Uuid × Uuid := (hold.leaseToken, hold.key.quotaId)

namespace Store

/-- What the row of a key stores; nothing when there is no row. -/
def stored (s : Store) (key : RowKey) : ℕ := ((s.findRow key).map (·.value)).getD 0

/-- What the holds of a row that nobody has given back amount to. -/
def held (s : Store) (key : RowKey) : ℕ :=
  s.holds.tally (fun hold => hold.Unreturned ∧ hold.key = key) (·.heldAmount)

/-- What a row stores beyond its holds. -/
def used (s : Store) (key : RowKey) : ℤ := s.stored key - s.held key

/-- The tables have unique keys, and a hold that was given back is stamped. -/
structure Keyed (s : Store) : Prop where
  rowKeys : (s.rows.map CounterRow.key).Nodup
  holdIds : (s.holds.map Hold.id).Nodup
  holdLease : ∀ hold ∈ s.holds, ∃ lease ∈ s.leases, lease.token = hold.leaseToken
  givenBackOnce : s.givenBack.Nodup
  givenBackStamped : ∀ id ∈ s.givenBack, ∃ hold ∈ s.holds, hold.id = id ∧ ¬ hold.Unreturned

variable {s s' : Store} {key : RowKey} {row : CounterRow} {now : ℤ}

/-! ### Rows -/

theorem mem_of_findRow (h : s.findRow key = some row) : row ∈ s.rows :=
  mem_of_find?_eq_some h

theorem key_of_findRow (h : s.findRow key = some row) : row.key = key := by
  simpa using find?_some h

theorem findRow_of_mem (hk : s.Keyed) (h : row ∈ s.rows) : s.findRow row.key = some row :=
  find?_key hk.rowKeys h

theorem stored_of_mem (hk : s.Keyed) (h : row ∈ s.rows) : s.stored row.key = row.value := by
  rw [stored, findRow_of_mem hk h]
  rfl

theorem Keyed.mapRows (hk : s.Keyed) (hf : ∀ row, (f row).key = row.key) :
    ({ s with rows := s.rows.map f } : Store).Keyed := by
  refine { hk with rowKeys := ?_ }
  rw [map_map]
  simpa only [Function.comp_def, hf] using hk.rowKeys

theorem findRow_map (hf : ∀ row, (f row).key = row.key) (hrows : s'.rows = s.rows.map f)
    (key : RowKey) : s'.findRow key = (s.findRow key).map f := by
  simp only [findRow, hrows, find?_map, Function.comp_def, hf]

/-- What `writeCounter` does to a row. -/
def rewritten (key : RowKey) (value : ℕ) (marker : Option ℕ) (row : CounterRow) : CounterRow :=
  if row.key = key then { row with value, marker } else row

theorem rewritten_key (value : ℕ) (marker : Option ℕ) (row : CounterRow) :
    (rewritten key value marker row).key = row.key := by
  unfold rewritten
  split <;> rfl

theorem stored_writeCounter (hrow : (s.findRow key).isSome) (value : ℕ) (marker : Option ℕ)
    (k : RowKey) :
    (s.writeCounter key value marker).stored k = if k = key then value else s.stored k := by
  have hfind : (s.writeCounter key value marker).findRow k =
      (s.findRow k).map (rewritten key value marker) :=
    findRow_map (rewritten_key value marker) rfl k
  rw [stored, hfind, stored]
  by_cases hk : k = key
  · subst hk
    obtain ⟨row, hrow⟩ := Option.isSome_iff_exists.1 hrow
    simp [hrow, rewritten, key_of_findRow hrow]
  · rw [if_neg hk]
    cases hrow' : s.findRow k with
    | none => rfl
    | some row =>
      have hne : row.key ≠ key := by
        rw [key_of_findRow hrow']
        exact hk
      simp [rewritten, hne]

theorem writeCounter_self (hk : s.Keyed) (h : s.findRow key = some row) :
    s.writeCounter key row.value row.marker = s := by
  have hrows : s.rows.map (rewritten key row.value row.marker) = s.rows := by
    refine (map_congr_left fun r hr => ?_).trans (map_id s.rows)
    unfold rewritten
    split
    · rename_i hkey
      have : s.findRow key = some r := hkey ▸ findRow_of_mem hk hr
      cases h.symm.trans this
      rfl
    · rfl
  change { s with rows := s.rows.map (rewritten key row.value row.marker) } = s
  rw [hrows]

theorem stored_addRow (hzero : row.value = 0) (k : RowKey) :
    (s.addRow row).stored k = s.stored k := by
  simp only [stored, findRow, addRow, find?_append]
  cases hfind : s.rows.find? (·.key = k) with
  | some r => rfl
  | none =>
    by_cases hk : row.key = k
    · simp [hk, hzero]
    · simp [hk]

/-- What `closeRow` does to a row. -/
def closed (key : RowKey) (row : CounterRow) : CounterRow :=
  if row.key = key then { row with settled := true } else row

theorem closed_key (row : CounterRow) : (closed key row).key = row.key := by
  unfold closed
  split <;> rfl

theorem stored_closeRow (event : PeriodRollover) (k : RowKey) :
    (s.closeRow key event).stored k = s.stored k := by
  have hfind : (s.closeRow key event).findRow k = (s.findRow k).map (closed key) :=
    findRow_map closed_key rfl k
  rw [stored, hfind, stored]
  cases s.findRow k with
  | none => rfl
  | some row =>
    simp only [Option.map_some, closed]
    split <;> rfl

/-! ### Holds -/

/-- What the holds of a row that a test selects amount to. -/
def heldBy (s : Store) (select : Hold → Prop) [DecidablePred select] (key : RowKey) : ℕ :=
  s.holds.tally (fun hold => (hold.Unreturned ∧ hold.key = key) && select hold) (·.heldAmount)

/-- What `stampHolds` does to a hold. -/
def stamped (select : Hold → Prop) [DecidablePred select] (now : ℤ) (hold : Hold) : Hold :=
  if hold.Unreturned ∧ select hold then { hold with returnedAt := some now } else hold

section Stamps

variable {select : Hold → Prop} [DecidablePred select]

theorem stamped_id (hold : Hold) : (stamped select now hold).id = hold.id := by
  unfold stamped
  split <;> rfl

theorem stamped_leaseToken (hold : Hold) :
    (stamped select now hold).leaseToken = hold.leaseToken := by
  unfold stamped
  split <;> rfl

theorem stamped_key (hold : Hold) : (stamped select now hold).key = hold.key := by
  unfold stamped
  split <;> rfl

theorem stamped_heldAmount (hold : Hold) :
    (stamped select now hold).heldAmount = hold.heldAmount := by
  unfold stamped
  split <;> rfl

theorem unreturned_stamped_iff {hold : Hold} :
    (stamped select now hold).Unreturned ↔ hold.Unreturned ∧ ¬ select hold := by
  unfold stamped
  split
  · rename_i h
    simp [Hold.Unreturned, h.2]
  · rename_i h
    exact ⟨fun hu => ⟨hu, fun hs => h ⟨hu, hs⟩⟩, And.left⟩

theorem holds_stampHolds : (s.stampHolds select now).holds = s.holds.map (stamped select now) :=
  rfl

theorem of_unreturned_stampHolds {hold : Hold} (hh : hold ∈ (s.stampHolds select now).holds)
    (hu : hold.Unreturned) : hold ∈ s.holds ∧ ¬ select hold := by
  obtain ⟨h, hmem, rfl⟩ := mem_map.1 hh
  have hnot : ¬ (h.Unreturned ∧ select h) := fun hsel => (unreturned_stamped_iff.1 hu).2 hsel.2
  rw [if_neg hnot] at hu ⊢
  exact ⟨hmem, fun hsel => hnot ⟨hu, hsel⟩⟩

theorem held_stampHolds (k : RowKey) :
    (s.stampHolds select now).held k + s.heldBy select k = s.held k := by
  have hsplit : s.held k = s.heldBy select k + _ := tally_split fun hold => select hold
  rw [hsplit, Nat.add_comm, held, holds_stampHolds, tally_map]
  congr 1
  refine tally_congr (fun hold _ => ?_) fun hold _ _ => ?_
  · have hu : (stamped select now hold).Unreturned ↔ hold.Unreturned ∧ ¬ select hold :=
      unreturned_stamped_iff
    simp only [stamped_key, hu]
    by_cases hs : select hold <;> simp [hs]
  · exact stamped_heldAmount hold

theorem used_stampHolds (k : RowKey) :
    (s.stampHolds select now).used k = s.used k + s.heldBy select k := by
  have h : (s.stampHolds select now).held k + s.heldBy select k = s.held k := held_stampHolds k
  have hstored : (s.stampHolds select now).stored k = s.stored k := rfl
  rw [used, used]
  omega

theorem Keyed.stampHolds (hk : s.Keyed) : (s.stampHolds select now).Keyed where
  rowKeys := hk.rowKeys
  holdIds := by
    rw [holds_stampHolds, map_map]
    simpa only [Function.comp_def, stamped_id] using hk.holdIds
  holdLease := by
    intro hold hold_mem
    obtain ⟨h, hh, rfl⟩ := mem_map.1 hold_mem
    obtain ⟨lease, hl, htoken⟩ := hk.holdLease h hh
    exact ⟨lease, hl, htoken.trans (stamped_leaseToken h).symm⟩
  givenBackOnce := by
    refine nodup_append.2 ⟨hk.givenBackOnce, ?_, ?_⟩
    · exact (hk.holdIds.sublist (filter_sublist.map _))
    · rintro id hid _ hid' rfl
      obtain ⟨h, hh, heq⟩ := mem_map.1 hid'
      obtain ⟨h', hh', heq', hstamped⟩ := hk.givenBackStamped id hid
      -- the hold under a listed id carries a stamp, so it is not stamped again
      have hsame := inj_on_of_nodup_map hk.holdIds hh' (mem_filter.1 hh).1
        (heq'.trans heq.symm)
      have := (mem_filter.1 hh).2
      simp only [decide_eq_true_eq] at this
      exact hstamped (hsame ▸ this.1)
  givenBackStamped := by
    intro id hid
    rcases mem_append.1 hid with hid | hid
    · obtain ⟨h, hh, heq, hstamped⟩ := hk.givenBackStamped id hid
      refine ⟨_, mem_map_of_mem hh, (stamped_id h).trans heq, ?_⟩
      exact fun hu => hstamped (unreturned_stamped_iff.1 hu).1
    · obtain ⟨h, hh, heq⟩ := mem_map.1 hid
      obtain ⟨hh, hsel⟩ := mem_filter.1 hh
      simp only [decide_eq_true_eq] at hsel
      refine ⟨_, mem_map_of_mem hh, (stamped_id h).trans heq, ?_⟩
      exact fun hu => (unreturned_stamped_iff.1 hu).2 hsel.2

end Stamps

/-! ### Expired holds -/

/-- The holds of a row that have expired. -/
abbrev ExpiredOn (s : Store) (key : RowKey) (now : ℤ) (hold : Hold) : Prop :=
  hold.key = key ∧ s.ExpiredHold now hold

theorem heldBy_expiredOn (k : RowKey) :
    s.heldBy (s.ExpiredOn key now) k = if k = key then s.unreturnedExpired key now else 0 := by
  by_cases hk : k = key
  · subst hk
    rw [if_pos rfl]
    refine tally_congr (fun hold _ => ?_) fun _ _ _ => rfl
    rw [Bool.eq_iff_iff]
    simp only [Bool.and_eq_true, decide_eq_true_eq]
    tauto
  · rw [if_neg hk]
    refine tally_eq_zero fun hold _ h => ?_
    simp only [Bool.and_eq_true, decide_eq_true_eq] at h
    exact absurd (h.1.2.symm.trans h.2.1) hk

theorem unreturnedExpired_le_held : s.unreturnedExpired key now ≤ s.held key := by
  have h : (s.returnExpiredHolds key now).2.held key + s.heldBy (s.ExpiredOn key now) key =
      s.held key := held_stampHolds key
  rw [heldBy_expiredOn, if_pos rfl] at h
  omega

theorem used_returned (key : RowKey) (now : ℤ) : (s.returnExpiredHolds key now).2.used =
    s.used + Pi.single key (s.unreturnedExpired key now : ℤ) := by
  funext k
  have hused : (s.returnExpiredHolds key now).2.used k =
      s.used k + s.heldBy (s.ExpiredOn key now) k := used_stampHolds k
  rw [hused, heldBy_expiredOn, Pi.add_apply, Pi.single_apply]
  split <;> rfl

/-- **Reconciling a row.**  Giving its expired holds back and writing what is then left, moved by
`d`, changes the usage of the row by `d`. -/
theorem used_reconcile (hk : s.Keyed) (hrow : row ∈ s.rows) {value : ℕ} {marker : Option ℕ} {d : ℤ}
    (hvalue : (value : ℤ) = row.value - s.unreturnedExpired row.key now + d) :
    ((s.returnExpiredHolds row.key now).2.writeCounter row.key value marker).used =
      s.used + Pi.single row.key d := by
  have hfind : (s.returnExpiredHolds row.key now).2.findRow row.key = some row :=
    findRow_of_mem hk.stampHolds hrow
  have hstored := stored_of_mem hk hrow
  funext k
  have hused := congrFun (used_returned (s := s) row.key now) k
  have hraw : (s.returnExpiredHolds row.key now).2.stored k = s.stored k := rfl
  rw [Pi.add_apply, Pi.single_apply, used] at hused
  rw [Pi.add_apply, Pi.single_apply, used, stored_writeCounter (by rw [hfind]; rfl)]
  have hsame : ((s.returnExpiredHolds row.key now).2.writeCounter row.key value marker).held k =
      (s.returnExpiredHolds row.key now).2.held k := rfl
  split_ifs at hused ⊢ with hkey
  · subst hkey
    omega
  · omega

theorem Keyed.writeCounter (hk : s.Keyed) (value : ℕ) (marker : Option ℕ) :
    (s.writeCounter key value marker).Keyed := hk.mapRows (rewritten_key value marker)

theorem Keyed.closeRow (hk : s.Keyed) (event : PeriodRollover) : (s.closeRow key event).Keyed :=
  { hk.mapRows closed_key with }

theorem Keyed.addRow (hk : s.Keyed) (hfresh : s.findRow row.key = none) : (s.addRow row).Keyed := by
  refine { hk with rowKeys := ?_ }
  rw [Store.addRow, map_append, nodup_append]
  refine ⟨hk.rowKeys, nodup_singleton _, ?_⟩
  rintro _ hkey _ hkey' rfl
  obtain ⟨r, hr, heq⟩ := mem_map.1 hkey
  have hnone := find?_eq_none.1 hfresh r hr
  rw [map_singleton, mem_singleton] at hkey'
  simp [heq, hkey'] at hnone

theorem used_settleRow (hk : s.Keyed) (quota : Quota) (now : ℤ) (row : CounterRow) :
    ∃ owed : ℕ, (settleRow quota now s row).used = s.used + Pi.single row.key (owed : ℤ) ∧
      (settleRow quota now s row).Keyed := by
  unfold settleRow
  split
  · exact ⟨0, by simp, hk⟩
  · refine ⟨s.unreturnedExpired row.key now, ?_, (hk.stampHolds).closeRow _⟩
    rw [← used_returned]
    funext k
    rw [used, stored_closeRow]
    rfl

theorem mem_settleRow (hrow : row ∈ (settleRow quota now s elapsed).rows) : row ∈ s.rows ∨
      ∃ r ∈ s.rows, r.key = elapsed.key ∧ row = { r with settled := true } := by
  unfold settleRow at hrow
  split at hrow
  · exact .inl hrow
  · obtain ⟨r, hr, rfl⟩ := mem_map.1 hrow
    split
    · rename_i hkey
      exact .inr ⟨r, hr, hkey, rfl⟩
    · exact .inl hr

theorem mem_settleRow_of_ne (hrow : row ∈ s.rows) (hne : row.key ≠ elapsed.key) :
    row ∈ (settleRow quota now s elapsed).rows := by
  unfold settleRow
  split
  · exact hrow
  · have h := mem_map_of_mem (f := fun r : CounterRow =>
      if r.key = elapsed.key then { r with settled := true } else r) hrow
    rwa [if_neg hne] at h

/-- A row that a settlement of a quota closes. -/
structure Due (s : Store) (quota : Quota) (now : ℤ) (row : CounterRow) : Prop where
  mem : row ∈ s.rows
  quotaId : row.quotaId = quota.id
  unsettled : row.settled = false
  elapsed : row.HasElapsed now

theorem settleElapsedRows_induction (quota : Quota) (now : ℤ) {P : Store → Prop} (hk : s.Keyed)
    (h : P s) (hstep : ∀ s₁ row, P s₁ → s₁.Due quota now row → P (settleRow quota now s₁ row)) :
    P (s.settleElapsedRows quota now) := by
  have hdue : ∀ row ∈ s.elapsedUnsettled quota.id now, s.Due quota now row := by
    intro row hrow
    simp only [elapsedUnsettled, mem_sortByKey, mem_filter, decide_eq_true_eq,
      Bool.not_eq_true'] at hrow
    exact ⟨hrow.1, hrow.2.1, hrow.2.2.1, hrow.2.2.2⟩
  have hnodup : ((s.elapsedUnsettled quota.id now).map (·.key)).Nodup := by
    refine ((sortByKey_perm _ _).map _).nodup_iff.2 ?_
    exact hk.rowKeys.sublist (filter_sublist.map _)
  unfold settleElapsedRows
  generalize s.elapsedUnsettled quota.id now = rows at hdue hnodup
  clear hk
  -- the rows still to visit stay as they are: only rows of other keys are closed before them
  induction rows generalizing s with
  | nil => exact h
  | cons row rows ih =>
    obtain ⟨hnotin, hnodup⟩ := nodup_cons.1 hnodup
    refine ih (hstep s row h (hdue row mem_cons_self)) (fun r hr => ?_) hnodup
    have hr' := hdue r (mem_cons_of_mem _ hr)
    refine { hr' with mem := mem_settleRow_of_ne hr'.mem fun heq => hnotin ?_ }
    exact mem_map.2 ⟨r, hr, heq⟩

/-! ### Debits -/

/-- How the row of a charge is found. -/
inductive Charged (s : Store) (quota : Quota) (now : ℤ) : CounterRow → Store → Prop
  | allocation {row : CounterRow} : quota.quotaType = .allocation →
      s.findRow ⟨quota.id, none⟩ = some row → Charged s quota now row s
  | current {row : CounterRow} : quota.quotaType = .consumption →
      s.findLatest quota.id = some row → row.Contains now → Charged s quota now row s
  | lost {row : CounterRow} : quota.quotaType = .consumption →
      s.findLatest quota.id = some row → ¬ row.Contains now →
      (s.findRow (newPeriod quota now).key).isSome → Charged s quota now row s
  | opened : quota.quotaType = .consumption → (∀ row ∈ s.findLatest quota.id, ¬ row.Contains now) →
      s.findRow (newPeriod quota now).key = none →
      Charged s quota now (newPeriod quota now) (s.addRow (newPeriod quota now))

theorem mem_of_findLatest {quotaId : Uuid} (h : s.findLatest quotaId = some row) :
    row ∈ s.rows ∧ row.quotaId = quotaId ∧ row.window.isSome := by
  have hmem := argmax_mem h
  rw [periodRows] at hmem
  simpa using hmem

theorem start_le_latest {latest : CounterRow} {quotaId : Uuid} (hrow : row ∈ s.rows)
    (hid : row.quotaId = quotaId) (hw : row.window.isSome)
    (h : s.findLatest quotaId = some latest) : row.start ≤ latest.start :=
  le_of_mem_argmax (mem_filter.2 ⟨hrow, by simpa using ⟨hid, hw⟩⟩) h

theorem ensureCurrentPeriod_eq_ok (hq : quota.quotaType = .consumption)
    (h : s.ensureCurrentPeriod quota now = .ok (row, s')) : Charged s quota now row s' := by
  unfold ensureCurrentPeriod at h
  cases hlatest : s.findLatest quota.id with
  | none =>
    simp only [hlatest, Option.filter_none] at h
    split at h
    · cases h
    · rename_i hfresh
      cases h
      exact .opened hq (by simp [hlatest]) (by simpa using hfresh)
  | some latest =>
    by_cases hc : latest.Contains now
    · simp only [hlatest, Option.filter_some, hc] at h
      cases h
      exact .current hq hlatest hc
    · simp only [hlatest, Option.filter_some, hc, decide_false, Bool.false_eq_true, if_false] at h
      split at h
      · rename_i hthere
        cases h
        exact .lost hq hlatest hc hthere
      · rename_i hfresh
        cases h
        refine .opened hq ?_ (by simpa using hfresh)
        intro row hrow
        cases hlatest.symm.trans hrow
        exact hc

theorem chargedRow_eq_ok (h : s.chargedRow quota now = .ok (row, s')) :
    Charged s quota now row s' := by
  unfold chargedRow at h
  cases hq : quota.quotaType with
  | consumption =>
    simp only [hq] at h
    exact ensureCurrentPeriod_eq_ok hq h
  | allocation =>
    simp only [hq] at h
    cases hrow : s.findRow ⟨quota.id, none⟩ with
    | none =>
      rw [hrow] at h
      cases h
    | some r =>
      rw [hrow] at h
      cases h
      exact .allocation hq hrow

namespace Charged

variable {quota : Quota}

section

variable (h : Charged s quota now row s')
include h

theorem mem : row ∈ s'.rows := by
  cases h with
  | allocation _ hrow => exact mem_of_findRow hrow
  | current _ hrow _ | lost _ hrow _ _ => exact (mem_of_findLatest hrow).1
  | opened _ _ _ => exact mem_append_right _ (mem_singleton_self _)

theorem quotaId_eq : row.quotaId = quota.id := by
  cases h with
  | allocation _ hrow => exact congrArg RowKey.quotaId (key_of_findRow hrow)
  | current _ hrow _ | lost _ hrow _ _ => exact (mem_of_findLatest hrow).2.1
  | opened _ _ _ => rfl

theorem keyed (hk : s.Keyed) : s'.Keyed := by
  cases h with
  | opened _ _ hfresh => exact hk.addRow hfresh
  | _ => exact hk

theorem used_eq : s'.used = s.used := by
  cases h with
  | opened _ _ _ =>
    funext k
    rw [used, stored_addRow rfl]
    rfl
  | _ => rfl

end

end Charged

theorem debitCounter_eq_ok (h : s.debitCounter quota amount now = .ok (entry, crossing, s')) :
    ∃ row s₁ marker, Charged s quota now row s₁ ∧
      entry = ⟨row.key, amount, row.value - s₁.unreturnedExpired row.key now + amount⟩ ∧
      s' = (s₁.returnExpiredHolds row.key now).2.writeCounter row.key
        (row.value - s₁.unreturnedExpired row.key now + amount) marker := by
  simp only [debitCounter, Except.ok_iffs, exists_const, Prod.exists] at h
  obtain ⟨row, s₁, hrow, -, rfl, -, rfl⟩ := h
  exact ⟨row, s₁, _, chargedRow_eq_ok hrow, rfl, rfl⟩

/-- No row stores less than its holds amount to. -/
def Covered (s : Store) : Prop := s.Keyed ∧ ∀ key, 0 ≤ s.used key

theorem Covered.expired_le (hc : s.Covered) (hrow : row ∈ s.rows) :
    s.unreturnedExpired row.key now ≤ row.value := by
  have hheld : s.unreturnedExpired row.key now ≤ s.held row.key := unreturnedExpired_le_held
  have hused := hc.2 row.key
  rw [used, stored_of_mem hc.1 hrow] at hused
  omega

theorem used_debitCounter (hc : s.Covered)
    (h : s.debitCounter quota amount now = .ok (entry, crossing, s')) :
    s'.Keyed ∧ s'.used = s.used + Pi.single entry.key (entry.amount : ℤ) := by
  obtain ⟨row, s₁, marker, hcharged, rfl, rfl⟩ := debitCounter_eq_ok h
  have hc₁ : s₁.Covered := ⟨hcharged.keyed hc.1, hcharged.used_eq ▸ hc.2⟩
  have hle : s₁.unreturnedExpired row.key now ≤ row.value := hc₁.expired_le hcharged.mem
  refine ⟨hc₁.1.stampHolds.writeCounter _ _, ?_⟩
  rw [used_reconcile hc₁.1 hcharged.mem (d := (amount : ℤ)) (by omega), hcharged.used_eq]

theorem Covered.add (hc : s.Covered) (hk : s'.Keyed) {d : RowKey → ℤ} (hd : ∀ k, 0 ≤ d k)
    (h : s'.used = s.used + d) : s'.Covered :=
  ⟨hk, fun k => h ▸ add_nonneg (hc.2 k) (hd k)⟩

theorem single_nonneg (k : RowKey) (n : ℕ) (k' : RowKey) :
    0 ≤ (Pi.single k (n : ℤ) : _ → ℤ) k' := by
  rw [Pi.single_apply]
  split <;> omega

theorem creditCounter_eq_ok {v : ℕ} (hk : s.Keyed)
    (h : s.creditCounter key amount now = .ok (v, s')) :
    ∃ row ∈ s.rows, row.key = key ∧ v = row.value - s.unreturnedExpired key now - amount ∧
      s' = (s.returnExpiredHolds key now).2.writeCounter key v row.marker := by
  unfold creditCounter at h
  cases hrow : s.findRow key with
  | none =>
    rw [hrow] at h
    cases h
  | some row =>
    simp only [hrow] at h
    refine ⟨row, mem_of_findRow hrow, key_of_findRow hrow, ?_⟩
    split at h
    · rename_i hzero
      cases h
      refine ⟨by rw [hzero.2]; rfl, ?_⟩
      rw [hzero.1]
      exact (writeCounter_self hk.stampHolds hrow).symm
    · cases h
      exact ⟨rfl, rfl⟩

theorem used_creditCounter {v : ℕ} (hc : s.Covered) (hle : (amount : ℤ) ≤ s.used key)
    (h : s.creditCounter key amount now = .ok (v, s')) :
    s'.Keyed ∧ s'.used = s.used - Pi.single key (amount : ℤ) := by
  obtain ⟨row, hrow, rfl, rfl, rfl⟩ := creditCounter_eq_ok hc.1 h
  have hheld : s.unreturnedExpired row.key now ≤ s.held row.key := unreturnedExpired_le_held
  rw [used, stored_of_mem hc.1 hrow] at hle
  refine ⟨hc.1.stampHolds.writeCounter _ _, ?_⟩
  rw [used_reconcile hc.1 hrow (d := -(amount : ℤ)) (by omega), Pi.single_neg, sub_eq_add_neg]

end Store

end Gears.Quotas
