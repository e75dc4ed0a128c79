import Gears.Quotas.Credits

/-!
# Conservation: counters are movements and holds

* `Store.moved` : what the recorded and not reversed movements of a row amount to.
* `Store.Balanced` : every unsettled row stores its movements and its holds, up to what the open
  transaction has moved and not yet recorded.
* `Store.KeepsSettled` : settled rows stay exactly as they are.
* `Balanced.settleRow`, `Balanced.debitCounter`, `Balanced.creditCounter`, … : what the pieces of
  a transaction do to the balance.
-/

namespace Gears.Quotas

open List

variable {k : RowKey}

/-- What the movements of a record amount to on a row, unless it was reversed. -/
def IdempotencyRecord.movedOn (record : IdempotencyRecord) (key : RowKey) : ℕ :=
  if record.reversedByKey = none then entriesOn record.moved key else 0

namespace Store

variable {s s' s'' : Store} {key : RowKey} {row : CounterRow} {now : ℤ} {pend : RowKey → ℤ}

/-- What the recorded and not reversed movements of a row amount to. -/
def moved (s : Store) (key : RowKey) : ℕ := (s.records.map (·.movedOn key)).sum

/-- The row of a key is settled. -/
def Settled (s : Store) (key : RowKey) : Prop := ∃ row ∈ s.rows, row.key = key ∧ row.settled = true

/-- The row of a key is there and not settled. -/
def Open (s : Store) (key : RowKey) : Prop := ∃ row ∈ s.rows, row.key = key ∧ row.settled = false

/-- Settled rows stay exactly as they are. -/
def KeepsSettled (s s' : Store) : Prop := ∀ row ∈ s.rows, row.settled = true → row ∈ s'.rows

theorem KeepsSettled.refl (s : Store) : KeepsSettled s s := fun _ h _ => h

theorem KeepsSettled.trans (h : KeepsSettled s s') (h' : KeepsSettled s' s'') :
    KeepsSettled s s'' := fun row hrow hset => h' row (h row hrow hset) hset

theorem KeepsSettled.settled (h : KeepsSettled s s') (hs : s.Settled key) : s'.Settled key := by
  obtain ⟨row, hrow, hkey, hset⟩ := hs
  exact ⟨row, h row hrow hset, hkey, hset⟩

theorem not_settled_of_open (hk : s.Keyed) (h : s.Open key) : ¬ s.Settled key := by
  rintro ⟨row, hrow, hkey, hset⟩
  obtain ⟨row', hrow', hkey', hset'⟩ := h
  have : row = row' := inj_on_of_nodup_map hk.rowKeys hrow hrow' (hkey.trans hkey'.symm)
  rw [this, hset'] at hset
  cases hset

/-- **The balance of an open transaction.**  `pend` is what it has moved and not yet recorded. -/
structure Balanced (pend : RowKey → ℤ) (s : Store) : Prop where
  sheltered : s.Sheltered
  balance : ∀ key, ¬ s.Settled key → s.used key = s.moved key + pend key
  holdsOpen : ∀ hold ∈ s.holds, hold.Unreturned → s.Open hold.key
  pendOpen : ∀ key, pend key ≠ 0 → s.Open key
  closing : ∀ event ∈ s.rollovers, s.Settled event.key ∧ event.closingConsumed = s.moved event.key

theorem Balanced.covered (h : s.Balanced pend) : s.Covered := h.sheltered.1

theorem Balanced.keyed (h : s.Balanced pend) : s.Keyed := h.sheltered.1.1

/-! ### Rows that are rewritten, opened and closed -/

section Rewritten

variable {value : ℕ} {marker : Option ℕ}

theorem rewritten_settled : (rewritten key value marker row).settled = row.settled := by
  unfold rewritten
  split <;> rfl

theorem mem_writeCounter (h : row ∈ s.rows) :
    rewritten key value marker row ∈ (s.writeCounter key value marker).rows :=
  mem_map_of_mem h

theorem open_writeCounter (h : s.Open k) : (s.writeCounter key value marker).Open k := by
  obtain ⟨row, hrow, hkey, hset⟩ := h
  exact ⟨_, mem_writeCounter hrow, (rewritten_key value marker row).trans hkey,
    rewritten_settled.trans hset⟩

theorem KeepsSettled.writeCounter (hk : s.Keyed) (hopen : s.Open key) :
    KeepsSettled s (s.writeCounter key value marker) := by
  intro row hrow hset
  have hne : row.key ≠ key := fun heq =>
    not_settled_of_open hk hopen ⟨row, hrow, heq, hset⟩
  have h : rewritten key value marker row ∈ (s.writeCounter key value marker).rows :=
    mem_writeCounter hrow
  rwa [rewritten, if_neg hne] at h

end Rewritten

theorem KeepsSettled.stampHolds {select : Hold → Prop} [DecidablePred select] :
    KeepsSettled s (s.stampHolds select now) := fun _ h _ => h

theorem KeepsSettled.addRow : KeepsSettled s (s.addRow row) :=
  fun _ h _ => mem_append_left _ h

theorem open_addRow (h : s.Open k) : (s.addRow row).Open k := by
  obtain ⟨r, hr, hrest⟩ := h
  exact ⟨r, mem_append_left _ hr, hrest⟩

section Closed

variable {event : PeriodRollover}

theorem KeepsSettled.closeRow : KeepsSettled s (s.closeRow key event) := by
  intro row hrow hset
  have h : closed key row ∈ (s.closeRow key event).rows := mem_map_of_mem hrow
  rw [closed] at h
  split at h
  · have hsame : { row with settled := true } = row := by
      cases row
      cases hset
      rfl
    rwa [hsame] at h
  · exact h

theorem settled_closeRow_self (hrow : row ∈ s.rows) :
    (s.closeRow row.key event).Settled row.key := by
  refine ⟨closed row.key row, mem_map_of_mem hrow, closed_key row, ?_⟩
  rw [closed, if_pos rfl]

theorem open_closeRow (hk : k ≠ key) (h : s.Open k) : (s.closeRow key event).Open k := by
  obtain ⟨r, hr, hkey, hset⟩ := h
  refine ⟨closed key r, mem_map_of_mem hr, (closed_key r).trans hkey, ?_⟩
  rw [closed, if_neg (by rw [hkey]; exact hk)]
  exact hset

end Closed

/-- Without live holds, giving the expired ones back leaves no hold open on the row. -/
theorem key_ne_of_unreturned (ht : s.Tended) (hlive : ¬ s.HasLiveHolds key now) {hold : Hold}
    (hh : hold ∈ (s.returnExpiredHolds key now).2.holds) (hu : hold.Unreturned) :
    hold.key ≠ key := by
  intro hkey
  obtain ⟨hmem, hnot⟩ := of_unreturned_stampHolds hh hu
  obtain ⟨lease, hlease, htoken, hactive⟩ := ht hold hmem hu
  refine hnot ⟨hkey, lease, hlease, htoken, hactive, ?_⟩
  by_contra hlt
  exact hlive ⟨hold, hmem, hkey, hu, lease, hlease, htoken, hactive, by omega⟩

/-- Usage after a row's expired holds are given back and the row is closed. -/
theorem used_return_closeRow (event : PeriodRollover) (k : RowKey) :
    ((s.returnExpiredHolds key now).2.closeRow key event).used k =
      s.used k + if k = key then (s.unreturnedExpired key now : ℤ) else 0 := by
  have hstamp : (s.returnExpiredHolds key now).2.used k =
      s.used k + s.heldBy (s.ExpiredOn key now) k := used_stampHolds k
  have hheld : ((s.returnExpiredHolds key now).2.closeRow key event).held k =
    (s.returnExpiredHolds key now).2.held k := rfl
  rw [heldBy_expiredOn] at hstamp
  rw [used, stored_closeRow, hheld, ← used, hstamp]
  push_cast
  rfl

/-- Closing an elapsed row on which the open transaction moved nothing keeps the balance, and the
event states the movements of the period. -/
theorem Balanced.settleRow (h : s.Balanced pend) (quota : Quota) (hrow : row ∈ s.rows)
    (hopen : row.settled = false) (hpend : pend row.key = 0) :
    (Store.settleRow quota now s row).Balanced pend := by
  unfold Store.settleRow
  split
  · exact h
  rename_i hlive
  -- every hold of the row has expired, so it is stamped before the row is closed
  have hheld := h.sheltered.2.held_eq_expired hlive
  have hnotset : ¬ s.Settled row.key := not_settled_of_open h.keyed ⟨row, hrow, rfl, hopen⟩
  have hbalance := h.balance row.key hnotset
  rw [used, stored_of_mem h.keyed hrow] at hbalance
  have hl : ∀ event, Later s ((s.returnExpiredHolds row.key now).2.closeRow row.key event) :=
    fun event => Later.stampHolds.trans Later.closeRow
  refine ⟨⟨⟨h.keyed.stampHolds.closeRow _, fun k => ?_⟩, h.sheltered.2.later (hl _)⟩, ?_, ?_, ?_,
    ?_⟩
  · rw [used_return_closeRow]
    have := h.covered.2 k
    split <;> omega
  · intro k hk
    have hne : k ≠ row.key := by
      rintro rfl
      exact hk (settled_closeRow_self hrow)
    rw [used_return_closeRow, if_neg hne, add_zero]
    exact h.balance k fun hset => hk (KeepsSettled.closeRow.settled hset)
  · intro hold hh hu
    refine open_closeRow (key_ne_of_unreturned h.sheltered.2 hlive hh hu) ?_
    exact h.holdsOpen hold (Later.stampHolds.unreturned hold hh hu) hu
  · intro k hk
    refine open_closeRow ?_ (h.pendOpen k hk)
    rintro rfl
    exact hk hpend
  · intro event hevent
    rcases List.mem_concat_iff.1 hevent with hevent | rfl
    · obtain ⟨hset, hclosing⟩ := h.closing event hevent
      exact ⟨KeepsSettled.closeRow.settled hset, hclosing⟩
    · refine ⟨settled_closeRow_self hrow, ?_⟩
      show row.value - s.unreturnedExpired row.key now = s.moved row.key
      omega

end Store

end Gears.Quotas
