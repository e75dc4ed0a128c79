import Gears.Quotas.Frame

/-!
# Resolving leases

* `Store.resolveLease_spec` : a lease resolved by somebody else gives everything back.
* `Store.settleHolds_spec` : a settled lease turns what it keeps into usage.
-/

namespace Gears.Quotas.Store

open Except List

variable {kept : List ℕ} {hold : Hold}
  {s s' : Store} {now : ℤ} {token : Uuid}

theorem mem_holdsOf : hold ∈ s.holdsOf token ↔ hold ∈ s.holds ∧ hold.leaseToken = token := by
  simp [holdsOf]

theorem shape_mem_of_holdsOf (h : hold ∈ s.holdsOf token) :
    hold.shape ∈ s.shapes := mem_map_of_mem (mem_holdsOf.1 h).1

theorem all_returned (hl : Later s s') (hall : ∀ hold ∈ s.holdsOf token, s'.Returned hold.id) :
    ∀ hold ∈ s'.holds, hold.leaseToken = token → ¬ hold.Unreturned := by
  intro hold hh htoken hu
  exact hall hold (mem_holdsOf.2 ⟨hl.unreturned hold hh hu, htoken⟩) hold hh rfl hu

/-- **A lease resolved by somebody else** gives every hold back and leaves usage alone. -/
theorem resolveLease_spec {state : LeaseState} {lease : Lease} (hc : s.Covered)
    (h : resolveLease state now s lease = .ok s') :
    ∃ s₁, (s.holdsOf lease.token).foldlM (giveBack now) s = .ok s₁ ∧ Later s s₁ ∧ s₁.Keyed ∧
      s₁.used = s.used ∧ Lowered s s₁ ∧
      (∀ hold ∈ s₁.holds, hold.leaseToken = lease.token → ¬ hold.Unreturned) ∧
      s' = s₁.markState lease.token state := by
  simp only [resolveLease, ok_iffs] at h
  obtain ⟨s₁, hfold, rfl⟩ := h
  -- the holds visited so far are returned, and stay so
  have hrun := foldlM_scan
    (P := fun pre s₁ => Later s s₁ ∧ s₁.Covered ∧ s₁.used = s.used ∧ Lowered s s₁ ∧
      ∀ hold ∈ pre, s₁.Returned hold.id)
    ⟨Later.refl s, hc, rfl, Lowered.refl s, by simp⟩ ?_ hfold
  · obtain ⟨hl, hc₁, hused, hlow, hall⟩ := hrun
    exact ⟨s₁, hfold, hl, hc₁.1, hused, hlow, all_returned hl hall, rfl⟩
  · rintro pre s₂ hold hhold s₃ ⟨hl, hc₂, hused, hlow, hall⟩ hstep
    have hshape : hold.shape ∈ s₂.shapes := hl.shapes ▸ shape_mem_of_holdsOf hhold
    obtain ⟨hk₃, hused₃⟩ := used_giveBack hc₂ hshape hstep
    have hl₃ := Later.handed hc₂.1 (giveBack_handed hstep)
    refine ⟨hl.trans hl₃, ⟨hk₃, hused₃ ▸ hc₂.2⟩, hused₃.trans hused,
      hlow.trans (Lowered.handed hc₂.1 (giveBack_handed hstep)), ?_⟩
    intro h' hh'
    rcases List.mem_concat_iff.1 hh' with hh' | rfl
    · exact (hall h' hh').later hl₃
    · exact (giveBack_handed hstep).returned hc₂.1

theorem keptOf_bounded {held : List ℕ} {reserved actual : ℕ}
    (h : keptOf held reserved actual = .ok kept) : Forall₂ (· ≤ ·) kept held := by
  unfold keptOf at h
  split at h
  · cases h
    induction held with
    | nil => exact .nil
    | cons a held ih => exact .cons (Nat.zero_le a) ih
  · exact apportion_bounded (Nat.pos_of_ne_zero ‹_›) (mapError_eq_ok_iff.1 h)

theorem keptOf_zero {held : List ℕ} {reserved : ℕ} (h : keptOf held reserved 0 = .ok kept) :
    ∀ n ∈ kept, n = 0 := by
  unfold keptOf at h
  split at h
  · cases h
    simp
  · exact apportion_zero (Nat.pos_of_ne_zero ‹_›) (mapError_eq_ok_iff.1 h)

theorem mem_zip_kept {holds : List Hold} (h : Forall₂ (· ≤ ·) kept (holds.map (·.heldAmount))) :
    (∀ item ∈ holds.zip kept, item.1 ∈ holds ∧ item.2 ∈ kept ∧ item.2 ≤ item.1.heldAmount) ∧
      ∀ hold ∈ holds, ∃ item ∈ holds.zip kept, item.1 = hold := by
  induction holds generalizing kept with
  | nil => simp
  | cons hold holds ih =>
    cases h with
    | cons hle hrest =>
      obtain ⟨hzip, hall⟩ := ih hrest
      refine ⟨?_, ?_⟩
      · intro item hitem
        rcases mem_cons.1 hitem with rfl | hitem
        · exact ⟨mem_cons_self, mem_cons_self, hle⟩
        · obtain ⟨h₁, h₂, h₃⟩ := hzip item hitem
          exact ⟨mem_cons_of_mem _ h₁, mem_cons_of_mem _ h₂, h₃⟩
      · intro h' hh'
        rcases mem_cons.1 hh' with rfl | hh'
        · exact ⟨_, mem_cons_self, rfl⟩
        · obtain ⟨item, hitem, heq⟩ := hall h' hh'
          exact ⟨item, mem_cons_of_mem _ hitem, heq⟩

/-- The movement that settling a hold records, and that the hold was still open. -/
theorem settleHold_entry {done done' : List AppliedEntry × Store} {kept : ℕ}
    (h : settleHold now done (hold, kept) = .ok done') : (∀ entry ∈ done'.1, entry ∈ done.1 ∨
      entry.key = hold.key ∧ entry.amount = kept ∧ 0 < entry.amount) ∧
    ∃ h' ∈ done.2.holds, ofLease hold.leaseToken hold.key.quotaId h' ∧ h'.Unreturned := by
  have hnew : ∀ v, ∀ entry ∈ (if 0 < kept then done.1 ++ [⟨hold.key, kept, v⟩] else done.1 :
      List AppliedEntry), entry ∈ done.1 ∨
        entry.key = hold.key ∧ entry.amount = kept ∧ 0 < entry.amount := by
    intro v entry hentry
    split at hentry
    · rename_i hpos
      rcases List.mem_concat_iff.1 hentry with hentry | rfl
      · exact .inl hentry
      · exact .inr ⟨rfl, rfl, hpos⟩
    · exact .inl hentry
  obtain ⟨-, hopen, -, v, hentries⟩ := settleHold_handed h
  exact ⟨hentries ▸ hnew v, hopen⟩

/-- **A settled lease** gives every hold back and turns what it keeps into usage; a movement is
recorded only for a positive share. -/
theorem settleHolds_spec {entries : List AppliedEntry} (hc : s.Covered)
    (hkept : Forall₂ (· ≤ ·) kept ((s.holdsOf token).map (·.heldAmount)))
    (h : ((s.holdsOf token).zip kept).foldlM (settleHold now) ([], s) = .ok (entries, s')) :
    Later s s' ∧ s'.Keyed ∧ (∀ k, s'.used k = s.used k + entriesOn entries k) ∧ Lowered s s' ∧
      (∀ hold ∈ s'.holds, hold.leaseToken = token → ¬ hold.Unreturned) ∧
      ∀ entry ∈ entries, entry.amount ∈ kept ∧ 0 < entry.amount ∧
        ∃ hold ∈ s.holds, hold.Unreturned ∧ hold.key = entry.key := by
  obtain ⟨hzip, hcomplete⟩ := mem_zip_kept hkept
  have hrun := foldlM_scan
    (P := fun pre done => Later s done.2 ∧ done.2.Covered ∧
      (∀ k, done.2.used k = s.used k + entriesOn done.1 k) ∧ Lowered s done.2 ∧
      (∀ item ∈ pre, done.2.Returned item.1.id) ∧
      ∀ entry ∈ done.1, entry.amount ∈ kept ∧ 0 < entry.amount ∧
        ∃ hold ∈ s.holds, hold.Unreturned ∧ hold.key = entry.key)
    ⟨Later.refl s, hc, by simp, Lowered.refl s, by simp, by simp⟩ ?_ h
  · obtain ⟨hl, hc', hused, hlow, hall, hentries⟩ := hrun
    refine ⟨hl, hc'.1, hused, hlow, all_returned hl fun hold hh => ?_, hentries⟩
    obtain ⟨item, hitem, rfl⟩ := hcomplete hold hh
    exact hall item hitem
  · rintro pre done ⟨hold, share⟩ hitem done' ⟨hl, hcd, hused, hlow, hall, hentries⟩ hstep
    obtain ⟨hhold, hshare, hle⟩ := hzip _ hitem
    have hshape : hold.shape ∈ done.2.shapes := hl.shapes ▸ shape_mem_of_holdsOf hhold
    obtain ⟨hk', hused', hentries'⟩ := used_settleHold hcd hshape hle hstep
    have hhanded := (settleHold_handed hstep).2.2.1
    have hl' := Later.handed hcd.1 hhanded
    refine ⟨hl.trans hl', hcd.add hk' (single_nonneg _ _) hused', ?_,
      hlow.trans (Lowered.handed hcd.1 hhanded), ?_, ?_⟩
    · intro k
      rw [hused', Pi.add_apply, hused, hentries', Pi.single_apply]
      split <;> omega
    · intro item hitem
      rcases List.mem_concat_iff.1 hitem with hitem | rfl
      · exact (hall item hitem).later hl'
      · exact hhanded.returned hcd.1
    · intro entry hentry
      obtain ⟨hnew, hopen⟩ := settleHold_entry hstep
      rcases hnew entry hentry with hentry | ⟨hkey, hamount, hpos⟩
      · exact hentries entry hentry
      · obtain ⟨h', hh', hsel, hu'⟩ := hopen
        have hmem := (mem_holdsOf.1 hhold).1
        have hsame : h' = hold :=
          eq_of_ofLease hc.1 hmem (hl.unreturned h' hh' hu') hsel
        exact ⟨hamount ▸ hshare, hpos, hold, hmem, hsame ▸ hu', hkey.symm⟩

end Gears.Quotas.Store
