import Gears.Tenants.Steps

/-!
# Activation

An activation inserts rows that its caller built outside the transaction.  The checks leave no
room for other rows than the ones that describe the walks from the tenant.

* `ancestors_of_checkStrictAncestors` : each row names an ancestor and carries its barrier.
* `covers_of_checkStrictAncestors` : each ancestor has a row.
* `Sound.activateTenant` : the activation keeps the tables sound.
-/

namespace Gears.Tenants

open Forest Except List

namespace Hierarchy

variable {s s' : Hierarchy} {n : ℕ} {x p : Uuid} {t : Tenant} {rows : List ClosureRow}

/-! ### Barriers -/

theorem isBarrier_barrierOf {b : Bool} (h : b = true ↔ Crosses s.parentOf s.ManagesItself n x) :
    s.IsBarrier n x (barrierOf b) := by
  cases b with
  | true => exact .inl ⟨rfl, h.1 rfl⟩
  | false => exact .inr ⟨rfl, fun hc => Bool.noConfusion (h.2 hc)⟩

theorem IsBarrier.ne_zero_iff {b : ℤ} (h : s.IsBarrier n x b) :
    b ≠ 0 ↔ Crosses s.parentOf s.ManagesItself n x := by
  rcases h with ⟨rfl, hc⟩ | ⟨rfl, hc⟩
  · exact iff_of_true (by decide) hc
  · exact iff_of_false (not_not.2 rfl) hc

theorem isBarrier_zero (x : Uuid) : s.IsBarrier 0 x 0 := .inr ⟨rfl, not_crosses_zero x⟩

theorem managesItself_iff (ht : s.find x = some t) : s.ManagesItself x ↔ t.selfManaged = true := by
  simp [ManagesItself, ht]

theorem isBarrier_succ {b : ℤ} (ht : s.find x = some t) (hp : t.parentId = some p)
    (hb : s.IsBarrier n p b) : s.IsBarrier (n + 1) x (barrierOf (t.selfManaged || b != 0)) := by
  refine isBarrier_barrierOf ?_
  rw [crosses_succ_iff (parentOf_eq_some_iff.2 ⟨t, ht, hp⟩), managesItself_iff ht, ← hb.ne_zero_iff]
  simp

theorem Sound.isBarrier_of_expectedBarrier (hs : s.Sound) (ht : s.find t.id = some t)
    (hp : t.parentId = some p) {row r : ClosureRow} {e : ℤ} (hr : r ∈ s.closure)
    (hrp : r.descendantId = p) (hra : r.ancestorId = row.ancestorId) (hself : row.ancestorId ≠ t.id)
    (h : expectedBarrier t p (s.closure.filter fun r => r.descendantId = p) row = .ok e) :
    ∃ n, up s.parentOf n t.id = some row.ancestorId ∧ s.IsBarrier n t.id e := by
  obtain ⟨-, n, hn, hb⟩ := hs.describes r hr
  rw [hrp, hra] at hn
  rw [hrp] at hb
  refine ⟨n + 1, up_succ_eq_some_iff.2 ⟨p, parentOf_eq_some_iff.2 ⟨t, ht, hp⟩, hn⟩, ?_⟩
  have hbarrier := isBarrier_succ ht hp hb
  unfold expectedBarrier at h
  rw [if_neg hself] at h
  split at h
  case isTrue hparent =>
    -- the walk from the parent to itself is empty
    obtain rfl := hs.acyclic.eq_of_up hn (hparent ▸ rfl : up s.parentOf 0 p = some row.ancestorId)
    rw [hb.unique (isBarrier_zero p)] at hbarrier
    cases h
    simpa using hbarrier
  case isFalse =>
    simp only [ok_iffs, Except.ok.injEq] at h
    obtain ⟨r', hr', rfl⟩ := h
    have hmem := Table.mem_of_lookup hr'
    simp only [mem_filter, decide_eq_true_eq] at hmem
    obtain rfl : r' = r := hs.keys.eq_of_mem hmem.1.1 hr
      (Prod.ext ((Table.key_of_lookup hr').trans hra.symm) (hmem.1.2.trans hrp.symm))
    exact hbarrier

theorem Sound.ancestors_of_checkStrictAncestors (hs : s.Sound) (ht : s.find t.id = some t)
    (h : checkStrictAncestors s t rows = .ok ()) {row : ClosureRow} (hrow : row ∈ rows)
    (hself : row.ancestorId = t.id → row.barrier = 0) :
    ∃ n, up s.parentOf n t.id = some row.ancestorId ∧ s.IsBarrier n t.id row.barrier := by
  by_cases hne : row.ancestorId = t.id
  · rw [hne, hself hne]
    exact ⟨0, rfl, isBarrier_zero _⟩
  unfold checkStrictAncestors at h
  split at h
  case h_1 p hp =>
    simp only [checkAgainstParent, ok_iffs, forM_eq_ok_iff, not_not] at h
    obtain ⟨-, hset, hbarriers⟩ := h
    obtain ⟨e, he, hrow_barrier⟩ := hbarriers row hrow
    have hmem : row.ancestorId ∈
        ((s.closure.filter fun r => r.descendantId = p).map ClosureRow.ancestorId).toFinset := by
      rw [← hset, mem_toFinset]
      exact mem_map_of_mem (mem_filter.2 ⟨hrow, by simpa using hne⟩)
    rw [mem_toFinset] at hmem
    obtain ⟨r, hr, hra⟩ := mem_map.1 hmem
    obtain ⟨hr, hrp⟩ := mem_filter.1 hr
    rw [hrow_barrier]
    exact hs.isBarrier_of_expectedBarrier ht hp hr (of_decide_eq_true hrp) hra hne he
  case h_2 =>
    rw [rejectIf_eq_ok_iff] at h
    exact absurd ⟨row, hrow, hne⟩ h

theorem Sound.covers_of_checkStrictAncestors (hs : s.Sound) (ht : s.find t.id = some t)
    (h : checkStrictAncestors s t rows = .ok ()) {a : Uuid}
    (ha : up s.parentOf (n + 1) t.id = some a) : ∃ row ∈ rows, row.ancestorId = a := by
  obtain ⟨p, hp, ha⟩ := up_succ_eq_some_iff.1 ha
  obtain ⟨t', ht', hp⟩ := parentOf_eq_some_iff.1 hp
  obtain rfl := Option.some.inj (ht.symm.trans ht')
  rw [checkStrictAncestors, hp] at h
  simp only [checkAgainstParent, ok_iffs, not_not] at h
  obtain ⟨-, hset, -⟩ := h
  obtain ⟨q, hq, hfits⟩ := hs.parents t.id t ht p hp
  have hvisible : (s.visible p).isSome := isSome_visible_iff.2 ⟨q, hq, hfits.visible⟩
  obtain ⟨r, hr, hkey⟩ := mem_map.1 (hs.covers p hvisible n a ha)
  obtain ⟨rfl, hrp⟩ := Prod.mk.inj hkey
  have hmem : r.ancestorId ∈
      ((rows.filter fun r => r.ancestorId ≠ t.id).map ClosureRow.ancestorId).toFinset := by
    rw [hset, mem_toFinset]
    exact mem_map_of_mem (mem_filter.2 ⟨hr, decide_eq_true hrp⟩)
  rw [mem_toFinset] at hmem
  obtain ⟨row, hrow, hra⟩ := mem_map.1 hmem
  exact ⟨row, (mem_filter.1 hrow).1, hra⟩

/-- **Activation keeps the tables sound**, whatever rows its caller sends. -/
theorem Sound.activateTenant {i : Uuid} (hs : s.Sound)
    (h : Tenants.activateTenant s i rows = .ok s') : s'.Sound := by
  simp only [Tenants.activateTenant, checkClosureRow, ok_iffs, forM_eq_ok_iff,
    Except.ok.injEq, not_not] at h
  obtain ⟨t, ht, -, hprov, -, -, -, -, -, -, -, hcount, -, hrows, -, -, _, hcheck, closure,
    hinsert, rfl⟩ := h
  obtain rfl : t.id = i := Table.key_of_lookup ht
  obtain ⟨rfl, hkeys⟩ := Table.append_of_insertMany hinsert hs.keys
  have hk : s.KeepsPlace t.id fun t => { t with status := .active } :=
    { visible := by simp
      alive := fun t' ht' _ => by
        obtain rfl := Option.mem_unique ht ht'
        rw [hprov]
        decide
      last := by simp }
  have hagree := hk.agreeOn fun _ => rfl
  have hself :=
    visible_changeTenant_self hk.id ht (show TenantStatus.active ≠ .provisioning by decide)
  refine { hs.toPlanted.changeTenant hk with keys := hkeys, describes := ?_, covers := ?_ }
  · intro row hrow
    rcases mem_append.1 hrow with hrow | hrow
    · have hold := hs.describes row hrow
      have hne := ne_of_visible ht hprov hold.visible
      exact hagree.describes trivial (visible_changeTenant_of_ne hk.id hne) hold
    · obtain ⟨-, hdesc, -, hstatus, -, -, hzero⟩ := hrows row hrow
      obtain ⟨n, hn, hb⟩ := hs.ancestors_of_checkStrictAncestors ht hcheck hrow
        (by simpa using hzero)
      refine ⟨⟨.active, hdesc ▸ hself, hstatus⟩, n, ?_, ?_⟩
      · rw [hdesc]
        exact (hagree.up trivial n).trans hn
      · rw [hdesc]
        exact (hagree.isBarrier trivial).2 hb
  · intro id hid n a ha
    have ha : up s.parentOf n id = some a := (hagree.up trivial n).symm.trans ha
    rw [map_append, mem_append]
    by_cases hne : id = t.id
    · subst hne
      refine .inr (mem_map.2 ?_)
      cases n with
      | zero =>
        obtain rfl := Option.some.inj ha
        obtain ⟨row, hrow, hp⟩ := countP_pos_iff.1 (by rw [hcount]; exact Nat.one_pos)
        obtain ⟨hra, hrd⟩ := of_decide_eq_true hp
        exact ⟨row, hrow, Prod.ext hra hrd⟩
      | succ n =>
        obtain ⟨row, hrow, hra⟩ := hs.covers_of_checkStrictAncestors ht hcheck ha
        obtain ⟨-, hdesc, -⟩ := hrows row hrow
        exact ⟨row, hrow, Prod.ext hra hdesc⟩
    · exact .inl (hs.covers id (visible_changeTenant_of_ne hk.id hne ▸ hid) n a ha)

end Hierarchy

end Gears.Tenants
