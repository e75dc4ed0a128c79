import Gears.Tenants.Activation

/-!
# Change of mode

A conversion flips the mode of one tenant and recomputes the barriers below it.  The walks of the
recomputation run over a snapshot and give up after a number of hops; the snapshot holds every
tenant they meet, and the hops suffice.

* `strictPathMeets_iff` : what a walk over a snapshot finds.
* `recomputeBarriers_eq` : the loop over the candidate rows as one pass over the closure.
* `Sound.applyConversionApproval` : the conversion keeps the tables sound.
-/

namespace Gears.Tenants

open Forest List Table

variable {test : Uuid → Bool} {x : Uuid} {closure : List ClosureRow}

/-- **A walk over a snapshot** that has the links on the way, with more hops than links, finds
whether the test holds strictly below the ancestor. -/
theorem strictPathMeets_iff {parent : Uuid → Option Uuid} (hacyclic : Acyclic parent)
    {snapshot : List Tenant} {a : Uuid} {n hops : ℕ}
    (hlinks : ∀ k < n, ∀ y, up parent k x = some y →
      (lookup Tenant.id snapshot y).bind Tenant.parentId = parent y)
    (ha : up parent n x = some a) (hhops : n < hops) :
    strictPathMeets snapshot test a hops (some x) = true ↔
      Crosses parent (fun y => test y = true) n x := by
  induction n generalizing x hops with
  | zero =>
    obtain rfl := Option.some.inj ha
    obtain ⟨hops, rfl⟩ := Nat.exists_eq_succ_of_ne_zero (Nat.ne_of_gt hhops)
    simp [strictPathMeets, not_crosses_zero]
  | succ n ih =>
    obtain ⟨p, hp, hpa⟩ := up_succ_eq_some_iff.1 ha
    obtain ⟨hops, rfl⟩ := Nat.exists_eq_succ_of_ne_zero (Nat.ne_of_gt (Nat.zero_lt_of_lt hhops))
    have hne : x ≠ a := by
      rintro rfl
      exact hacyclic n x ha
    have hlink := hlinks 0 (Nat.succ_pos n) x rfl
    have hrest : strictPathMeets snapshot test a hops (some p) = true ↔
        Crosses parent (fun y => test y = true) n p :=
      ih (fun k hk y hy => hlinks (k + 1) (Nat.succ_lt_succ hk) y
        (up_succ_eq_some_iff.2 ⟨p, hp, hy⟩)) hpa (Nat.lt_of_succ_lt_succ hhops)
    rw [strictPathMeets, if_neg hne, hlink, hp, crosses_succ_iff hp, ← hrest]
    by_cases htest : test x <;> simp [htest]

/-! ### The loop over the candidate rows -/

/-- The row with its new barrier, if it has one. -/
def ClosureRow.rebarrier (snapshot : List Tenant) (target : Uuid) (candidate row : ClosureRow) :
    ClosureRow :=
  { row with barrier := (newBarrier snapshot target candidate).getD row.barrier }

theorem rewriteBarrier_eq (snapshot : List Tenant) (target : Uuid) (closure : List ClosureRow)
    (candidate : ClosureRow) : rewriteBarrier snapshot target closure candidate =
      updateWhere (·.key = candidate.key) (ClosureRow.rebarrier snapshot target candidate)
        closure := by
  unfold rewriteBarrier ClosureRow.rebarrier
  cases newBarrier snapshot target candidate with
  | none => exact (updateWhere_id _ closure).symm
  | some barrier => rfl

theorem mem_descendantsOf {target : Uuid} :
    x ∈ descendantsOf closure target ↔ (target, x) ∈ closure.map ClosureRow.key := by
  simp only [descendantsOf, mem_map, mem_filter, decide_eq_true_eq, ClosureRow.key, Prod.mk.injEq]
  exact exists_congr fun r => and_assoc

theorem mem_ancestorsOf {target : Uuid} :
    x ∈ ancestorsOf closure target ↔ (x, target) ∈ closure.map ClosureRow.key := by
  simp only [ancestorsOf, mem_map, mem_filter, decide_eq_true_eq, ClosureRow.key, Prod.mk.injEq]
  exact exists_congr fun r => ⟨fun h => ⟨h.1.1, h.2, h.1.2⟩, fun h => ⟨⟨h.1, h.2.2⟩, h.2.1⟩⟩

theorem recomputeBarriers_eq (tenants : List Tenant) (target : Uuid)
    (hkeys : Keyed ClosureRow.key closure) :
    recomputeBarriers tenants closure target = closure.map fun r =>
      if r.descendantId ∈ descendantsOf closure target then
        r.rebarrier (snapshotOf tenants closure target) target r else r := by
  have hcand : Keyed ClosureRow.key
      (closure.filter fun r => r.descendantId ∈ descendantsOf closure target) :=
    hkeys.sublist (filter_sublist.map ClosureRow.key)
  refine (foldl_updateWhere_key (rewriteBarrier_eq (snapshotOf tenants closure target) target)
    (fun _ _ => rfl) hcand closure).trans ?_
  refine map_congr_left fun r hr => ?_
  have hlookup : lookup ClosureRow.key
      (closure.filter fun r => r.descendantId ∈ descendantsOf closure target) r.key =
      if r.descendantId ∈ descendantsOf closure target then some r else none := by
    refine (lookup_filter_key
      (fun k : Uuid × Uuid => k.2 ∈ descendantsOf closure target) r.key).trans ?_
    rw [hkeys.lookup_of_mem hr]
    by_cases hmem : r.descendantId ∈ descendantsOf closure target <;> simp [ClosureRow.key, hmem]
  rw [hlookup]
  split <;> rfl

theorem barrier_rebarrier (snapshot : List Tenant) (target : Uuid) (r : ClosureRow) :
    (r.rebarrier snapshot target r).barrier = if r.ancestorId ≠ r.descendantId ∧
          strictPathCrosses snapshot r.ancestorId r.descendantId target then
        barrierOf (strictPathHasSelfManaged snapshot r.ancestorId r.descendantId)
      else r.barrier := by
  unfold ClosureRow.rebarrier newBarrier
  by_cases hself : r.ancestorId = r.descendantId
  · simp [hself]
  by_cases hcross : strictPathCrosses snapshot r.ancestorId r.descendantId target
  · by_cases heq : barrierOf (strictPathHasSelfManaged snapshot r.ancestorId r.descendantId) =
        r.barrier <;>
      simp [hself, hcross, heq]
  · simp [hcross]

namespace Hierarchy

variable {s s' : Hierarchy} {i x a target : Uuid} {f : Tenant → Tenant} {n k : ℕ}

/-! ### The walks that a conversion meets -/

theorem parentOf_changeTenant (hk : s.KeepsPlace i f) :
    (s.changeTenant i f).parentOf = s.parentOf := by
  funext x
  rw [parentOf, find_changeTenant hk.id, Option.bind_map]
  refine congrArg (Option.bind (s.find x)) (funext fun t => ?_)
  split
  · exact hk.parentId t
  · rfl

/-- Every tenant on a walk through the target is above the target or below it. -/
theorem Sound.mem_snapshot_of_up (hs : s.Sound) (hx : (s.visible x).isSome)
    (htarget : up s.parentOf k x = some target) (hy : up s.parentOf n x = some a) :
    a ∈ ancestorsOf s.closure target ∨ a ∈ descendantsOf s.closure target := by
  rcases Nat.le_total n k with hle | hle
  · obtain ⟨y, hxy, hup⟩ := exists_up_of_le htarget hle
    obtain rfl := Option.some.inj (hy.symm.trans hxy)
    exact .inr (mem_descendantsOf.2 (hs.covers a (hs.visible_of_up hx hy) _ _ hup))
  · obtain ⟨y, hxy, hup⟩ := exists_up_of_le hy hle
    obtain rfl := Option.some.inj (htarget.symm.trans hxy)
    exact .inl (mem_ancestorsOf.2 (hs.covers target (hs.visible_of_up hx htarget) _ _ hup))

theorem Sound.mem_descendantsOf_iff (hs : s.Sound) : x ∈ descendantsOf s.closure target ↔
      (s.visible x).isSome ∧ ∃ k, up s.parentOf k x = some target := by
  rw [mem_descendantsOf]
  constructor
  · intro hmem
    obtain ⟨r, hr, hkey⟩ := mem_map.1 hmem
    obtain ⟨rfl, rfl⟩ := Prod.mk.inj hkey
    obtain ⟨-, k, hk, -⟩ := hs.describes r hr
    exact ⟨(hs.describes r hr).visible, k, hk⟩
  · rintro ⟨hx, k, hk⟩
    exact hs.covers x hx k target hk

theorem lookup_snapshotOf {tenants : List Tenant} {closure : List ClosureRow}
    (hx : x ∈ ancestorsOf closure target ∨ x ∈ descendantsOf closure target) :
    lookup Tenant.id (snapshotOf tenants closure target) x =
      lookup Tenant.id tenants x := by
  refine (lookup_filter_key
    (fun id => id ∈ ancestorsOf closure target ∨ id ∈ descendantsOf closure target) x).trans ?_
  rw [if_pos (decide_eq_true hx)]

section Flip

variable {b : Bool}

/-- The mode of one tenant is set. -/
def flip (s : Hierarchy) (target : Uuid) (b : Bool) : Hierarchy :=
  s.changeTenant target fun t => { t with selfManaged := b }

theorem keepsPlace_flip (s : Hierarchy) (target : Uuid) (b : Bool) :
    s.KeepsPlace target fun t => { t with selfManaged := b } := {}

theorem parentOf_flip : (s.flip target b).parentOf = s.parentOf :=
  parentOf_changeTenant (keepsPlace_flip s target b)

theorem visible_flip (x : Uuid) : (s.flip target b).visible x = s.visible x := by
  rw [visible, flip, find_changeTenant (keepsPlace_flip s target b).id, Option.map_map]
  split <;> rfl

theorem managesItself_flip_of_ne (hx : x ≠ target) :
    (s.flip target b).ManagesItself x ↔ s.ManagesItself x := by
  rw [ManagesItself, ManagesItself, flip, find_changeTenant (keepsPlace_flip s target b).id]
  simp [hx]

theorem isBarrier_flip_of_forall_ne {barrier : ℤ}
    (h : ∀ k < n, up s.parentOf k x ≠ some target) (hb : s.IsBarrier n x barrier) :
    (s.flip target b).IsBarrier n x barrier := by
  have hcross : Crosses (s.flip target b).parentOf (s.flip target b).ManagesItself n x ↔
      Crosses s.parentOf s.ManagesItself n x := by
    rw [parentOf_flip]
    refine crosses_congr_of_up fun k hk y hy => managesItself_flip_of_ne ?_
    rintro rfl
    exact h k hk hy
  rw [IsBarrier, hcross]
  exact hb

/-- The snapshot that is read after the flip. -/
def flipSnapshot (s : Hierarchy) (target : Uuid) (b : Bool) : List Tenant :=
  snapshotOf (s.flip target b).tenants s.closure target

/-- **The walks of a conversion see what they need.**  On a walk through the target the links are
in the snapshot, and the hops suffice. -/
theorem Sound.strictPathMeets_flipSnapshot (hs : s.Sound) (hx : (s.visible x).isSome)
    (htarget : up s.parentOf k x = some target) (ha : up s.parentOf n x = some a) :
    strictPathMeets (s.flipSnapshot target b) test a ((s.flipSnapshot target b).length + 1)
        (some x) = true ↔ Crosses s.parentOf (fun y => test y = true) n x := by
  have hlookup : ∀ k y, up s.parentOf k x = some y →
      lookup Tenant.id (s.flipSnapshot target b) y = (s.flip target b).find y :=
    fun k y hy => lookup_snapshotOf (hs.mem_snapshot_of_up hx htarget hy)
  refine strictPathMeets_iff hs.acyclic (fun k _ y hy => ?_) ha (Nat.lt_succ_of_lt ?_)
  · rw [hlookup k y hy]
    exact congrFun parentOf_flip y
  · rw [← length_map Tenant.id]
    refine hs.acyclic.lt_length ha fun k _ y hy => ?_
    have hvisible : ((s.flip target b).visible y).isSome := by
      rw [visible_flip]
      exact hs.visible_of_up hx hy
    obtain ⟨t, ht, -⟩ := isSome_visible_iff.1 hvisible
    have ht := (hlookup k y hy).trans ht
    exact mem_map.2 ⟨t, mem_of_lookup ht, key_of_lookup ht⟩

/-- The row of a walk through the target gets the barrier of the walk after the flip. -/
theorem Sound.isBarrier_recomputed (hs : s.Sound) (hx : (s.visible x).isSome)
    (htarget : up s.parentOf k x = some target) (ha : up s.parentOf n x = some a) :
    (s.flip target b).IsBarrier n x
      (barrierOf (strictPathHasSelfManaged (s.flipSnapshot target b) a x)) := by
  refine isBarrier_barrierOf ?_
  rw [strictPathHasSelfManaged, hs.strictPathMeets_flipSnapshot hx htarget ha, parentOf_flip]
  refine crosses_congr_of_up fun j _ y hy => ?_
  rw [flipSnapshot, lookup_snapshotOf (hs.mem_snapshot_of_up hx htarget hy)]
  change _ ↔ ∃ t ∈ (s.flip target b).find y, _
  rw [← find]
  cases (s.flip target b).find y <;> simp

theorem Sound.describes_rebarrier (hs : s.Sound) {r : ClosureRow} (hr : r ∈ s.closure) :
    (s.flip target b).Describes
      (if r.descendantId ∈ descendantsOf s.closure target then
        r.rebarrier (s.flipSnapshot target b) target r
      else r) := by
  obtain ⟨hstatus, n, hn, hb⟩ := hs.describes r hr
  have hx := (hs.describes r hr).visible
  have hn' : up (s.flip target b).parentOf n r.descendantId = some r.ancestorId := by
    rw [parentOf_flip]
    exact hn
  rw [← visible_flip] at hstatus
  split
  case isTrue hmem =>
    obtain ⟨-, k, hk⟩ := hs.mem_descendantsOf_iff.1 hmem
    refine ⟨hstatus, n, hn', ?_⟩
    rw [barrier_rebarrier]
    split
    case isTrue => exact hs.isBarrier_recomputed hx hk hn
    case isFalse hcond =>
      -- a row that is passed over has a walk that does not meet the target below its end
      refine isBarrier_flip_of_forall_ne (fun j hj hup => hcond ⟨?_, ?_⟩) hb
      · intro heq
        have hzero := hs.acyclic.eq_of_up hn (heq ▸ rfl : up s.parentOf 0 _ = some r.ancestorId)
        omega
      · rw [strictPathCrosses, hs.strictPathMeets_flipSnapshot hx hk hn]
        exact ⟨j, hj, target, hup, decide_eq_true rfl⟩
  case isFalse hmem =>
    refine ⟨hstatus, n, hn', isBarrier_flip_of_forall_ne (fun j _ hup => ?_) hb⟩
    exact hmem (hs.mem_descendantsOf_iff.2 ⟨hx, j, hup⟩)

end Flip

/-- **A conversion keeps the tables sound.** -/
theorem Sound.applyConversionApproval {input : ApplyConversionApprovalInput} (hs : s.Sound)
    (h : applyConversionApproval s input = .ok s') : s'.Sound := by
  simp only [Tenants.applyConversionApproval, Except.bind_eq_ok_iff, Except.ok.injEq] at h
  obtain ⟨-, -, -, -, -, -, -, -, -, -, -, -, -, -, -, -, -, -, -, -, -, -, rfl⟩ := h
  generalize hb : decide (input.targetMode = .selfManaged) = b
  have hclosure := recomputeBarriers_eq (s.flip input.targetTenantId b).tenants
    input.targetTenantId hs.keys
  refine Sound.withRequests (s := { s.flip input.targetTenantId b with
    closure := recomputeBarriers (s.flip input.targetTenantId b).tenants s.closure
      input.targetTenantId }) ?_ _
  rw [hclosure]
  have hkey : (s.closure.map fun r =>
      if r.descendantId ∈ descendantsOf s.closure input.targetTenantId then
        r.rebarrier (s.flipSnapshot input.targetTenantId b) input.targetTenantId r
      else r).map ClosureRow.key = s.closure.map ClosureRow.key := by
    rw [map_map]
    refine map_congr_left fun r _ => ?_
    dsimp only [Function.comp]
    split <;> rfl
  refine { hs.toPlanted.changeTenant (keepsPlace_flip s input.targetTenantId b) with
    keys := ?_, describes := ?_, covers := ?_ }
  · rw [Keyed]
    exact hkey ▸ hs.keys
  · intro row hrow
    obtain ⟨r, hr, rfl⟩ := mem_map.1 hrow
    exact hs.describes_rebarrier hr
  · intro id hid n a ha
    have hid : (s.visible id).isSome := visible_flip id ▸ hid
    have ha : up s.parentOf n id = some a := parentOf_flip ▸ ha
    exact hkey ▸ hs.covers id hid n a ha

end Hierarchy

end Gears.Tenants
