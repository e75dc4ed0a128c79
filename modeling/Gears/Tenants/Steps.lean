import Gears.Tenants.Sound
import Mathlib

/-!
# Transactions that leave the modes alone

Insertion, status changes and deletion keep the tables sound.

* `Planted.changeTenant` : a row may change as long as the tenant keeps its place.
* `Planted.removeTenant` : a tenant without children may go.
* `Sound.insertProvisioning`, `Sound.compensateProvisioning`, `Sound.setStatus`,
  `Sound.scheduleDeletion`, `Sound.hardDeleteOne` : what the transactions keep.
-/

namespace Gears.Tenants

open Forest Except List Table

namespace Hierarchy

variable {s s' : Hierarchy} {i x : Uuid} {f : Tenant → Tenant}

/-! ### One tenant's row changes -/

/-- Change the row of one tenant. -/
def changeTenant (s : Hierarchy) (i : Uuid) (f : Tenant → Tenant) : Hierarchy :=
  { s with tenants := updateWhere (·.id = i) f s.tenants }

/-- The change keeps the tenant where it is, does not hide it, and deletes it only as the last. -/
structure KeepsPlace (s : Hierarchy) (i : Uuid) (f : Tenant → Tenant) : Prop where
  id : ∀ t, (f t).id = t.id := by exact fun _ => rfl
  parentId : ∀ t, (f t).parentId = t.parentId := by exact fun _ => rfl
  depth : ∀ t, (f t).depth = t.depth := by exact fun _ => rfl
  -- the defaults below are those of a change that leaves the status alone
  visible : ∀ t ∈ s.find i, (f t).status = .provisioning → t.status = .provisioning := by
    exact fun _ _ h => h
  alive : ∀ t ∈ s.find i, (f t).status ≠ .deleted → t.status ≠ .deleted := by exact fun _ _ h => h
  last : ∀ t ∈ s.find i, (f t).status = .deleted → t.status = .deleted ∨
    ∀ c ∈ s.tenants, c.parentId = some i → c.status = .deleted := by exact fun _ _ h => .inl h

theorem find_changeTenant (hid : ∀ t, (f t).id = t.id) (x : Uuid) :
    (s.changeTenant i f).find x = (s.find x).map fun t => if x = i then f t else t := by
  rw [find, changeTenant, lookup_updateWhere_key hid]
  split
  · rfl
  · rw [Option.map_id']
    rfl

theorem ite_change {α : Type*} {g : Tenant → α} (h : ∀ t, g (f t) = g t) (c : Prop) [Decidable c]
    (t : Tenant) : g (if c then f t else t) = g t := by
  split
  · exact h t
  · rfl

theorem Planted.changeTenant (hs : s.Planted) (hk : s.KeepsPlace i f) :
    (s.changeTenant i f).Planted where
  ids := hs.ids.updateWhere hk.id
  parents := by
    intro x t' ht' p hp
    rw [find_changeTenant hk.id, Option.map_eq_some_iff] at ht'
    obtain ⟨t, ht, rfl⟩ := ht'
    rw [ite_change hk.parentId] at hp
    obtain ⟨q, hq, hfits⟩ := hs.parents x t ht p hp
    refine ⟨_, by rw [find_changeTenant hk.id, hq, Option.map_some], ?_, ?_, ?_⟩
    · rw [ite_change hk.depth, ite_change hk.depth]
      exact hfits.depth
    · split
      case isTrue h =>
        subst h
        exact fun hprov => hfits.visible (hk.visible q hq hprov)
      case isFalse => exact hfits.visible
    · intro halive
      have ht_alive : t.status ≠ .deleted := by
        split at halive
        case isTrue h =>
          subst h
          exact hk.alive t ht halive
        case isFalse => exact halive
      split
      case isTrue h =>
        subst h
        intro hdel
        rcases hk.last q hq hdel with hdel | hdel
        · exact hfits.alive ht_alive hdel
        · exact ht_alive (hdel t (mem_of_lookup ht) hp)
      case isFalse => exact hfits.alive ht_alive
  oneRoot := by
    intro t₁ h₁ hroot₁ t₂ h₂ hroot₂
    obtain ⟨u₁, hu₁, rfl⟩ := mem_updateWhere.1 h₁
    obtain ⟨u₂, hu₂, rfl⟩ := mem_updateWhere.1 h₂
    rw [ite_change hk.parentId] at hroot₁ hroot₂
    rw [hs.oneRoot u₁ hu₁ hroot₁ u₂ hu₂ hroot₂]

/-- A change that keeps the place and the mode of a tenant leaves the walks alone. -/
theorem KeepsPlace.agreeOn (hk : s.KeepsPlace i f) (hmode : ∀ t, (f t).selfManaged = t.selfManaged)
    : AgreeOn s (s.changeTenant i f) Set.univ := by
  refine .of_map_find_eq (fun x => ?_) fun x => ?_
  · rw [find_changeTenant hk.id, Option.map_map]
    exact congrArg (Option.map · (s.find x)) (funext (ite_change hk.parentId _))
  · rw [find_changeTenant hk.id, Option.map_map]
    exact congrArg (Option.map · (s.find x)) (funext (ite_change hmode _))

theorem visible_changeTenant_of_ne (hid : ∀ t, (f t).id = t.id) (hx : x ≠ i) :
    (s.changeTenant i f).visible x = s.visible x := by
  rw [visible, visible, find_changeTenant hid]
  simp [hx]

theorem visible_changeTenant_self {t : Tenant} (hid : ∀ t, (f t).id = t.id)
    (ht : s.find i = some t) (hvisible : (f t).status ≠ .provisioning) :
    (s.changeTenant i f).visible i = some (f t).status := by
  rw [visible_eq_some_iff]
  exact ⟨f t, by rw [find_changeTenant hid, ht]; simp, rfl, hvisible⟩

theorem Sound.changeTenant (hs : s.Sound) (hk : s.KeepsPlace i f)
    (hmode : ∀ t, (f t).selfManaged = t.selfManaged) (hstatus : ∀ t, (f t).status = t.status) :
    (s.changeTenant i f).Sound := by
  have hagree := hk.agreeOn hmode
  have hvisible : ∀ x, (s.changeTenant i f).visible x = s.visible x := by
    intro x
    rw [visible, find_changeTenant hk.id, Option.map_map]
    refine congrArg (Option.filter TenantStatus.isSdkVisible) ?_
    exact congrArg (Option.map · (s.find x)) (funext (ite_change hstatus _))
  refine { hs.toPlanted.changeTenant hk with keys := hs.keys, describes := ?_, covers := ?_ }
  · exact fun row hrow => hagree.describes trivial (hvisible _) (hs.describes row hrow)
  · intro id hid n a ha
    rw [hvisible] at hid
    rw [hagree.up trivial] at ha
    exact hs.covers id hid n a ha

theorem Sound.rewriteStatus {status : TenantStatus} {operation : String} (hs : s.Sound)
    (h : rewriteStatus s i f status operation = .ok s') (hk : s.KeepsPlace i f)
    (hmode : ∀ t, (f t).selfManaged = t.selfManaged) (hstatus : ∀ t, (f t).status = status)
    (hvisible : status ≠ .provisioning) {t : Tenant} (ht : s.find i = some t)
    (hprov : t.status ≠ .provisioning) : s'.Sound := by
  simp only [Tenants.rewriteStatus, ok_iffs, Except.ok.injEq] at h
  obtain ⟨-, -, rfl⟩ := h
  have hagree := hk.agreeOn hmode
  have hself : (s.changeTenant i f).visible i = some status := by
    rw [visible_changeTenant_self hk.id ht (by rw [hstatus]; exact hvisible), hstatus]
  refine { hs.toPlanted.changeTenant hk with keys := ?_, describes := ?_, covers := ?_ }
  · exact hs.keys.updateWhere fun _ => rfl
  · intro row' hrow'
    obtain ⟨row, hrow, rfl⟩ := mem_updateWhere.1 hrow'
    obtain ⟨hold, n, hn, hb⟩ := hs.describes row hrow
    split
    case isTrue hrow =>
      obtain rfl := of_decide_eq_true hrow
      exact ⟨⟨status, hself, rfl⟩, n, (hagree.up trivial n).trans hn,
        (hagree.isBarrier trivial).2 hb⟩
    case isFalse hrow =>
      have hne : row.descendantId ≠ i := by simpa using hrow
      refine hagree.describes trivial ?_ ⟨hold, n, hn, hb⟩
      exact visible_changeTenant_of_ne hk.id hne
  · intro id hid n a ha
    rw [map_key_updateWhere (by intro r; rfl)]
    have ha : up s.parentOf n id = some a := (hagree.up trivial n).symm.trans ha
    refine hs.covers id ?_ n a ha
    by_cases hne : id = i
    · subst hne
      exact isSome_visible_iff.2 ⟨t, ht, hprov⟩
    · exact (visible_changeTenant_of_ne hk.id hne) ▸ hid

theorem Sound.setStatus {newStatus : TenantStatus} (hs : s.Sound)
    (h : setStatus s i newStatus = .ok s') : s'.Sound := by
  simp only [Tenants.setStatus, ok_iffs] at h
  obtain ⟨-, hdel, -, hprov, t, ht, -, htdel, -, htprov, h⟩ := h
  split at h
  · cases h
    exact hs
  · refine hs.rewriteStatus h ?_ (fun _ => rfl) (fun _ => rfl) hprov ht htprov
    exact {
      visible := fun _ _ h => absurd h hprov
      alive := fun t' ht' _ => by
        obtain rfl := Option.mem_unique ht ht'
        exact htdel
      last := fun _ _ h => absurd h hdel }

theorem Sound.withRequests (hs : s.Sound) (requests : List ConversionRequest) :
    ({ s with requests := requests } : Hierarchy).Sound := { hs with }

theorem Sound.scheduleDeletion {deletedBy : Uuid} {now : ℕ} (hs : s.Sound)
    (h : scheduleDeletion s i deletedBy now = .ok s') : s'.Sound := by
  simp only [Tenants.scheduleDeletion, ok_iffs] at h
  obtain ⟨t, ht, h⟩ := h
  split at h
  · cases h
    exact hs.withRequests _
  · simp only [ok_iffs, ok.injEq] at h
    obtain ⟨-, hprov, -, hchildren, s₁, h₁, rfl⟩ := h
    refine Sound.withRequests ?_ _
    refine hs.rewriteStatus h₁ ?_ (fun _ => rfl) (fun _ => rfl) (by decide) ht hprov
    exact {
      visible := by simp
      alive := fun _ _ h => absurd rfl h
      last := fun _ _ _ => .inr fun c hc hparent => by
        by_contra hne
        exact hchildren ⟨c, hc, hparent, hne⟩ }

/-! ### Tenants come and go -/

theorem Planted.closed_present (hs : s.Planted) :
    ∀ x ∈ {x | (s.find x).isSome}, ∀ p, s.parentOf x = some p → p ∈ {x | (s.find x).isSome} :=
  fun _ _ _ hp => hs.find_parent hp

theorem isSome_find_of_visible (h : (s.visible x).isSome) : (s.find x).isSome := by
  obtain ⟨t, ht, -⟩ := isSome_visible_iff.1 h
  exact Option.isSome_of_mem ht

theorem Describes.visible {row : ClosureRow} (h : s.Describes row) :
    (s.visible row.descendantId).isSome := by
  obtain ⟨⟨status, hstatus, -⟩, -⟩ := h
  exact Option.isSome_of_mem hstatus

theorem visible_congr (h : s'.find x = s.find x) : s'.visible x = s.visible x := by
  rw [visible, visible, h]

theorem ne_of_visible {t : Tenant} (ht : s.find i = some t) (hprov : t.status = .provisioning)
    (hx : (s.visible x).isSome) : x ≠ i := by
  rintro rfl
  obtain ⟨t', ht', hvisible⟩ := isSome_visible_iff.1 hx
  obtain rfl := Option.some.inj (ht.symm.trans ht')
  exact hvisible hprov

theorem Sound.insertProvisioning {tenant : NewTenant} (hs : s.Sound)
    (h : insertProvisioning s tenant = .ok s') : s'.Sound := by
  simp only [Tenants.insertProvisioning, checkParent, ok_iffs, forSome_eq_ok_iff,
    insert_eq_some_iff, ok.injEq] at h
  obtain ⟨-, -, -, -, -, hparent, _, ⟨hfree, rfl⟩, -, hroot, rfl⟩ := h
  set s' : Hierarchy := { s with tenants := s.tenants ++ [tenant.row] } with hs'
  have hfind : ∀ x, s'.find x = if x = tenant.id then some tenant.row else s.find x :=
    lookup_append_singleton hfree
  have hold : ∀ x ∈ {x | (s.find x).isSome}, s'.find x = s.find x := by
    intro x hx
    rw [hfind, if_neg]
    rintro rfl
    have hnone : s.find tenant.id = none := hfree
    simp [hnone] at hx
  have hagree : AgreeOn s s' {x | (s.find x).isSome} := .of_find_eq hs.closed_present hold
  refine { ids := ?_, parents := ?_, oneRoot := ?_, keys := hs.keys, describes := ?_, covers := ?_ }
  · exact hs.ids.append_singleton hfree
  · intro x t ht p hp
    rw [hfind] at ht
    split at ht
    · cases ht
      obtain ⟨q, hq, -, -, -, hdepth, hactive⟩ := hparent p hp
      refine ⟨q, (hold p (Option.isSome_of_mem hq)).trans hq, ?_, ?_, ?_⟩
      · exact not_not.1 hdepth
      · rw [not_not.1 hactive]
        decide
      · rw [not_not.1 hactive]
        exact fun _ => by decide
    · obtain ⟨q, hq, hfits⟩ := hs.parents x t ht p hp
      exact ⟨q, (hold p (Option.isSome_of_mem hq)).trans hq, hfits⟩
  · intro t₁ h₁ hroot₁ t₂ h₂ hroot₂
    have hnew : ∀ t ∈ s.tenants, t.parentId = none → ¬ tenant.row.parentId = none :=
      fun t ht hnone hrow => hroot ⟨hrow, t, ht, hnone⟩
    rcases mem_append.1 h₁ with h₁ | h₁ <;> rcases mem_append.1 h₂ with h₂ | h₂
    · exact hs.oneRoot t₁ h₁ hroot₁ t₂ h₂ hroot₂
    · obtain rfl := mem_singleton.1 h₂
      exact absurd hroot₂ (hnew t₁ h₁ hroot₁)
    · obtain rfl := mem_singleton.1 h₁
      exact absurd hroot₁ (hnew t₂ h₂ hroot₂)
    · rw [mem_singleton.1 h₁, mem_singleton.1 h₂]
  · intro row hrow
    have hpresent := isSome_find_of_visible (hs.describes row hrow).visible
    exact hagree.describes hpresent (visible_congr (hold _ hpresent)) (hs.describes row hrow)
  · intro id hid n a ha
    have hne : id ≠ tenant.id := ne_of_visible ((hfind _).trans (if_pos rfl)) rfl hid
    have hsame : s'.find id = s.find id := by rw [hfind, if_neg hne]
    have hid : (s.visible id).isSome := visible_congr hsame ▸ hid
    rw [hagree.up (isSome_find_of_visible hid)] at ha
    exact hs.covers id hid n a ha

/-- Remove a tenant. -/
def removeTenant (s : Hierarchy) (i : Uuid) : Hierarchy :=
  { s with tenants := deleteWhere (·.id = i) s.tenants }

theorem find_removeTenant (x : Uuid) :
    (s.removeTenant i).find x = if x = i then none else s.find x :=
  lookup_deleteWhere_key i x

theorem find_removeTenant_of_ne (hx : x ≠ i) : (s.removeTenant i).find x = s.find x := by
  rw [find_removeTenant, if_neg hx]

theorem parentOf_ne_of_childless (hchild : ∀ t ∈ s.tenants, t.parentId ≠ some i) (x : Uuid) :
    s.parentOf x ≠ some i := by
  intro hp
  obtain ⟨t, ht, hp⟩ := parentOf_eq_some_iff.1 hp
  exact hchild t (mem_of_lookup ht) hp

theorem agreeOn_removeTenant (hchild : ∀ t ∈ s.tenants, t.parentId ≠ some i) :
    AgreeOn s (s.removeTenant i) {x | x ≠ i} := by
  refine .of_find_eq (fun x _ p hp => ?_) fun x hx => find_removeTenant_of_ne hx
  rintro rfl
  exact parentOf_ne_of_childless hchild x hp

theorem Planted.removeTenant (hs : s.Planted) (hchild : ∀ t ∈ s.tenants, t.parentId ≠ some i) :
    (s.removeTenant i).Planted where
  ids := hs.ids.deleteWhere
  parents := by
    intro x t ht p hp
    rw [find_removeTenant] at ht
    split at ht
    · cases ht
    · obtain ⟨q, hq, hfits⟩ := hs.parents x t ht p hp
      have hne : p ≠ i := by
        rintro rfl
        exact hchild t (mem_of_lookup ht) hp
      exact ⟨q, (find_removeTenant_of_ne hne).trans hq, hfits⟩
  oneRoot t₁ h₁ hroot₁ t₂ h₂ hroot₂ :=
    hs.oneRoot t₁ (mem_deleteWhere.1 h₁).1 hroot₁ t₂ (mem_deleteWhere.1 h₂).1 hroot₂

theorem ne_of_visible_removeTenant (h : ((s.removeTenant i).visible x).isSome) : x ≠ i := by
  rintro rfl
  obtain ⟨t, ht, -⟩ := isSome_visible_iff.1 h
  rw [find_removeTenant, if_pos rfl] at ht
  cases ht

theorem visible_removeTenant_of_ne (hx : x ≠ i) : (s.removeTenant i).visible x = s.visible x :=
  visible_congr (find_removeTenant_of_ne hx)

/-- A tenant without children goes, with its rows. -/
theorem Sound.removed (hs : s.Sound) (hchild : ∀ t ∈ s.tenants, t.parentId ≠ some i)
    {closure : List ClosureRow} (hkeys : Keyed ClosureRow.key closure)
    (hrows : ∀ r, r ∈ closure ↔ r ∈ s.closure ∧ r.ancestorId ≠ i ∧ r.descendantId ≠ i) :
    ({ s.removeTenant i with closure } : Hierarchy).Sound := by
  have hagree := agreeOn_removeTenant hchild
  refine { hs.toPlanted.removeTenant hchild with keys := hkeys, describes := ?_, covers := ?_ }
  · intro r hr
    obtain ⟨hr, -, hne⟩ := (hrows r).1 hr
    exact hagree.describes hne (visible_removeTenant_of_ne hne) (hs.describes r hr)
  · intro id hid n a ha
    have hne : id ≠ i := ne_of_visible_removeTenant hid
    have ha : up s.parentOf n id = some a := (hagree.up hne n).symm.trans ha
    have hid : (s.visible id).isSome := visible_removeTenant_of_ne hne ▸ hid
    obtain ⟨row, hrow, hkey⟩ := mem_map.1 (hs.covers id hid n a ha)
    obtain ⟨rfl, rfl⟩ := Prod.mk.inj hkey
    -- the walk does not meet the removed tenant, so its row stays
    exact mem_map.2 ⟨row, (hrows row).2 ⟨hrow, mem_of_up hagree.closed hne ha, hne⟩, rfl⟩

theorem Sound.compensateProvisioning {expectedClaimedBy : Option Uuid} (hs : s.Sound)
    (h : compensateProvisioning s i expectedClaimedBy = .ok s') : s'.Sound := by
  unfold Tenants.compensateProvisioning at h
  split at h
  · cases h
    exact hs
  case h_2 row hrow =>
    simp only [ok_iffs, ok.injEq, not_not] at h
    obtain ⟨-, hprov, -, -, rfl⟩ := h
    -- a provisioning tenant is nobody's parent, so no walk meets it
    have hchild : ∀ t ∈ s.tenants, t.parentId ≠ some i := by
      intro t ht hp
      obtain ⟨q, hq, hfits⟩ := hs.parents t.id t (hs.find_of_mem ht) i hp
      obtain rfl := Option.some.inj (hrow.symm.trans hq)
      exact hfits.visible hprov
    refine hs.removed hchild hs.keys fun r => ⟨fun hr => ?_, And.left⟩
    have hvisible := (hs.describes r hr).visible
    obtain ⟨-, n, hn, -⟩ := hs.describes r hr
    exact ⟨hr, ne_of_visible hrow hprov (hs.visible_of_up hvisible hn),
      ne_of_visible hrow hprov hvisible⟩

theorem Sound.hardDeleteOne (hs : s.Sound) (i claimedBy : Uuid) :
    (hardDeleteOne s i claimedBy).Sound := by
  unfold Tenants.hardDeleteOne
  split
  · exact hs
  split_ifs with hstatus hclaim hchildren
  · exact hs
  · exact hs
  · exact hs
  refine Sound.withRequests (hs.removed (fun t ht hp => hchildren ⟨t, ht, hp⟩)
    hs.keys.deleteWhere fun r => ?_) _
  simp [mem_deleteWhere]

end Hierarchy

end Gears.Tenants
