import Gears.Lib.Forest
import Gears.Lib.Machine
import Gears.Tenants.Model

/-!
# What the closure table means

The parent links of the tenants form a forest, and the closure table lists its walks.

* `Hierarchy.parentOf`, `Hierarchy.ManagesItself`, `Hierarchy.visible` : the tenants as functions.
* `Hierarchy.Describes` : a row says what the walk between its two tenants is.
* `Hierarchy.Planted` : the parents of tenants are there, and there is one root at most.
* `Hierarchy.Sound` : moreover the rows are those of the walks from the visible tenants, no more
  and no fewer.
-/

namespace Gears.Tenants

open Forest

variable {row : ClosureRow}

namespace Hierarchy

/-- The parent link of a tenant. -/
def parentOf (s : Hierarchy) (id : Uuid) : Option Uuid := (s.find id).bind Tenant.parentId

/-- The tenant exists and is self-managed. -/
def ManagesItself (s : Hierarchy) (id : Uuid) : Prop := ∃ t ∈ s.find id, t.selfManaged = true

/-- The status of a tenant that is not provisioning. -/
def visible (s : Hierarchy) (id : Uuid) : Option TenantStatus :=
  ((s.find id).map Tenant.status).filter TenantStatus.isSdkVisible

/-- The barrier of a walk: one when a tenant strictly below its end is self-managed. -/
def IsBarrier (s : Hierarchy) (n : ℕ) (descendant : Uuid) (barrier : ℤ) : Prop :=
  (barrier = 1 ∧ Crosses s.parentOf s.ManagesItself n descendant) ∨
    (barrier = 0 ∧ ¬ Crosses s.parentOf s.ManagesItself n descendant)

/-- The row describes a walk from a visible tenant: its status, where the walk ends, its barrier. -/
def Describes (s : Hierarchy) (row : ClosureRow) : Prop :=
  (∃ status ∈ s.visible row.descendantId, row.descendantStatus = status.asSmallint) ∧
    ∃ n, up s.parentOf n row.descendantId = some row.ancestorId ∧
      s.IsBarrier n row.descendantId row.barrier

/-- A parent fits its child: it is one level up, visible, and not deleted before the child. -/
structure FitsParent (child parent : Tenant) : Prop where
  depth : child.depth = parent.depth + 1
  visible : parent.status ≠ .provisioning
  alive : child.status ≠ .deleted → parent.status ≠ .deleted

/-- The tenants are a tree: the parents are there and fit, and one tenant at most has none. -/
structure Planted (s : Hierarchy) : Prop where
  ids : Table.Keyed Tenant.id s.tenants
  parents : ∀ id t, s.find id = some t → ∀ p, t.parentId = some p →
    ∃ q, s.find p = some q ∧ FitsParent t q
  oneRoot : ∀ t ∈ s.tenants, t.parentId = none → ∀ t' ∈ s.tenants, t'.parentId = none → t = t'

/-- The closure agrees with the tenants. -/
structure Sound (s : Hierarchy) : Prop extends Planted s where
  keys : Table.Keyed ClosureRow.key s.closure
  describes : ∀ row ∈ s.closure, s.Describes row
  covers : ∀ id, (s.visible id).isSome → ∀ n a, up s.parentOf n id = some a →
    (a, id) ∈ s.closure.map ClosureRow.key

variable {s : Hierarchy} {id a p : Uuid} {n : ℕ} {t : Tenant}

theorem visible_eq_some_iff {status : TenantStatus} : s.visible id = some status ↔
      ∃ t, s.find id = some t ∧ t.status = status ∧ status ≠ .provisioning := by
  simp only [visible, Option.filter_eq_some_iff, TenantStatus.isSdkVisible,
    Option.map_eq_some_iff, bne_iff_ne]
  constructor
  · rintro ⟨⟨t, ht, hstatus⟩, hne⟩
    exact ⟨t, ht, hstatus, hne⟩
  · rintro ⟨t, ht, hstatus, hne⟩
    exact ⟨⟨t, ht, hstatus⟩, hne⟩

theorem isSome_visible_iff :
    (s.visible id).isSome ↔ ∃ t, s.find id = some t ∧ t.status ≠ .provisioning := by
  rw [Option.isSome_iff_exists]
  simp only [visible_eq_some_iff]
  constructor
  · rintro ⟨_, t, ht, rfl, hne⟩
    exact ⟨t, ht, hne⟩
  · rintro ⟨t, ht, hne⟩
    exact ⟨t.status, t, ht, rfl, hne⟩

theorem parentOf_eq_some_iff :
    s.parentOf id = some p ↔ ∃ t, s.find id = some t ∧ t.parentId = some p := by
  rw [parentOf, Option.bind_eq_some_iff]

namespace Planted

section

variable (hs : s.Planted)
include hs

theorem find_of_mem (ht : t ∈ s.tenants) : s.find t.id = some t :=
  hs.ids.lookup_of_mem ht

theorem depth_lt (x p : Uuid) (hp : s.parentOf x = some p) :
    ((s.find p).map Tenant.depth).getD 0 < ((s.find x).map Tenant.depth).getD 0 := by
  obtain ⟨t, ht, hp⟩ := parentOf_eq_some_iff.1 hp
  obtain ⟨q, hq, hfits⟩ := hs.parents x t ht p hp
  have := hfits.depth
  simp only [ht, hq, Option.map_some, Option.getD_some]
  omega

theorem acyclic : Acyclic s.parentOf := acyclic_of_rank _ hs.depth_lt

theorem find_parent (hp : s.parentOf id = some p) : (s.find p).isSome := by
  obtain ⟨t, ht, hp⟩ := parentOf_eq_some_iff.1 hp
  obtain ⟨q, hq, -⟩ := hs.parents id t ht p hp
  exact Option.isSome_of_mem hq

theorem visible_of_up (hid : (s.visible id).isSome) (ha : up s.parentOf n id = some a) :
    (s.visible a).isSome := by
  refine mem_of_up (s := {x | (s.visible x).isSome}) (fun x _ p hp => ?_) hid ha
  obtain ⟨t, ht, hp⟩ := parentOf_eq_some_iff.1 hp
  obtain ⟨q, hq, hfits⟩ := hs.parents x t ht p hp
  exact isSome_visible_iff.2 ⟨q, hq, hfits.visible⟩

end

end Planted

theorem IsBarrier.unique {b b' : ℤ} (h : s.IsBarrier n id b) (h' : s.IsBarrier n id b') :
    b = b' := by
  rcases h with ⟨rfl, hc⟩ | ⟨rfl, hc⟩ <;> rcases h' with ⟨rfl, hc'⟩ | ⟨rfl, hc'⟩
  · rfl
  · exact absurd hc hc'
  · exact absurd hc' hc
  · rfl

theorem Describes.unique {row' : ClosureRow} (hacyclic : Acyclic s.parentOf) (h : s.Describes row)
    (h' : s.Describes row') (hkey : row.key = row'.key) : row = row' := by
  obtain ⟨a, d, b, st⟩ := row
  obtain ⟨a', d', b', st'⟩ := row'
  obtain ⟨rfl, rfl⟩ := Prod.mk.inj hkey
  obtain ⟨⟨v, hv, rfl⟩, n, hn, hb⟩ := h
  obtain ⟨⟨v', hv', rfl⟩, n', hn', hb'⟩ := h'
  obtain rfl := Option.mem_unique hv hv'
  obtain rfl := hacyclic.eq_of_up hn hn'
  obtain rfl := hb.unique hb'
  rfl

theorem Sound.mem_closure_iff (hs : s.Sound) : row ∈ s.closure ↔ s.Describes row := by
  refine ⟨hs.describes row, fun h => ?_⟩
  have ⟨⟨v, hv, _⟩, n, hn, _⟩ := h
  obtain ⟨row', hmem, hkey⟩ :=
    List.mem_map.1 (hs.covers row.descendantId (Option.isSome_of_mem hv) n _ hn)
  rwa [h.unique hs.acyclic (hs.describes row' hmem) hkey.symm]

/-! ### Changes that leave walks alone -/

/-- Two hierarchies have the same links and modes on a set of tenants that the links stay in. -/
structure AgreeOn (s s' : Hierarchy) (ids : Set Uuid) : Prop where
  closed : ∀ x ∈ ids, ∀ p, s.parentOf x = some p → p ∈ ids
  parentOf : ∀ x ∈ ids, s'.parentOf x = s.parentOf x
  managesItself : ∀ x ∈ ids, s'.ManagesItself x ↔ s.ManagesItself x

variable {s' : Hierarchy} {ids : Set Uuid}

theorem AgreeOn.up (h : AgreeOn s s' ids) (hid : id ∈ ids) (n : ℕ) :
    up s'.parentOf n id = up s.parentOf n id := up_congr h.closed h.parentOf hid n

theorem AgreeOn.isBarrier (h : AgreeOn s s' ids) (hid : id ∈ ids) {b : ℤ} :
    s'.IsBarrier n id b ↔ s.IsBarrier n id b := by
  rw [IsBarrier, IsBarrier, crosses_congr h.closed h.parentOf h.managesItself hid]

theorem AgreeOn.describes (h : AgreeOn s s' ids) (hid : row.descendantId ∈ ids)
    (hvisible : s'.visible row.descendantId = s.visible row.descendantId) (hrow : s.Describes row) :
    s'.Describes row := by
  obtain ⟨hstatus, n, hn, hb⟩ := hrow
  exact ⟨hvisible ▸ hstatus, n, (h.up hid n).trans hn, (h.isBarrier hid).2 hb⟩

theorem AgreeOn.of_find_eq (hclosed : ∀ x ∈ ids, ∀ p, s.parentOf x = some p → p ∈ ids)
    (hfind : ∀ x ∈ ids, s'.find x = s.find x) : AgreeOn s s' ids where
  closed := hclosed
  parentOf x hx := by rw [Hierarchy.parentOf, Hierarchy.parentOf, hfind x hx]
  managesItself x hx := by rw [ManagesItself, ManagesItself, hfind x hx]

theorem AgreeOn.of_map_find_eq
    (hparent : ∀ x, (s'.find x).map Tenant.parentId = (s.find x).map Tenant.parentId)
    (hmode : ∀ x, (s'.find x).map Tenant.selfManaged = (s.find x).map Tenant.selfManaged) :
    AgreeOn s s' Set.univ where
  closed _ _ _ _ := trivial
  parentOf x _ := by
    have := congrArg (Option.bind · fun p => p) (hparent x)
    simpa [Hierarchy.parentOf, Option.bind_map] using this
  managesItself x _ := by
    have : (∃ b ∈ (s'.find x).map Tenant.selfManaged, b = true) ↔
        ∃ b ∈ (s.find x).map Tenant.selfManaged, b = true := by rw [hmode x]
    simpa [ManagesItself] using this

end Hierarchy

end Gears.Tenants
