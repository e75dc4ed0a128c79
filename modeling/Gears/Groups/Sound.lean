import Gears.Groups.Model
import Gears.Lib.Forest
import Gears.Lib.Machine

/-!
# What the group tables mean

* `GroupStore.parentOf` : the parent links as a function.
* `GroupStore.Describes` : a closure row says how many links are between its two groups.
* `GroupStore.Linked` : the links form a forest, and the closure lists its walks.
* `GroupStore.Sound` : moreover limits, types and tenants are kept.
-/

namespace Gears.Groups

open Forest Except List

namespace GroupStore

/-- The parent link of a group. -/
def parentOf (s : GroupStore) (id : Uuid) : Option Uuid := (s.findModelById id).bind Group.parentId

/-- The group is there. -/
def Present (s : GroupStore) (id : Uuid) : Prop := (s.findModelById id).isSome

/-- The row gives the number of links from a group that is there to an ancestor. -/
def Describes (s : GroupStore) (row : ClosureRow) : Prop :=
  s.Present row.descendantId ∧ up s.parentOf row.depth row.descendantId = some row.ancestorId

/-- The links form a forest, and the closure lists its walks. -/
structure Linked (s : GroupStore) : Prop where
  ids : Table.Keyed Group.id s.groups
  keys : Table.Keyed ClosureRow.key s.closure
  present : ∀ id p, s.parentOf id = some p → s.Present p
  acyclic : Acyclic s.parentOf
  rows : ∀ row, row ∈ s.closure ↔ s.Describes row

/-- No walk is as long as the depth limit. -/
def WithinDepth (s : GroupStore) (cfg : GroupConfig) : Prop :=
  ∀ m ∈ cfg.profile.maxDepth, ∀ id, s.Present id → ∀ n a, up s.parentOf n id = some a → n < m.toNat

/-- No parent has more children than the width limit. -/
def WithinWidth (s : GroupStore) (cfg : GroupConfig) : Prop :=
  ∀ m ∈ cfg.profile.maxWidth, ∀ p, s.countChildren p ≤ m.toNat

/-- The type of a group allows its place. -/
def TypeFits (s : GroupStore) (cfg : GroupConfig) (g : Group) : Prop :=
  ∃ ty, cfg.findByCode g.code = some ty ∧
    (g.parentId = none → ty.canBeRoot = true) ∧
    ∀ p ∈ g.parentId, ∀ q ∈ s.findModelById p, q.code ∈ ty.allowedParentTypes

/-- A group that is not of a tenant type has the tenant of its parent. -/
def TenantFits (s : GroupStore) (cfg : GroupConfig) (g : Group) : Prop :=
  cfg.isTenant g.code = false → ∀ p ∈ g.parentId, ∀ q ∈ s.findModelById p, g.tenantId = q.tenantId

/-- A root of a tenant type. -/
def TenantRoot (cfg : GroupConfig) (g : Group) : Prop :=
  g.parentId = none ∧ cfg.isTenant g.code = true

/-- What every committed store is. -/
structure Sound (cfg : GroupConfig) (s : GroupStore) : Prop extends Linked s where
  depth : s.WithinDepth cfg
  width : s.WithinWidth cfg
  types : ∀ g ∈ s.groups, s.TypeFits cfg g
  tenants : ∀ g ∈ s.groups, s.TenantFits cfg g
  oneRoot : ∀ g ∈ s.groups, TenantRoot cfg g → ∀ g' ∈ s.groups, TenantRoot cfg g' → g = g'

variable {s s' : GroupStore} {cfg : GroupConfig} {id p a : Uuid} {n : ℕ} {g : Group}

theorem parentOf_eq_some_iff :
    s.parentOf id = some p ↔ ∃ g, s.findModelById id = some g ∧ g.parentId = some p := by
  rw [parentOf, Option.bind_eq_some_iff]

theorem present_of_parentOf (h : s.parentOf id = some p) : s.Present id := by
  obtain ⟨g, hg, -⟩ := parentOf_eq_some_iff.1 h
  exact Option.isSome_of_mem hg

namespace Linked

section

variable (hs : s.Linked)
include hs

theorem find_of_mem (hg : g ∈ s.groups) : s.findModelById g.id = some g :=
  hs.ids.lookup_of_mem hg

theorem parentOf_of_mem (hg : g ∈ s.groups) : s.parentOf g.id = g.parentId := by
  rw [parentOf, hs.find_of_mem hg, Option.bind_some]

theorem closed : ∀ x ∈ {x | s.Present x}, ∀ p, s.parentOf x = some p →
    p ∈ {x | s.Present x} := fun x _ p hp => hs.present x p hp

theorem present_of_up (hid : s.Present id) (ha : up s.parentOf n id = some a) :
    s.Present a := mem_of_up (s := {x | s.Present x}) hs.closed hid ha

theorem mem_closure_iff {d : Uuid} :
    ⟨a, d, n⟩ ∈ s.closure ↔ s.Present d ∧ up s.parentOf n d = some a := hs.rows _

theorem mem_subtree_iff {x : Uuid} :
    x ∈ (s.closure.filter fun r => r.ancestorId = id).map ClosureRow.descendantId ↔
      s.Present x ∧ ∃ k, up s.parentOf k x = some id := by
  simp only [mem_map, mem_filter, decide_eq_true_eq]
  constructor
  · rintro ⟨r, ⟨hr, rfl⟩, rfl⟩
    obtain ⟨hx, hup⟩ := (hs.rows r).1 hr
    exact ⟨hx, _, hup⟩
  · rintro ⟨hx, k, hup⟩
    exact ⟨⟨id, x, k⟩, ⟨hs.mem_closure_iff.2 ⟨hx, hup⟩, rfl⟩, rfl⟩

theorem isDescendant_of_up {x : Uuid} (hx : s.Present x) (hup : up s.parentOf n x = some id) :
    s.isDescendant id x = true := by
  simp only [isDescendant, any_eq_true, decide_eq_true_eq]
  exact ⟨⟨id, x, n⟩, hs.mem_closure_iff.2 ⟨hx, hup⟩, rfl, rfl⟩

end

end Linked

theorem le_getD_max? {l : List ℕ} {k : ℕ} (hk : k ∈ l) : k ≤ l.max?.getD 0 := by
  cases h : l.max? with
  | none => rw [max?_eq_none_iff.1 h] at hk; cases hk
  | some m => exact (max?_eq_some_iff.1 h).2 k hk

theorem Linked.le_getDepth (hs : s.Linked) (hid : s.Present id)
    (ha : up s.parentOf n id = some a) : n ≤ s.getDepth id := by
  refine le_getD_max? (mem_map.2 ⟨⟨a, id, n⟩, mem_filter.2 ⟨?_, ?_⟩, rfl⟩)
  · exact hs.mem_closure_iff.2 ⟨hid, ha⟩
  · exact decide_eq_true rfl

theorem Linked.le_getMaxDescendantDepth (hs : s.Linked) {d : Uuid} (hd : s.Present d)
    (ha : up s.parentOf n d = some id) : n ≤ s.getMaxDescendantDepth id := by
  rcases Nat.eq_zero_or_pos n with rfl | hn
  · exact Nat.zero_le _
  refine le_getD_max? (mem_map.2 ⟨⟨id, d, n⟩, mem_filter.2 ⟨?_, ?_⟩, rfl⟩)
  · exact hs.mem_closure_iff.2 ⟨hd, ha⟩
  · exact decide_eq_true ⟨rfl, Nat.ne_of_gt hn⟩

theorem asI32_le (limit : UInt32) : asI32 limit ≤ limit.toNat := by
  have h := BitVec.toInt_eq_toNat_cond limit.toBitVec
  have hcast : limit.toBitVec.toNat = limit.toNat := rfl
  rw [asI32, h]
  split <;> omega

theorem lt_of_checkDepth {deepest : ℕ} {message : UInt32 → String}
    (h : checkDepth cfg deepest message = .ok ()) :
    ∀ m ∈ cfg.profile.maxDepth, deepest < m.toNat := by
  intro m hm
  simp only [checkDepth, forSome_eq_ok_iff, rejectIf_eq_ok_iff] at h
  have := h m hm
  have := asI32_le m
  omega

theorem lt_of_checkWidth {owner : String} (h : checkWidth cfg s p owner = .ok ()) :
    ∀ m ∈ cfg.profile.maxWidth, s.countChildren p < m.toNat := by
  intro m hm
  simp only [checkWidth, forSome_eq_ok_iff, rejectIf_eq_ok_iff, not_le] at h
  exact h m hm

end GroupStore

end Gears.Groups
