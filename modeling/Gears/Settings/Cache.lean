import Gears.Settings.Model
import Mathlib

/-!
# The effective-value cache

The cache of one instance, bounded in number and in time.  Its entries are stored by
compare-and-swap against a generation that every invalidation moves.

* `CacheStore.get`, `CacheStore.populate` : lookup and store.
* `CacheStore.invalidate`, `CacheStore.invalidateTenants`, `CacheStore.invalidateSubtree` :
  evictions.
* `CacheStore.Shrinks` : what every operation but a store does to the entries.
-/

namespace Gears.Settings

open Table

/-- A key at a tenant. -/
abbrev Slot := String × Uuid

/-- A value in its slot, and when it was stored. -/
structure Entry where
  slot : Slot
  storedAt : ℕ
  value : EffectiveValue
  deriving Repr, DecidableEq

/-- The invalidations that had touched a key and a tenant, natural numbers for `u64`. -/
structure Generation where
  key : ℕ
  tenant : ℕ
  deriving Repr, DecidableEq

/-- The entries, the order they were stored in, and the counts of invalidations. -/
structure CacheStore where
  entries : List Entry
  order : List (Slot × ℕ)
  keyGenerations : String → ℕ
  tenantGenerations : Uuid → ℕ

/-- The time-to-live and the capacity. -/
structure CacheConfig where
  ttl : ℕ
  maxEntries : ℕ
  deriving Repr, DecidableEq

namespace CacheStore

/-- The cache of a new instance. -/
def empty : CacheStore := ⟨[], [], fun _ => 0, fun _ => 0⟩

section

variable (c : CacheStore)

/-- The generation of a slot. -/
def generation (key : String) (tenant : Uuid) : Generation :=
  ⟨c.keyGenerations key, c.tenantGenerations tenant⟩

/-- Count an invalidation of a key. -/
def bumpKey (key : String) : CacheStore :=
  { c with keyGenerations := Function.update c.keyGenerations key (c.keyGenerations key + 1) }

/-- Count an invalidation of a tenant. -/
def bumpTenant (tenant : Uuid) : CacheStore :=
  { c with
    tenantGenerations := Function.update c.tenantGenerations tenant
      (c.tenantGenerations tenant + 1) }

/-- Remove the entry of a slot when it is the one that was stored at the instant. -/
def removeIfStoredAt (entries : List Entry) (slot : Slot) (storedAt : ℕ) : List Entry × Bool :=
  if (lookup Entry.slot entries slot).any (·.storedAt = storedAt) then
    (deleteWhere (·.slot = slot) entries, true)
  else (entries, false)

/-- Drop the entries at the head of the order that are past the time-to-live. -/
def sweepExpired (ttl now : ℕ) (entries : List Entry) :
    List (Slot × ℕ) → List Entry × List (Slot × ℕ)
  | [] => (entries, [])
  | (slot, storedAt) :: order =>
    if ttl < now - storedAt then
      sweepExpired ttl now (removeIfStoredAt entries slot storedAt).1 order
    else (entries, (slot, storedAt) :: order)

/-- Evict the oldest entry that is still held. -/
def evictOldest (entries : List Entry) : List (Slot × ℕ) → List Entry × List (Slot × ℕ)
  | [] => (entries, [])
  | (slot, storedAt) :: order =>
    if (removeIfStoredAt entries slot storedAt).2 then
      ((removeIfStoredAt entries slot storedAt).1, order)
    else evictOldest entries order

/-- Look up a slot; an entry past the time-to-live is removed and reported as a miss. -/
def get (cfg : CacheConfig) (now : ℕ) (c : CacheStore) (slot : Slot) :
    Option EffectiveValue × CacheStore :=
  match lookup Entry.slot c.entries slot with
  | none => (none, c)
  | some entry =>
    if cfg.ttl < now - entry.storedAt then
      (none, { c with entries := deleteWhere (·.slot = slot) c.entries })
    else (some entry.value, c)

/-- Store a value under the generation that its read captured, unless that has moved. -/
def populate (cfg : CacheConfig) (now : ℕ) (c : CacheStore) (value : EffectiveValue)
    (seen : Generation) : CacheStore :=
  if c.generation value.key value.tenantId ≠ seen then c
  else
    let slot : Slot := (value.key, value.tenantId)
    let (entries, order) := sweepExpired cfg.ttl now c.entries c.order
    let (entries, order) :=
      if (lookup Entry.slot entries slot).isNone ∧ max cfg.maxEntries 1 ≤ entries.length then
        evictOldest entries order
      else (entries, order)
    { c with
      entries := deleteWhere (·.slot = slot) entries ++ [⟨slot, now, value⟩]
      order := order ++ [(slot, now)] }

/-- A change of a value at a scope reaches every scope of the key, unless it is a local one. -/
def reachesKey (scopeClass : ScopeClass) (tenant : Option Uuid) : Bool :=
  scopeClass = .cascading ∨ scopeClass = .global ∨ tenant = none

/-- Evict for a change of a setting at one scope. -/
def invalidate (key : String) (scopeClass : ScopeClass) (tenant : Option Uuid) : CacheStore :=
  let c := c.bumpKey key
  if reachesKey scopeClass tenant then
    { c with entries := deleteWhere (·.slot.1 = key) c.entries }
  else
    { c with
      entries := deleteWhere (fun e => some e.slot.2 = tenant ∧ e.slot.1 = key) c.entries }

/-- Evict a key at some tenants, for a change of access. -/
def invalidateTenants (key : String) (tenants : List Uuid) : CacheStore :=
  let c := c.bumpKey key
  { c with entries := deleteWhere (fun e => e.slot.1 = key ∧ e.slot.2 ∈ tenants) c.entries }

/-- Evict every entry of some tenants, for a change of the hierarchy. -/
def invalidateSubtree (tenants : List Uuid) : CacheStore :=
  let c := tenants.dedup.foldl bumpTenant c
  { c with entries := deleteWhere (·.slot.2 ∈ tenants) c.entries }

end

/-- No entry is new. -/
def Shrinks (c c' : CacheStore) : Prop := ∀ e ∈ c'.entries, e ∈ c.entries

variable {e : Entry} {entries : List Entry} {now : ℕ} {c : CacheStore} {order : List (Slot × ℕ)}
  {value : EffectiveValue} {cfg : CacheConfig}

theorem mem_of_removeIfStoredAt {slot : Slot} {storedAt : ℕ}
    (he : e ∈ (removeIfStoredAt entries slot storedAt).1) : e ∈ entries := by
  unfold removeIfStoredAt at he
  split at he
  · exact (mem_deleteWhere.1 he).1
  · exact he

theorem mem_of_sweepExpired {ttl : ℕ} (he : e ∈ (sweepExpired ttl now entries order).1) :
    e ∈ entries := by
  induction order generalizing entries with
  | nil => exact he
  | cons head order ih =>
    rw [sweepExpired] at he
    split at he
    · exact mem_of_removeIfStoredAt (ih he)
    · exact he

theorem mem_of_evictOldest (he : e ∈ (evictOldest entries order).1) : e ∈ entries := by
  induction order with
  | nil => exact he
  | cons head order ih =>
    rw [evictOldest] at he
    split at he
    · exact mem_of_removeIfStoredAt he
    · exact ih he

theorem shrinks_get (cfg : CacheConfig) (now : ℕ) (c : CacheStore) (slot : Slot) :
    c.Shrinks (c.get cfg now slot).2 := by
  unfold get
  split
  · exact fun _ he => he
  · split
    · exact fun _ he => (mem_deleteWhere.1 he).1
    · exact fun _ he => he

theorem exists_of_get {slot : Slot} (h : (c.get cfg now slot).1 = some value) :
    ∃ e ∈ c.entries, e.slot = slot ∧ e.value = value := by
  unfold get at h
  split at h
  · cases h
  case h_2 entry hentry =>
    split at h
    · cases h
    · exact ⟨entry, mem_of_lookup hentry, key_of_lookup hentry, Option.some.inj h⟩

/-- **A store adds its value alone**, and only when its generation is still current. -/
theorem mem_of_populate {seen : Generation} (he : e ∈ (c.populate cfg now value seen).entries) :
    e ∈ c.entries ∨
      c.generation value.key value.tenantId = seen ∧ e.slot = (value.key, value.tenantId) ∧
        e.value = value := by
  unfold populate at he
  split at he
  · exact .inl he
  case isFalse hgen =>
    rcases List.mem_concat_iff.1 he with he | rfl
    · left
      have he := (mem_deleteWhere.1 he).1
      split at he
      · exact mem_of_sweepExpired (mem_of_evictOldest he)
      · exact mem_of_sweepExpired he
    · exact .inr ⟨not_not.1 hgen, rfl, rfl⟩

/-! ### Generations -/

@[simp] theorem keyGenerations_get (cfg : CacheConfig) (now : ℕ) (c : CacheStore) (slot : Slot) :
    (c.get cfg now slot).2.keyGenerations = c.keyGenerations := by
  unfold get
  split
  · rfl
  · split <;> rfl

@[simp] theorem keyGenerations_populate (cfg : CacheConfig) (now : ℕ) (c : CacheStore)
    (value : EffectiveValue) (seen : Generation) :
    (c.populate cfg now value seen).keyGenerations = c.keyGenerations := by
  unfold populate
  split <;> rfl

@[simp] theorem keyGenerations_invalidate (c : CacheStore) (key : String) (scopeClass : ScopeClass)
    (tenant : Option Uuid) : (c.invalidate key scopeClass tenant).keyGenerations =
      Function.update c.keyGenerations key (c.keyGenerations key + 1) := by
  unfold invalidate
  split <;> rfl

theorem foldl_bumpTenant (tenants : List Uuid) (c : CacheStore) :
    (tenants.foldl bumpTenant c).keyGenerations = c.keyGenerations ∧
      (tenants.foldl bumpTenant c).entries = c.entries := by
  induction tenants generalizing c with
  | nil => exact ⟨rfl, rfl⟩
  | cons t tenants ih => exact ih _

@[simp] theorem keyGenerations_invalidateSubtree (c : CacheStore) (tenants : List Uuid) :
    (c.invalidateSubtree tenants).keyGenerations = c.keyGenerations :=
  (foldl_bumpTenant _ c).1

theorem shrinks_invalidateTenants (c : CacheStore) (key : String) (tenants : List Uuid) :
    c.Shrinks (c.invalidateTenants key tenants) := fun _ he => (mem_deleteWhere.1 he).1

theorem shrinks_invalidateSubtree (c : CacheStore) (tenants : List Uuid) :
    c.Shrinks (c.invalidateSubtree tenants) := by
  intro e he
  have he := (mem_deleteWhere.1 he).1
  rwa [(foldl_bumpTenant _ c).2] at he

/-- The slots that an invalidation is for. -/
def Reaches (key : String) (scopeClass : ScopeClass) (tenant : Option Uuid) (slot : Slot) : Prop :=
  slot.1 = key ∧ (reachesKey scopeClass tenant = true ∨ tenant = some slot.2)

/-- **An invalidation leaves nothing in the slots it is for.** -/
theorem mem_of_invalidate {key : String} {scopeClass : ScopeClass}
    {tenant : Option Uuid} (he : e ∈ (c.invalidate key scopeClass tenant).entries) :
    e ∈ c.entries ∧ ¬ Reaches key scopeClass tenant e.slot := by
  unfold invalidate at he
  split at he
  case isTrue hall =>
    obtain ⟨he, hne⟩ := mem_deleteWhere.1 he
    exact ⟨he, fun h => hne (decide_eq_true h.1)⟩
  case isFalse hall =>
    obtain ⟨he, hne⟩ := mem_deleteWhere.1 he
    exact ⟨he, fun h => hne (decide_eq_true ⟨(h.2.resolve_left hall).symm, h.1⟩)⟩

end CacheStore

end Gears.Settings
