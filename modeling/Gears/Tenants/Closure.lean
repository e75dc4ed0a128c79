import Gears.Tenants.Conversion

/-!
# The closure table never drifts

Over every history of transactions from the empty hierarchy, the closure table is the list of the
walks along the parent links.

* `Hierarchy.InStep` : the closure holds what the parent links, modes and statuses say.
* `Sound.step` : every transaction keeps the tables sound.
* `closure_never_drifts` : the closure is in step after every history.
-/

namespace Gears.Tenants

open Forest Table

namespace Hierarchy

variable {s s' : Hierarchy}

/-- The closure is in step with the tenants. -/
structure InStep (s : Hierarchy) : Prop where
  /-- An identifier is that of one tenant. -/
  ids : Table.Keyed Tenant.id s.tenants
  /-- A pair of tenants has one row. -/
  keys : Table.Keyed ClosureRow.key s.closure
  /-- The rows are those of the walks from the tenants that are not provisioning: the walk of no
  link, with barrier 0, and one for each strict ancestor. -/
  rows : ∀ row, row ∈ s.closure ↔ ∃ t ∈ s.tenants, t.status ≠ .provisioning ∧
    row.descendantId = t.id ∧ row.descendantStatus = t.status.asSmallint ∧
      ∃ n, up s.parentOf n t.id = some row.ancestorId ∧ s.IsBarrier n t.id row.barrier
  /-- Every walk reaches the one root. -/
  root : ∀ t ∈ s.tenants, ∃ r ∈ s.tenants, (∃ n, up s.parentOf n t.id = some r.id) ∧
    r.parentId = none ∧ ∀ r' ∈ s.tenants, r'.parentId = none → r' = r
  /-- The parent of a tenant that is not deleted is there and not deleted. -/
  parents : ∀ t ∈ s.tenants, t.status ≠ .deleted → ∀ p, t.parentId = some p →
    ∃ q ∈ s.tenants, q.id = p ∧ q.status ≠ .deleted

theorem Sound.inStep (hs : s.Sound) : s.InStep where
  ids := hs.ids
  keys := hs.keys
  rows := by
    intro row
    rw [hs.mem_closure_iff]
    constructor
    · rintro ⟨⟨status, hstatus, hrow⟩, hwalk⟩
      obtain ⟨t, ht, rfl, hprov⟩ := visible_eq_some_iff.1 hstatus
      have hid : t.id = row.descendantId := key_of_lookup ht
      rw [← hid] at hwalk
      exact ⟨t, mem_of_lookup ht, hprov, hid.symm, hrow, hwalk⟩
    · rintro ⟨t, ht, hprov, hdesc, hstatus, hwalk⟩
      refine ⟨⟨t.status, ?_, hstatus⟩, hdesc ▸ hwalk⟩
      rw [hdesc]
      exact visible_eq_some_iff.2 ⟨t, hs.find_of_mem ht, rfl, hprov⟩
  root := by
    intro t ht
    obtain ⟨n, x, hn, hroot⟩ := exists_up_root _ hs.depth_lt t.id
    have hx : x ∈ {x | (s.find x).isSome} :=
      mem_of_up hs.closed_present (Option.isSome_of_mem (hs.find_of_mem ht)) hn
    obtain ⟨r, hr⟩ := Option.isSome_iff_exists.1 hx
    obtain rfl : r.id = x := key_of_lookup hr
    have hmem := mem_of_lookup hr
    have hnone : r.parentId = none := by rwa [parentOf, hr] at hroot
    exact ⟨r, hmem, ⟨n, hn⟩, hnone, fun r' hr' hnone' => hs.oneRoot r' hr' hnone' r hmem hnone⟩
  parents := by
    intro t ht halive p hp
    obtain ⟨q, hq, hfits⟩ := hs.parents t.id t (hs.find_of_mem ht) p hp
    exact ⟨q, mem_of_lookup hq, key_of_lookup hq, hfits.alive halive⟩

theorem sound_empty : empty.Sound where
  ids := keyed_nil
  keys := keyed_nil
  parents _ _ h := by cases h
  oneRoot _ h := by cases h
  describes _ h := by cases h
  covers _ h := by cases h

theorem Sound.step {e : HierarchyEvent} (hs : s.Sound) (h : s.step e = .ok s') : s'.Sound := by
  cases e with
  | insertProvisioning tenant => exact hs.insertProvisioning h
  | activateTenant tenantId rows => exact hs.activateTenant h
  | compensateProvisioning tenantId expectedClaimedBy => exact hs.compensateProvisioning h
  | setStatus tenantId newStatus => exact hs.setStatus h
  | scheduleDeletion id deletedBy now => exact hs.scheduleDeletion h
  | applyConversionApproval input => exact hs.applyConversionApproval h
  | hardDeleteOne id claimedBy =>
    cases h
    exact hs.hardDeleteOne id claimedBy
  | claim | stampTerminal =>
    cases h
    exact hs.changeTenant {} (fun _ => rfl) fun _ => rfl
  | request request =>
    cases h
    exact hs.withRequests _

end Hierarchy

/-- **The closure never drifts.**  After every history of transactions from the empty hierarchy,
the closure is in step with the tenants. -/
theorem closure_never_drifts {events : List HierarchyEvent} {s : Hierarchy}
    (hrun : Machine.run Hierarchy.step .empty events = .ok s) : s.InStep :=
  (Machine.run_invariant (fun _ _ _ hs h => hs.step h) hrun Hierarchy.sound_empty).inStep

/-- A history with a root, two levels below it, a conversion, a suspension and a deletion. -/
def sampleHistory : List HierarchyEvent :=
  let tenant (id : Uuid) (parentId : Option Uuid) (depth : ℕ) : HierarchyEvent :=
    .insertProvisioning ⟨id, parentId, false, 7, depth⟩
  [ tenant 1 none 0, .activateTenant 1 [⟨1, 1, 0, 1⟩],
    tenant 2 (some 1) 1, .activateTenant 2 [⟨1, 2, 0, 1⟩, ⟨2, 2, 0, 1⟩],
    tenant 3 (some 2) 2, .activateTenant 3 [⟨1, 3, 0, 1⟩, ⟨2, 3, 0, 1⟩, ⟨3, 3, 0, 1⟩],
    tenant 4 (some 1) 1, .compensateProvisioning 4 none,
    tenant 5 (some 2) 2, .activateTenant 5 [⟨5, 5, 0, 1⟩, ⟨2, 5, 0, 1⟩, ⟨1, 5, 0, 1⟩],
    .request ⟨9, 2, some 1, .selfManaged, .pending, none, none, none, none⟩,
    .applyConversionApproval ⟨9, 2, .selfManaged, 7, 7, 8, 100⟩,
    .setStatus 3 .suspended,
    .scheduleDeletion 5 8 200, .claim 5 (some 6), .hardDeleteOne 5 6 ]

/-- The history runs, and the conversion has put its barrier on the walks that leave the converted
tenant. -/
theorem closure_never_drifts_sample : ∃ s, Machine.run Hierarchy.step .empty sampleHistory = .ok s ∧
      s.closure = [⟨1, 1, 0, 1⟩, ⟨1, 2, 1, 1⟩, ⟨2, 2, 0, 1⟩, ⟨1, 3, 1, 2⟩, ⟨2, 3, 0, 2⟩,
        ⟨3, 3, 0, 2⟩] ∧ s.InStep :=
  Except.exists_ok_of (by decide +kernel)
    fun _ hs hclosure => ⟨hclosure, closure_never_drifts hs⟩

end Gears.Tenants
