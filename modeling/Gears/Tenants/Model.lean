import Gears.Lib.Except
import Gears.Lib.Table
import Gears.Lib.Uuid
import Mathlib.Data.Finset.Card

/-!
# Tenant hierarchy and its closure table

The account-management repository: tenants with parent links, the closure table that holds a row
for each tenant and ancestor, and the transactions that write them.  A transaction either commits
the hierarchy it returns or fails and leaves the one it began with.

* `Hierarchy` : the tables.
* `insertProvisioning`, `activateTenant`, `compensateProvisioning` : the creation saga.
* `setStatus`, `scheduleDeletion`, `hardDeleteOne` : the life of a tenant and its end.
* `applyConversionApproval` : a change of mode, with the barriers of the subtree.
* `HierarchyEvent`, `Hierarchy.step` : the transactions as events.
-/

namespace Gears.Tenants

open Except

/-! ### Rows -/

/-- The life of a tenant. -/
inductive TenantStatus where
  | provisioning | active | suspended | deleted
  deriving Repr, DecidableEq

namespace TenantStatus

/-- The stored number of a status. -/
def asSmallint : TenantStatus → ℤ
  | provisioning => 0
  | active => 1
  | suspended => 2
  | deleted => 3

/-- The text of a status. -/
def asStr : TenantStatus → String
  | provisioning => "provisioning"
  | active => "active"
  | suspended => "suspended"
  | deleted => "deleted"

/-- Provisioning tenants are not visible through the public interface. -/
def isSdkVisible (status : TenantStatus) : Bool := status != .provisioning

end TenantStatus

/-- A row of the tenants. -/
structure Tenant where
  id : Uuid
  parentId : Option Uuid
  status : TenantStatus
  selfManaged : Bool
  tenantTypeUuid : Uuid
  depth : ℕ
  deletedAt : Option ℕ
  claimedBy : Option Uuid
  terminalFailureAt : Option ℕ
  deriving Repr, DecidableEq

/-- A row of the closure table; the numbers are what the caller of an activation sends. -/
structure ClosureRow where
  ancestorId : Uuid
  descendantId : Uuid
  barrier : ℤ
  descendantStatus : ℤ
  deriving Repr, DecidableEq

/-- The primary key of the closure table. -/
def ClosureRow.key (row : ClosureRow) : Uuid × Uuid := (row.ancestorId, row.descendantId)

/-- The life of a conversion request. -/
inductive ConversionStatus where
  | pending | approved | cancelled | rejected | expired
  deriving Repr, DecidableEq

/-- The mode that a conversion leads to. -/
inductive TargetMode where
  | managed | selfManaged
  deriving Repr, DecidableEq

/-- The stored number of a mode. -/
def TargetMode.asSmallint : TargetMode → ℕ
  | managed => 0
  | selfManaged => 1

/-- A request to change the mode of a tenant. -/
structure ConversionRequest where
  id : Uuid
  tenantId : Uuid
  parentId : Option Uuid
  targetMode : TargetMode
  status : ConversionStatus
  approvedBy : Option Uuid
  cancelledBy : Option Uuid
  resolvedAt : Option ℕ
  deletedAt : Option ℕ
  deriving Repr, DecidableEq

/-- The refusals. -/
inductive DomainError where
  | notFound (detail : String) (resource : Uuid)
  | conversionRequestNotFound (detail : String) (resource : Uuid)
  | validation (detail : String)
  | conflict (detail : String)
  | alreadyResolved
  | alreadyExists
  | tenantHasChildren
  | internal (diagnostic : String)
  deriving Repr, DecidableEq

/-- The three tables. -/
structure Hierarchy where
  tenants : List Tenant
  closure : List ClosureRow
  requests : List ConversionRequest
  deriving Repr, DecidableEq

namespace Hierarchy

/-- The hierarchy before any transaction. -/
def empty : Hierarchy := ⟨[], [], []⟩

/-- The row of a tenant. -/
def find (s : Hierarchy) (id : Uuid) : Option Tenant := Table.lookup Tenant.id s.tenants id

end Hierarchy

/-! ### The creation saga -/

/-- What an insertion is given. -/
structure NewTenant where
  id : Uuid
  parentId : Option Uuid
  selfManaged : Bool
  tenantTypeUuid : Uuid
  depth : ℕ
  deriving Repr, DecidableEq

/-- The largest depth that can be stored. -/
def i32Max : ℕ := 2147483647

/-- The row that an insertion writes. -/
def NewTenant.row (tenant : NewTenant) : Tenant :=
  { tenant with
    status := .provisioning
    deletedAt := none
    claimedBy := none
    terminalFailureAt := none }

variable (s : Hierarchy)

/-- The fences before a child is inserted: its parent exists, is one level up and is active. -/
def checkParent (tenant : NewTenant) (parentId : Uuid) : Except DomainError Unit := do
  let parent ← okOr (s.find parentId)
    (.validation s!"parent tenant {parentId.text} not found")
  rejectIf (i32Max ≤ parent.depth) (.internal
    s!"parent depth overflow while validating child {tenant.id.text} under {parentId.text}")
  rejectIf (tenant.depth ≠ parent.depth + 1) (.validation
    (s!"child tenant {tenant.id.text} must have depth {parent.depth + 1} under parent " ++
      s!"{parentId.text} (got {tenant.depth})"))
  rejectIf (parent.status ≠ .active) (.validation
    s!"parent tenant {parentId.text} is not active")

/-- Insert a tenant in the provisioning state.  The table has one root at most, by its partial
unique index. -/
def insertProvisioning (tenant : NewTenant) : Except DomainError Hierarchy := do
  rejectIf (i32Max < tenant.depth) (.internal s!"depth overflow: {tenant.depth}")
  rejectIf (tenant.parentId = none ∧ tenant.depth ≠ 0) (.validation
    s!"root tenant {tenant.id.text} must have depth 0 (got {tenant.depth})")
  forSome tenant.parentId (checkParent s tenant)
  let tenants ← okOr (Table.insert Tenant.id tenant.row s.tenants) .alreadyExists
  rejectIf (tenant.parentId = none ∧ ∃ t ∈ s.tenants, t.parentId = none) .alreadyExists
  .ok { s with tenants := tenants }

/-- The checks on one closure row of an activation that need nothing but the row. -/
def checkClosureRow (tenantId : Uuid) (row : ClosureRow) : Except DomainError Unit := do
  rejectIf (row.descendantId ≠ tenantId) (.internal
    (s!"activate_tenant closure row for tenant {tenantId.text} has descendant_id " ++
      s!"{row.descendantId.text} (expected {tenantId.text})"))
  rejectIf (row.descendantStatus ≠ TenantStatus.active.asSmallint) (.internal
    (s!"activate_tenant closure row for tenant {tenantId.text} carries descendant_status " ++
      s!"{row.descendantStatus} (expected 1 = Active)"))
  rejectIf (row.barrier ≠ 0 ∧ row.barrier ≠ 1) (.internal
    (s!"activate_tenant closure row for tenant {tenantId.text} has barrier {row.barrier} " ++
      "(expected 0 or 1)"))
  rejectIf (row.ancestorId = tenantId ∧ row.barrier ≠ 0) (.internal
    (s!"activate_tenant self-row for tenant {tenantId.text} has non-zero barrier {row.barrier} " ++
      "(self-row barrier must be 0 per closure invariant)"))

/-- The number that a flag is stored as. -/
def barrierOf (b : Bool) : ℤ := if b then 1 else 0

/-- The barrier that a row of an activated child has to carry, from its parent's rows. -/
def expectedBarrier (existing : Tenant) (parentId : Uuid) (parentClosureRows : List ClosureRow)
    (row : ClosureRow) : Except DomainError ℤ :=
  if row.ancestorId = existing.id then .ok 0
  else if row.ancestorId = parentId then .ok (barrierOf existing.selfManaged)
  else do
    let parentStrictBarriers := parentClosureRows.filter fun r => r.ancestorId ≠ parentId
    let parentRow ← okOr
      (Table.lookup ClosureRow.ancestorId parentStrictBarriers row.ancestorId) (.internal
        (s!"activate_tenant strict ancestor {row.ancestorId.text} for tenant {existing.id.text} " ++
          s!"not present in parent {parentId.text}'s closure (post-identity-check invariant " ++
          "violation)"))
    .ok (barrierOf (existing.selfManaged || parentRow.barrier != 0))

/-- The checks on the rows of an activated child against the rows of its parent. -/
def checkAgainstParent (existing : Tenant) (rows : List ClosureRow)
    (parentId : Uuid) : Except DomainError Unit := do
  let parentClosureRows := s.closure.filter fun r => r.descendantId = parentId
  let parentClosureAncestors := (parentClosureRows.map ClosureRow.ancestorId).toFinset
  let inputStrictAncestors :=
    ((rows.filter fun r => r.ancestorId ≠ existing.id).map ClosureRow.ancestorId).toFinset
  rejectIf (inputStrictAncestors ≠ parentClosureAncestors) (.internal
    (s!"activate_tenant strict-ancestor IDs for tenant {existing.id.text} do not match parent " ++
      s!"{parentId.text}'s closure ancestors (expected {parentClosureAncestors.card}, got " ++
      s!"{inputStrictAncestors.card})"))
  rows.forM fun row => do
    let expected ← expectedBarrier existing parentId parentClosureRows row
    rejectIf (row.barrier ≠ expected) (.internal
      (s!"activate_tenant closure row (ancestor={row.ancestorId.text}, " ++
        s!"descendant={existing.id.text}) has barrier {row.barrier} but canonical recomputation " ++
        s!"yields {expected} (child_self_managed={existing.selfManaged})"))

/-- The rows of an activation name the strict ancestors of the tenant. -/
def checkStrictAncestors (existing : Tenant) (rows : List ClosureRow) : Except DomainError Unit :=
  match existing.parentId with
  | some parentId => checkAgainstParent s existing rows parentId
  | none => rejectIf (∃ r ∈ rows, r.ancestorId ≠ existing.id) (.internal
      (s!"activate_tenant root tenant {existing.id.text} has strict-ancestor row(s); root depth " ++
        "is 0 and only the self-row is permitted"))

/-- Activate a provisioning tenant and insert the closure rows the caller built for it. -/
def activateTenant (tenantId : Uuid) (rows : List ClosureRow) : Except DomainError Hierarchy := do
  let existing ← okOr (s.find tenantId)
    (.notFound s!"tenant {tenantId.text} not found for activation" tenantId)
  rejectIf (existing.status ≠ .provisioning)
    (.conflict s!"tenant {tenantId.text} not in provisioning state")
  rejectIf existing.claimedBy.isSome (.conflict
    (s!"tenant {tenantId.text} has been claimed by the provisioning reaper; refusing to " ++
      "activate (saga lost the race)"))
  rejectIf existing.terminalFailureAt.isSome (.conflict
    (s!"tenant {tenantId.text} is parked with terminal_failure_at; operator action required " ++
      "before activation"))
  rejectIf (rows = []) (.internal
    s!"activate_tenant received empty closure rows for tenant {tenantId.text}")
  let selfRowCount := rows.countP fun r => r.ancestorId = tenantId ∧ r.descendantId = tenantId
  rejectIf (selfRowCount ≠ 1) (.internal
    (s!"activate_tenant closure rows for tenant {tenantId.text} contain {selfRowCount} " ++
      s!"self-row(s); expected exactly one ({tenantId.text},{tenantId.text})"))
  rows.forM (checkClosureRow tenantId)
  rejectIf (rows.length ≠ existing.depth + 1) (.internal
    (s!"activate_tenant closure coverage mismatch for tenant {tenantId.text} " ++
      s!"(depth={existing.depth}): got {rows.length} rows, expected {existing.depth + 1} (one " ++
      "self-row plus one row per strict ancestor)"))
  checkStrictAncestors s existing rows
  let closure ← okOr (Table.insertMany ClosureRow.key rows s.closure) .alreadyExists
  .ok { s with
    tenants := Table.updateWhere (·.id = tenantId) (fun t => { t with status := .active }) s.tenants
    closure := closure }

/-- Remove a tenant that is still provisioning.  One that is gone already is no error. -/
def compensateProvisioning (tenantId : Uuid) (expectedClaimedBy : Option Uuid) :
    Except DomainError Hierarchy :=
  match s.find tenantId with
  | none => .ok s
  | some row => do
    rejectIf (row.status ≠ .provisioning) (.conflict
      s!"refusing to compensate: tenant {tenantId.text} not in provisioning state")
    rejectIf (row.terminalFailureAt.isSome ∨ row.claimedBy ≠ expectedClaimedBy) (.conflict
      (s!"refusing to compensate: tenant {tenantId.text} no longer eligible at delete " ++
        "(concurrent finalizer / peer-reaper claim or terminal stamp)"))
    .ok { s with tenants := Table.deleteWhere (·.id = tenantId) s.tenants }

/-- Rewrite the status of a tenant in its row and in its closure rows.  The closure has to hold a
row of the tenant. -/
def rewriteStatus (tenantId : Uuid) (update : Tenant → Tenant)
    (status : TenantStatus) (operation : String) : Except DomainError Hierarchy := do
  rejectIf (∀ r ∈ s.closure, r.descendantId ≠ tenantId) (.internal
    (s!"{operation}: closure descendant_status rewrite for tenant {tenantId.text} affected 0 " ++
      "rows; self-row missing"))
  .ok { s with
    tenants := Table.updateWhere (·.id = tenantId) update s.tenants
    closure := Table.updateWhere (·.descendantId = tenantId)
      (fun r => { r with descendantStatus := status.asSmallint }) s.closure }

/-- Suspend or resume a tenant. -/
def setStatus (tenantId : Uuid) (newStatus : TenantStatus) : Except DomainError Hierarchy := do
  rejectIf (newStatus = .deleted) (.conflict
    (s!"tenant {tenantId.text}: set_status cannot transition to deleted; use the soft-delete " ++
      "flow (`schedule_deletion`)"))
  rejectIf (newStatus = .provisioning) (.conflict
    s!"tenant {tenantId.text}: set_status cannot transition to provisioning")
  let row ← okOr (s.find tenantId) (.notFound s!"tenant {tenantId.text} not found" tenantId)
  rejectIf (row.status = .deleted) (.conflict
    s!"tenant {tenantId.text} is deleted; status is terminal during retention")
  rejectIf (row.status = .provisioning) (.conflict
    (s!"tenant {tenantId.text} is provisioning; lifecycle transitions are not permitted until " ++
      "activation completes"))
  if row.status = newStatus then .ok s
  else rewriteStatus s tenantId (fun t => { t with status := newStatus }) newStatus "set_status"

/-- Cancel the pending conversion requests of a tenant that is deleted. -/
def cancelPendingOnTenantDelete (requests : List ConversionRequest) (tenantId cancelledBy : Uuid)
    (resolvedAt : ℕ) : List ConversionRequest :=
  Table.updateWhere (fun r => r.tenantId = tenantId ∧ r.status = .pending ∧ r.deletedAt = none)
    (fun r => { r with
      status := .cancelled, cancelledBy := some cancelledBy, resolvedAt := some resolvedAt })
    requests

/-- Mark a tenant as deleted.  It may have no child that is not deleted; a second deletion only
cancels what is pending. -/
def scheduleDeletion (id deletedBy : Uuid) (now : ℕ) : Except DomainError Hierarchy := do
  let existing ← okOr (s.find id) (.notFound s!"tenant {id.text} not found" id)
  if existing.status = .deleted then
    .ok { s with requests := cancelPendingOnTenantDelete s.requests id deletedBy now }
  else do
    rejectIf (existing.status = .provisioning) (.conflict
      (s!"tenant {id.text} is in provisioning state; use the provisioning reaper to compensate, " ++
        "not soft-delete"))
    rejectIf (∃ t ∈ s.tenants, t.parentId = some id ∧ t.status ≠ .deleted)
      .tenantHasChildren
    let s ← rewriteStatus s id (fun t => { t with status := .deleted, deletedAt := some now })
      .deleted "schedule_deletion"
    .ok { s with requests := cancelPendingOnTenantDelete s.requests id deletedBy now }

/-- Remove a deleted tenant that the worker has claimed and that no row names as parent.  A tenant
that is not eligible is left as it is. -/
def hardDeleteOne (id claimedBy : Uuid) : Hierarchy :=
  match s.find id with
  | none => s
  | some row =>
    if row.status ≠ .deleted ∨ row.deletedAt = none then s
    else if row.claimedBy ≠ some claimedBy then s
    else if ∃ t ∈ s.tenants, t.parentId = some id then s
    else
      { tenants := Table.deleteWhere (·.id = id) s.tenants
        closure := Table.deleteWhere (fun r => r.ancestorId = id ∨ r.descendantId = id) s.closure
        requests := Table.deleteWhere (fun r => r.tenantId = id ∨ r.parentId = some id)
          s.requests }

/-! ### Change of mode -/

/-- Walk the parent links of a snapshot from a node up to the ancestor, not included, and ask
whether the test holds on the way.  The walk gives up after as many hops as it is given. -/
def strictPathMeets (snapshot : List Tenant) (test : Uuid → Bool) (ancestor : Uuid) :
    ℕ → Option Uuid → Bool
  | _, none => false
  | 0, some _ => false
  | hops + 1, some node =>
    if node = ancestor then false
    else if test node then true
    else strictPathMeets snapshot test ancestor hops
      ((Table.lookup Tenant.id snapshot node).bind Tenant.parentId)

variable (snapshot : List Tenant)

/-- Whether the target is on the path; the hop cap is one more than the size of the snapshot. -/
def strictPathCrosses (ancestor descendant target : Uuid) : Bool :=
  strictPathMeets snapshot (· = target) ancestor (snapshot.length + 1) (some descendant)

/-- Whether a self-managed tenant is on the path. -/
def strictPathHasSelfManaged (ancestor descendant : Uuid) : Bool :=
  strictPathMeets snapshot
    (fun node => ((Table.lookup Tenant.id snapshot node).map Tenant.selfManaged).getD false)
    ancestor (snapshot.length + 1) (some descendant)

/-- The barrier that a candidate row is given, when it has to change. -/
def newBarrier (target : Uuid) (row : ClosureRow) : Option ℤ :=
  if row.ancestorId = row.descendantId then none
  else if ¬ strictPathCrosses snapshot row.ancestorId row.descendantId target then none
  else
    let barrier := barrierOf (strictPathHasSelfManaged snapshot row.ancestorId row.descendantId)
    if barrier = row.barrier then none else some barrier

/-- Write the new barrier of one candidate row. -/
def rewriteBarrier (target : Uuid) (closure : List ClosureRow)
    (row : ClosureRow) : List ClosureRow :=
  match newBarrier snapshot target row with
  | none => closure
  | some barrier =>
    Table.updateWhere (·.key = row.key) (fun r => { r with barrier := barrier }) closure

/-- The tenants below the target, by the closure. -/
def descendantsOf (closure : List ClosureRow) (target : Uuid) : List Uuid :=
  (closure.filter fun r => r.ancestorId = target).map ClosureRow.descendantId

/-- The tenants above the target, by the closure. -/
def ancestorsOf (closure : List ClosureRow) (target : Uuid) : List Uuid :=
  (closure.filter fun r => r.descendantId = target).map ClosureRow.ancestorId

/-- The tenants whose links and modes are read for a conversion. -/
def snapshotOf (tenants : List Tenant) (closure : List ClosureRow) (target : Uuid) : List Tenant :=
  tenants.filter fun t => t.id ∈ ancestorsOf closure target ∨ t.id ∈ descendantsOf closure target

/-- Recompute the barriers of the rows below the converted tenant, from a snapshot of its ancestors
and descendants. -/
def recomputeBarriers (tenants : List Tenant) (closure : List ClosureRow) (target : Uuid) :
    List ClosureRow :=
  let candidateRows := closure.filter fun r => r.descendantId ∈ descendantsOf closure target
  candidateRows.foldl (rewriteBarrier (snapshotOf tenants closure target) target) closure

/-- What the service has checked before it approves a conversion. -/
structure ApplyConversionApprovalInput where
  requestId : Uuid
  targetTenantId : Uuid
  targetMode : TargetMode
  expectedTenantTypeUuid : Uuid
  expectedParentTenantTypeUuid : Uuid
  approverUuid : Uuid
  resolvedAt : ℕ
  deriving Repr, DecidableEq

/-- The tenant of a conversion or its parent is still active and of the type that was checked. -/
def checkConverting (row : Tenant) (expected : Uuid) (role : String) : Except DomainError Unit := do
  rejectIf (row.status ≠ .active) (.validation
    s!"{role} {row.id.text} is not active (status={row.status.asStr})")
  rejectIf (row.tenantTypeUuid ≠ expected) (.validation
    (s!"{role} {row.id.text} type changed under TX (expected {expected.text}, observed " ++
      s!"{row.tenantTypeUuid.text}); retry approve so the service re-runs the type " ++
      "compatibility check"))

/-- Apply an approved change of mode. -/
def applyConversionApproval (input : ApplyConversionApprovalInput) :
    Except DomainError Hierarchy := do
  rejectIf (input.approverUuid = Uuid.nil) (.internal
    "apply_conversion_approval: approver_uuid MUST NOT be Uuid::nil() (service-layer bug)")
  let reqRow ← okOr
    (s.requests.find? fun r => r.id = input.requestId ∧ r.deletedAt = none)
    (.conversionRequestNotFound s!"conversion request {input.requestId.text} not found"
      input.requestId)
  rejectIf (reqRow.status ≠ .pending) .alreadyResolved
  rejectIf (reqRow.tenantId ≠ input.targetTenantId) (.internal
    (s!"apply_conversion_approval: input.target_tenant_id ({input.targetTenantId.text}) does " ++
      s!"not match the reloaded request row's tenant_id ({reqRow.tenantId.text}); caller MUST " ++
      "pass values matching the row"))
  rejectIf (reqRow.targetMode ≠ input.targetMode) (.internal
    (s!"apply_conversion_approval: input.target_mode ({input.targetMode.asSmallint}) does not " ++
      s!"match the reloaded request row's target_mode ({reqRow.targetMode.asSmallint}); caller " ++
      "MUST pass values matching the row"))
  let parentIdFromReq ← okOr reqRow.parentId (.internal
    (s!"conversion {input.requestId.text}: parent_id missing on pending row; root-tenant guard " ++
      "should have rejected this earlier"))
  let tenantRow ← okOr (s.find input.targetTenantId)
    (.notFound s!"tenant {input.targetTenantId.text} not found" input.targetTenantId)
  checkConverting tenantRow input.expectedTenantTypeUuid "tenant"
  let parentRow ← okOr (s.find parentIdFromReq) (.internal
    (s!"conversion {input.requestId.text}: parent tenant {parentIdFromReq.text} hard-deleted " ++
      "between request and approve (FK cascade should have removed this request row first)"))
  checkConverting parentRow input.expectedParentTenantTypeUuid "parent tenant"
  rejectIf tenantRow.deletedAt.isSome (.validation
    (s!"tenant {input.targetTenantId.text} flip predicate did not match under TX (status or " ++
      "tenant_type_uuid changed between precheck and flip); retry approve"))
  let tenants := Table.updateWhere (·.id = input.targetTenantId)
    (fun t => { t with selfManaged := input.targetMode = .selfManaged }) s.tenants
  .ok
    { tenants := tenants
      closure := recomputeBarriers tenants s.closure input.targetTenantId
      requests := Table.updateWhere
        (fun r => r.id = input.requestId ∧ r.status = .pending ∧ r.deletedAt = none)
        (fun r => { r with
          status := .approved
          approvedBy := some input.approverUuid
          resolvedAt := some input.resolvedAt }) s.requests }

/-! ### Histories -/

/-- The transactions, and the writes of the workers around them: a claim that a reaper takes or
loses, a terminal stamp and a new conversion request. -/
inductive HierarchyEvent where
  | insertProvisioning (tenant : NewTenant)
  | activateTenant (tenantId : Uuid) (rows : List ClosureRow)
  | compensateProvisioning (tenantId : Uuid) (expectedClaimedBy : Option Uuid)
  | setStatus (tenantId : Uuid) (newStatus : TenantStatus)
  | scheduleDeletion (id deletedBy : Uuid) (now : ℕ)
  | applyConversionApproval (input : ApplyConversionApprovalInput)
  | hardDeleteOne (id claimedBy : Uuid)
  | claim (id : Uuid) (claimedBy : Option Uuid)
  | stampTerminal (id : Uuid) (now : ℕ)
  | request (request : ConversionRequest)
  deriving Repr, DecidableEq

/-- Commit one transaction. -/
def Hierarchy.step : HierarchyEvent → Except DomainError Hierarchy
  | .insertProvisioning tenant => insertProvisioning s tenant
  | .activateTenant tenantId rows => activateTenant s tenantId rows
  | .compensateProvisioning tenantId expectedClaimedBy =>
    compensateProvisioning s tenantId expectedClaimedBy
  | .setStatus tenantId newStatus => setStatus s tenantId newStatus
  | .scheduleDeletion id deletedBy now => scheduleDeletion s id deletedBy now
  | .applyConversionApproval input => applyConversionApproval s input
  | .hardDeleteOne id claimedBy => .ok (hardDeleteOne s id claimedBy)
  | .claim id claimedBy => .ok { s with
      tenants := Table.updateWhere (·.id = id) (fun t => { t with claimedBy := claimedBy })
        s.tenants }
  | .stampTerminal id now => .ok { s with
      tenants := Table.updateWhere (·.id = id) (fun t => { t with terminalFailureAt := some now })
        s.tenants }
  | .request request => .ok { s with requests := s.requests ++ [request] }

end Gears.Tenants
