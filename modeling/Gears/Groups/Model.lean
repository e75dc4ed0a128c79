import Gears.Lib.Except
import Gears.Lib.Table
import Gears.Lib.Uuid
import Mathlib

/-!
# Resource groups and their closure table

The resource-group service: groups of registered types with parent links, the closure table with
the distance of each group to its ancestors, and the transactions that create, update, move and
delete groups.  A transaction commits the store it returns or leaves the one it began with.

* `GroupConfig` : the type table, the limits and the tenant types, which do not change.
* `createGroup`, `updateGroup`, `moveGroup`, `deleteGroup` : the transactions.
* `moveGroupInternal` : the checks of a move and the rebuilding of the closure.
* `GroupEvent`, `GroupStore.step` : the transactions as events.
-/

namespace Gears.Groups

open Except

/-! ### Types, limits and rows -/

/-- A registered type: where its groups may stand. -/
structure GroupType where
  code : String
  canBeRoot : Bool
  allowedParentTypes : List String
  deriving Repr, DecidableEq

/-- The limits of the forest. -/
structure QueryProfile where
  maxDepth : Option UInt32
  maxWidth : Option UInt32
  deriving Repr, DecidableEq

/-- What stays fixed: the type table, the limits, the code prefixes of tenant types. -/
structure GroupConfig where
  types : List GroupType
  profile : QueryProfile
  tenantPrefixes : List String

namespace GroupConfig

/-- Whether a code is that of a tenant type. -/
def isTenant (cfg : GroupConfig) (code : String) : Bool :=
  cfg.tenantPrefixes.any fun p => p.toList.isPrefixOf code.toList

/-- The type of a code. -/
def findByCode (cfg : GroupConfig) (code : String) : Option GroupType :=
  Table.lookup GroupType.code cfg.types code

end GroupConfig

/-- A row of the groups. -/
structure Group where
  id : Uuid
  parentId : Option Uuid
  code : String
  name : String
  tenantId : Uuid
  deriving Repr, DecidableEq

/-- A row of the closure table: the distance to an ancestor. -/
structure ClosureRow where
  ancestorId : Uuid
  descendantId : Uuid
  depth : ℕ
  deriving Repr, DecidableEq

/-- The primary key of the closure table. -/
def ClosureRow.key (row : ClosureRow) : Uuid × Uuid := (row.ancestorId, row.descendantId)

/-- The refusals. -/
inductive DomainError where
  | typeNotFound (code : String)
  | groupNotFound (id : Uuid)
  | groupAlreadyExists (id : Uuid)
  | validation (message : String)
  | invalidParentType (message : String)
  | cycleDetected (message : String)
  | limitViolation (message : String)
  | tenantRootAlreadyExists (existingRootId : Uuid) (detail : String)
  | conflictActiveReferences (message : String)
  | database (message : String)
  deriving Repr, DecidableEq

/-- The tables.  Of the memberships only the group of each matters here. -/
structure GroupStore where
  groups : List Group
  closure : List ClosureRow
  memberships : List Uuid
  deriving Repr, DecidableEq

/-! ### Reads and writes of the repository -/

namespace GroupStore

/-- The store before any transaction. -/
def empty : GroupStore := ⟨[], [], []⟩

section

variable (s : GroupStore)

/-- The row of a group. -/
def findModelById (id : Uuid) : Option Group := Table.lookup Group.id s.groups id

/-- The depth of a group: its largest distance to an ancestor.  Depths are `ℕ` for `i32`. -/
def getDepth (id : Uuid) : ℕ :=
  (((s.closure.filter fun r => r.descendantId = id).map ClosureRow.depth).max?).getD 0

/-- The largest distance of a descendant. -/
def getMaxDescendantDepth (id : Uuid) : ℕ :=
  (((s.closure.filter fun r => r.ancestorId = id ∧ r.depth ≠ 0).map ClosureRow.depth).max?).getD 0

/-- The number of children. -/
def countChildren (parentId : Uuid) : ℕ :=
  s.groups.countP fun g => g.parentId = some parentId

/-- Whether the closure has a row for the pair. -/
def isDescendant (ancestor descendant : Uuid) : Bool :=
  s.closure.any fun r => r.ancestorId = ancestor ∧ r.descendantId = descendant

/-- A root of a tenant type; the source matches the prefix as an unescaped `LIKE` pattern. -/
def findRootIdWithTypePrefixes (cfg : GroupConfig) : Option Uuid :=
  (s.groups.find? fun g => g.parentId = none ∧ cfg.isTenant g.code).map Group.id

/-- Insert closure rows; a key that is taken is an error of the database. -/
def insertClosureRows (rows : List ClosureRow) : Except DomainError GroupStore := do
  let closure ← okOr (Table.insertMany ClosureRow.key rows s.closure)
    (.database "duplicate key")
  .ok { s with closure := closure }

/-- Insert the rows of a child: those of its parent, one link further. -/
def insertAncestorClosureRows (childId parentId : Uuid) : Except DomainError GroupStore :=
  s.insertClosureRows ((s.closure.filter fun r => r.descendantId = parentId).map fun r =>
    ⟨r.ancestorId, childId, r.depth + 1⟩)

/-- Insert a group, its self-row and the rows to its ancestors. -/
def insertGroup (group : Group) : Except DomainError GroupStore := do
  let groups ← okOr (Table.insert Group.id group s.groups) (.groupAlreadyExists group.id)
  let s ← insertClosureRows { s with groups := groups } [⟨group.id, group.id, 0⟩]
  match group.parentId with
  | none => .ok s
  | some parentId => s.insertAncestorClosureRows group.id parentId

/-- Update the parent and the name of a group. -/
def updateGroupRow (id : Uuid) (parentId : Option Uuid) (name : String) : GroupStore :=
  { s with
    groups := Table.updateWhere (·.id = id)
      (fun g => { g with parentId := parentId, name := name }) s.groups }

/-- Remove the closure rows that mention one of the groups, at either end. -/
def deleteAllClosureRowsMany (ids : List Uuid) : GroupStore :=
  { s with
    closure := Table.deleteWhere (·.descendantId ∈ ids)
      (Table.deleteWhere (·.ancestorId ∈ ids) s.closure) }

/-- Remove groups. -/
def deleteByIdMany (ids : List Uuid) : GroupStore :=
  { s with groups := Table.deleteWhere (·.id ∈ ids) s.groups }

/-- Cut the subtree of a group from what was above it, and hang it under the new parent: each of
the parent's rows is joined with each row of the subtree. -/
def rebuildSubtreeClosure (groupId : Uuid) (newParentId : Option Uuid) :
    Except DomainError GroupStore := do
  let subtree := (s.closure.filter fun r => r.ancestorId = groupId).map ClosureRow.descendantId
  let s : GroupStore := { s with
    closure := Table.deleteWhere (fun r => r.descendantId ∈ subtree ∧ r.ancestorId ∉ subtree)
      s.closure }
  match newParentId with
  | none => .ok s
  | some parentId =>
    let ancestors := s.closure.filter fun r => r.descendantId = parentId
    let below := s.closure.filter fun r => r.ancestorId = groupId
    let rows := ancestors.flatMap fun pa => below.map fun st =>
      (⟨pa.ancestorId, st.descendantId, pa.depth + st.depth + 1⟩ : ClosureRow)
    rejectIf (rows = []) (.database
      (s!"closure rebuild for group {groupId.text} inserted no rows for reparent; " ++
        "parent has no closure rows"))
    s.insertClosureRows rows

end

end GroupStore

/-- The limit as the signed number it is compared as. -/
def asI32 (limit : UInt32) : ℤ := limit.toBitVec.toInt

variable (cfg : GroupConfig)

/-- The depth limit, on the deepest group that a change makes. -/
def checkDepth (deepest : ℕ) (message : UInt32 → String) : Except DomainError Unit :=
  forSome cfg.profile.maxDepth fun maxDepth =>
    rejectIf (asI32 maxDepth ≤ deepest) (.limitViolation (message maxDepth))

variable (s : GroupStore)

/-- The width limit, on the children a parent has already. -/
def checkWidth (parentId : Uuid) (owner : String) : Except DomainError Unit :=
  forSome cfg.profile.maxWidth fun maxWidth =>
    rejectIf (maxWidth.toNat ≤ s.countChildren parentId) (.limitViolation
      (s!"Width limit exceeded: {owner} already has {s.countChildren parentId} children, " ++
        s!"max_width is {maxWidth}"))

variable (rgType : GroupType)

/-- The type of the parent is allowed. -/
def checkParentType (parentCode : String) : Except DomainError Unit :=
  rejectIf (parentCode ∉ rgType.allowedParentTypes) (.invalidParentType
    s!"Type '{rgType.code}' does not allow parent type '{parentCode}'")

/-- The type may be a root. -/
def checkRootType : Except DomainError Unit :=
  rejectIf (¬ rgType.canBeRoot) (.invalidParentType
    s!"Type '{rgType.code}' cannot be a root group (can_be_root=false)")

/-! ### Transactions -/

/-- What a creation is given. -/
structure CreateGroupRequest where
  id : Option Uuid
  code : String
  name : String
  parentId : Option Uuid
  tenantId : Option Uuid
  deriving Repr, DecidableEq

/-- The checks on the parent of a group that is created. -/
def checkCreateUnder (tenantId parentId : Uuid) : Except DomainError Unit := do
  let parent ← okOr (s.findModelById parentId) (.groupNotFound parentId)
  checkParentType rgType parent.code
  rejectIf (¬ cfg.isTenant rgType.code ∧ parent.tenantId ≠ tenantId) (.validation
    ("Child group tenant must match parent tenant -- cannot create a child group in a tenant " ++
      "different from its parent group"))
  checkDepth cfg (s.getDepth parentId + 1) fun maxDepth =>
    s!"Depth limit exceeded: adding child at depth {s.getDepth parentId + 1} exceeds " ++
      s!"max_depth {maxDepth}"
  checkWidth cfg s parentId "parent"

/-- The checks on a group that is created as a root. -/
def checkCreateRoot (name : String) : Except DomainError Unit := do
  checkRootType rgType
  onlyIf (cfg.isTenant rgType.code) (refuse
    ((s.findRootIdWithTypePrefixes cfg).map fun root => .tenantRootAlreadyExists root
      (s!"Cannot create tenant-type root '{name}' ({rgType.code}): tenant root already " ++
        "exists")))

/-- The checks on the place of a group that is created. -/
def checkCreate (name : String) (tenantId : Uuid) : Option Uuid → Except DomainError Unit
  | some parentId => checkCreateUnder cfg s rgType tenantId parentId
  | none => checkCreateRoot cfg s rgType name

/-- Create a group; `fresh` is the identifier that is drawn when the request has none. -/
def createGroupInner (req : CreateGroupRequest)
    (fresh tenantId : Uuid) : Except DomainError GroupStore := do
  let rgType ← okOr (cfg.findByCode req.code) (.typeNotFound req.code)
  let groupId := req.id.getD fresh
  let effectiveTenantId := if cfg.isTenant rgType.code then groupId else tenantId
  checkCreate cfg s rgType req.name tenantId req.parentId
  s.insertGroup ⟨groupId, req.parentId, req.code, req.name, effectiveTenantId⟩

/-- Create a group for a caller of a tenant. -/
def createGroup (req : CreateGroupRequest)
    (fresh callerTenantId : Uuid) : Except DomainError GroupStore := do
  rejectIf (cfg.isTenant req.code ∧ req.tenantId.isSome) (.validation
    ("Tenant-typed groups cannot have an explicit tenant_id: their effective tenant is always " ++
      "the group's own id"))
  let targetTenantId := req.tenantId.getD callerTenantId
  rejectIf (req.id.isSome ∧ targetTenantId ≠ callerTenantId) (.validation
    ("id and tenant_id cannot both be set on group creation: an explicit id combined with a " ++
      "cross-tenant target is not accepted while identifier ownership policy is undecided"))
  createGroupInner cfg s req fresh targetTenantId

variable (groupId : Uuid)

/-- The checks on the new parent of a group that is moved; the parent is the snapshot that the
caller took. -/
def checkMoveUnder (rgType : GroupType)
    (newParentId : Uuid) (parent : Option Group) : Except DomainError Unit := do
  rejectIf (s.isDescendant groupId newParentId) (.cycleDetected
    s!"Cannot move group '{groupId.text}' under '{newParentId.text}': would create a cycle")
  let parent ← okOr parent (.groupNotFound newParentId)
  checkParentType rgType parent.code
  let newDeepest := s.getDepth newParentId + 1 + s.getMaxDescendantDepth groupId
  checkDepth cfg newDeepest fun maxDepth =>
    s!"Depth limit exceeded: moving subtree would create depth {newDeepest}, max_depth is " ++
      s!"{maxDepth}"
  checkWidth cfg s newParentId "new parent"

/-- The checks on a group that becomes a root; it may be the tenant root already. -/
def checkMoveToRoot (rgType : GroupType) : Except DomainError Unit := do
  checkRootType rgType
  onlyIf (cfg.isTenant rgType.code) (refuse
    (((s.findRootIdWithTypePrefixes cfg).filter (· ≠ groupId)).map fun root =>
      .tenantRootAlreadyExists root
        (s!"Cannot move tenant-type group '{rgType.code}' ({groupId.text}) to root: tenant root " ++
          "already exists")))

/-- The checks on the new place of a group. -/
def checkMove (rgType : GroupType) (parent : Option Group) : Option Uuid → Except DomainError Unit
  | some newParentId => checkMoveUnder cfg s groupId rgType newParentId parent
  | none => checkMoveToRoot cfg s groupId rgType

/-- Check a move and rebuild the closure for it. -/
def moveGroupInternal (newParentId : Option Uuid) (parent : Option Group) (rgType : GroupType) :
    Except DomainError GroupStore := do
  checkMove cfg s groupId rgType parent newParentId
  s.rebuildSubtreeClosure groupId newParentId

/-- The refusal of a move to another tenant. -/
def crossTenantMove : DomainError :=
  .validation (s!"Cannot move group {groupId.text} to a parent in a different tenant; " ++
    "cross-tenant moves are not supported")

/-- The snapshot of the parent that an update asks for, when it asks for another one. -/
def newParentSnapshot (existing : Group) (parentId : Option Uuid) :
    Except DomainError (Option Group) :=
  match parentId with
  | none => .ok none
  | some newParentId =>
    if newParentId = existing.parentId.getD Uuid.nil then .ok none
    else do
      let newParent ← okOr (s.findModelById newParentId) (.groupNotFound newParentId)
      rejectIf (newParent.tenantId ≠ existing.tenantId) (crossTenantMove existing.id)
      .ok (some newParent)

/-- Update the name of a group, and move it when the parent of the request is another. -/
def updateGroup (parentId : Option Uuid) (name : String) : Except DomainError GroupStore := do
  let existing ← okOr (s.findModelById groupId) (.groupNotFound groupId)
  let snapshot ← newParentSnapshot s existing parentId
  if existing.parentId = parentId then
    .ok (s.updateGroupRow groupId parentId name)
  else do
    let rgType ← okOr (cfg.findByCode existing.code) (.typeNotFound existing.code)
    let s ← moveGroupInternal cfg s groupId parentId snapshot rgType
    .ok (s.updateGroupRow groupId parentId name)

/-- Move a group to another parent or to the root. -/
def moveGroup (newParentId : Option Uuid) : Except DomainError GroupStore := do
  let existing ← okOr (s.findModelById groupId) (.groupNotFound groupId)
  let rgType ← okOr (cfg.findByCode existing.code) (.typeNotFound existing.code)
  forSome newParentId fun newPid =>
    rejectIf (s.findModelById newPid = none) (.groupNotFound newPid)
  let parent := newParentId.bind s.findModelById
  let s ← moveGroupInternal cfg s groupId newParentId parent rgType
  forSome parent fun parent =>
    rejectIf (parent.tenantId ≠ existing.tenantId) (crossTenantMove groupId)
  .ok (s.updateGroupRow groupId newParentId existing.name)

/-- Remove a group and everything below it, with the memberships. -/
def forceDeleteSubtree (rootId : Uuid) : GroupStore :=
  let descendants := (s.closure.filter fun r => r.ancestorId = rootId ∧ r.depth ≠ 0).map
    ClosureRow.descendantId
  let allIds := rootId :: descendants
  let s := { s with memberships := s.memberships.filter (· ∉ allIds) }
  (s.deleteAllClosureRowsMany allIds).deleteByIdMany allIds

/-- Remove a group; without force it may have neither children nor memberships. -/
def deleteGroup (force : Bool) : Except DomainError GroupStore := do
  let _ ← okOr (s.findModelById groupId) (.groupNotFound groupId)
  if force then .ok (forceDeleteSubtree s groupId)
  else do
    rejectIf (s.countChildren groupId ≠ 0) (.conflictActiveReferences
      (s!"Cannot delete group '{groupId.text}': has {s.countChildren groupId} child group(s). " ++
        "Use force=true to cascade."))
    rejectIf (groupId ∈ s.memberships) (.conflictActiveReferences
      (s!"Cannot delete group '{groupId.text}': has active memberships. Use force=true to " ++
        "cascade."))
    .ok ((s.deleteAllClosureRowsMany [groupId]).deleteByIdMany [groupId])

/-! ### Histories -/

/-- The transactions, and memberships that are added to a group around them. -/
inductive GroupEvent where
  | create (req : CreateGroupRequest) (fresh callerTenantId : Uuid)
  | update (groupId : Uuid) (parentId : Option Uuid) (name : String)
  | move (groupId : Uuid) (newParentId : Option Uuid)
  | delete (groupId : Uuid) (force : Bool)
  | addMembership (groupId : Uuid)
  deriving Repr, DecidableEq

/-- Commit one transaction. -/
def GroupStore.step : GroupEvent → Except DomainError GroupStore
  | .create req fresh callerTenantId => createGroup cfg s req fresh callerTenantId
  | .update groupId parentId name => updateGroup cfg s groupId parentId name
  | .move groupId newParentId => moveGroup cfg s groupId newParentId
  | .delete groupId force => deleteGroup s groupId force
  | .addMembership groupId => .ok { s with memberships := groupId :: s.memberships }

end Gears.Groups
