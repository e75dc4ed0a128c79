import Gears.Lib.Except
import Gears.Lib.Table
import Gears.Lib.Uuid

/-!
# Effective values of settings

A setting has a declaration and override rows of tenants.  What a tenant sees of it, its effective
value, is picked from the rows of the scopes its class inspects.

* `Declaration`, `StoredValue` : what the database holds.
* `inspectedTenants` : the scopes that a read inspects.
* `select` : the row that wins, and what would be left without the tenant's own row.
* `EffectiveValue` : the outcome, with the instants at which its sources were read.
-/

namespace Gears.Settings

/-- A value of a setting. -/
inductive JsonValue where
  | null
  | string (text : String)
  | json (text : String)
  deriving Repr, DecidableEq

/-- The scope class of a declaration, as it is stored. -/
inductive ScopeClass where
  | global | cascading | local_
  | unknown (name : String)
  deriving Repr, DecidableEq

/-- A setting as it is declared. -/
structure Declaration where
  id : Uuid
  key : String
  scopeClass : ScopeClass
  retired : Bool
  defaultValue : JsonValue
  valueTypeId : String
  deriving Repr, DecidableEq

/-- An override of a setting at a tenant; a secret one holds a reference. -/
structure StoredValue where
  declarationId : Uuid
  tenantId : Uuid
  value : Option JsonValue
  secretRef : Option String
  needsReview : Bool
  deriving Repr, DecidableEq

/-- Where an effective value comes from. -/
inductive EffectiveSource where
  | ownOverride | inherited | schemaDefault
  deriving Repr, DecidableEq

/-- A declaration that a read holds, and when it was read. -/
structure Loaded where
  declaration : Declaration
  readAt : ℕ
  deriving Repr, DecidableEq

/-- What a tenant sees of a setting; `declarationReadAt` and `rowsReadAt` say when the declaration
and the rows it was computed from were read. -/
structure EffectiveValue where
  key : String
  declarationId : Uuid
  tenantId : Uuid
  value : JsonValue
  source : EffectiveSource
  sourceTenant : Option Uuid
  fallback : JsonValue
  fallbackSource : EffectiveSource
  fallbackTenant : Option Uuid
  secretBacked : Bool
  declarationReadAt : ℕ
  rowsReadAt : ℕ
  deriving Repr, DecidableEq

/-- The value a row carries, and whether it stands for a secret. -/
def valueOf (row : StoredValue) : JsonValue × Bool :=
  match row.value, row.secretRef with
  | some value, _ => (value, false)
  | none, some secretRef => (.string secretRef, true)
  | none, none => (.null, false)

/-- The row of the deepest scope that is not flagged for review; the scopes go from the root to the
tenant. -/
def winner (inspected : List Uuid) (rows : List StoredValue) : Option StoredValue :=
  (inspected.reverse.filterMap (Table.lookup StoredValue.tenantId rows)).find? (!·.needsReview)

/-- The scopes that a read inspects; nothing when a cascading setting has no chain or the class is
not known. -/
def inspectedTenants (declaration : Declaration) (root tenant : Uuid)
    (chain : Option (List Uuid)) : Option (List Uuid) :=
  match declaration.scopeClass with
  | .global => some [root]
  | .cascading => chain
  | .local_ => some [tenant]
  | .unknown _ => none

/-- Pick the effective row among the scopes inspected.  The fallback is the same choice with the
tenant's own row left out. -/
def select (loaded : Loaded) (tenant : Uuid) (inspected : List Uuid) (rows : List StoredValue)
    (rowsReadAt : ℕ) : EffectiveValue :=
  let declaration := loaded.declaration
  let fallbackRow := winner (inspected.filter (· ≠ tenant)) rows
  let fallback := (fallbackRow.map fun row => (valueOf row).1).getD declaration.defaultValue
  let fallbackSource : EffectiveSource :=
    if fallbackRow.isSome then .inherited else .schemaDefault
  let effective : EffectiveValue :=
    { key := declaration.key
      declarationId := declaration.id
      tenantId := tenant
      value := declaration.defaultValue
      source := .schemaDefault
      sourceTenant := none
      fallback := fallback
      fallbackSource := fallbackSource
      fallbackTenant := fallbackRow.map StoredValue.tenantId
      secretBacked := false
      declarationReadAt := loaded.readAt
      rowsReadAt := rowsReadAt }
  match winner inspected rows with
  | none => effective
  | some row =>
    { effective with
      value := (valueOf row).1
      secretBacked := (valueOf row).2
      source := if row.tenantId = tenant then .ownOverride else .inherited
      sourceTenant := some row.tenantId }

variable {loaded : Loaded} {tenant : Uuid} {inspected : List Uuid} {rows : List StoredValue}
  {rowsReadAt : ℕ}

@[simp] theorem select_key :
    (select loaded tenant inspected rows rowsReadAt).key = loaded.declaration.key := by
  unfold select
  split <;> rfl

@[simp] theorem select_declarationReadAt :
    (select loaded tenant inspected rows rowsReadAt).declarationReadAt = loaded.readAt := by
  unfold select
  split <;> rfl

@[simp] theorem select_rowsReadAt :
    (select loaded tenant inspected rows rowsReadAt).rowsReadAt = rowsReadAt := by
  unfold select
  split <;> rfl

end Gears.Settings
