import Gears.Lib.Machine
import Gears.Settings.Cache

/-!
# Reads and writes of one instance

Reads and writers of one instance, interleaved.  Every lookup, capture and store of the cache is one
atomic action under its lock, and so is every read of the database and every commit.

* `SingleRead`, `BrowseRead` : where a read stands; a bulk read is a single one with more keys.
* `Write` : a committed change, with the instant of its commit.
* `Instance.advance` : the next action of a read.
* `SettingsEvent`, `Instance.step` : the interleavings.
-/

namespace Gears.Settings

open Except

/-! ### Where a read stands -/

/-- A read of one key. -/
inductive SingleRead where
  | lookup (key : String)
  | missed (key : String)
  | captured (key : String) (seen : Generation)
  | loaded (seen : Generation) (loaded : Loaded)
  | walking (seen : Generation) (loaded : Loaded)
  | resolved (seen : Generation) (value : EffectiveValue)
  deriving Repr, DecidableEq

/-- A browse: the page, the declarations of it that are still to be looked up with the misses so
far, a miss before its generation is captured, the values that are still to be stored. -/
inductive BrowseRead where
  | listing
  | looking (misses : List (Loaded × Generation)) (todo : List Loaded)
  | missed (misses : List (Loaded × Generation)) (miss : Loaded) (todo : List Loaded)
  | storing (values : List (EffectiveValue × Generation))
  deriving Repr, DecidableEq

/-- A read in flight; a single or bulk one has the keys that follow. -/
inductive Read where
  | single (tenant : Uuid) (phase : SingleRead) (rest : List String)
  | browse (tenant : Uuid) (phase : BrowseRead)
  deriving Repr, DecidableEq

/-- A committed change of a setting and the scope it was made at. -/
structure Write where
  key : String
  scopeClass : ScopeClass
  tenant : Option Uuid
  committedAt : ℕ
  deriving Repr, DecidableEq

/-- The slots that a change is for. -/
def Write.Reaches (w : Write) (slot : Slot) : Prop :=
  CacheStore.Reaches w.key w.scopeClass w.tenant slot

/-- One instance with its database: the number of actions so far, the tables, the cache, the reads
in flight, and the changes that are committed and those that are invalidated. -/
structure Instance where
  clock : ℕ
  declarations : List Declaration
  rows : List StoredValue
  cache : CacheStore
  reads : ℕ → Option Read
  committed : List Write
  invalidated : List Write

/-- The cache and the root tenant. -/
structure SettingsConfig where
  cache : CacheConfig
  root : Uuid
  deriving Repr, DecidableEq

/-- What an action finds around it: the time, the tenant's chain if it can be read, the value types
whose traits cannot be read, the keys that a page lists. -/
structure Surroundings where
  now : ℕ
  chain : Option (List Uuid)
  brokenTypes : List String
  page : List String
  deriving Repr, DecidableEq

namespace Instance

/-- An instance with an empty database. -/
def empty : Instance := ⟨0, [], [], .empty, fun _ => none, [], []⟩

/-- The declaration of a key. -/
def findByKey (s : Instance) (key : String) : Option Declaration :=
  Table.lookup Declaration.key s.declarations key

/-! ### The actions of a read -/

/-- Go on with the next key, or end. -/
def nextKey (tenant : Uuid) : List String → Option Read
  | [] => none
  | key :: rest => some (.single tenant (.lookup key) rest)

variable (cfg : SettingsConfig)

/-- The value of a declaration from the rows as they are now. -/
def resolveRows (s : Instance) (env : Surroundings) (tenant : Uuid)
    (loaded : Loaded) : Option EffectiveValue :=
  match inspectedTenants loaded.declaration cfg.root tenant env.chain with
  | none => none
  | some inspected =>
    if loaded.declaration.valueTypeId ∈ env.brokenTypes then none
    else
      let rows := s.rows.filter fun r =>
        r.declarationId = loaded.declaration.id ∧ r.tenantId ∈ inspected
      some (select loaded tenant inspected rows s.clock)

/-- The next action of a single read. -/
def advanceSingle (s : Instance) (env : Surroundings) (tenant : Uuid)
    (rest : List String) : SingleRead → Option Read × CacheStore
  | .lookup key =>
    match s.cache.get cfg.cache env.now (key, tenant) with
    | (some _, cache) => (nextKey tenant rest, cache)
    | (none, cache) => (some (.single tenant (.missed key) rest), cache)
  | .missed key =>
    (some (.single tenant (.captured key (s.cache.generation key tenant)) rest), s.cache)
  | .captured key seen =>
    match s.findByKey key with
    | none => (nextKey tenant rest, s.cache)
    | some d => (some (.single tenant (.loaded seen ⟨d, s.clock⟩) rest), s.cache)
  | .loaded seen loaded =>
    match s.cache.get cfg.cache env.now (loaded.declaration.key, tenant) with
    | (some _, cache) => (nextKey tenant rest, cache)
    | (none, cache) =>
      if loaded.declaration.retired then (nextKey tenant rest, cache)
      else (some (.single tenant (.walking seen loaded) rest), cache)
  | .walking seen loaded =>
    match resolveRows cfg s env tenant loaded with
    | none => (nextKey tenant rest, s.cache)
    | some value => (some (.single tenant (.resolved seen value) rest), s.cache)
  | .resolved seen value => (nextKey tenant rest, s.cache.populate cfg.cache env.now value seen)

/-- The page of declarations as they are now. -/
def listPage (s : Instance) (env : Surroundings) : List Loaded :=
  (env.page.filterMap s.findByKey).map fun d => ⟨d, s.clock⟩

/-- The values of the misses of a browse, from one read of the rows. -/
def settleMisses (s : Instance) (env : Surroundings) (tenant : Uuid)
    (misses : List (Loaded × Generation)) : List (EffectiveValue × Generation) :=
  misses.filterMap fun (loaded, seen) =>
    (resolveRows cfg s env tenant loaded).map fun value => (value, seen)

/-- The next action of a browse. -/
def advanceBrowse (s : Instance) (env : Surroundings) (tenant : Uuid) :
    BrowseRead → Option Read × CacheStore
  | .listing => (some (.browse tenant (.looking [] (s.listPage env))), s.cache)
  | .looking misses (loaded :: todo) =>
    match s.cache.get cfg.cache env.now (loaded.declaration.key, tenant) with
    | (some _, cache) => (some (.browse tenant (.looking misses todo)), cache)
    | (none, cache) => (some (.browse tenant (.missed misses loaded todo)), cache)
  | .missed misses loaded todo =>
    let seen := s.cache.generation loaded.declaration.key tenant
    if loaded.declaration.retired then (some (.browse tenant (.looking misses todo)), s.cache)
    else (some (.browse tenant (.looking (misses ++ [(loaded, seen)]) todo)), s.cache)
  | .looking misses [] =>
    (some (.browse tenant (.storing (s.settleMisses cfg env tenant misses))), s.cache)
  | .storing [] => (none, s.cache)
  | .storing ((value, seen) :: values) =>
    (some (.browse tenant (.storing values)), s.cache.populate cfg.cache env.now value seen)

/-- The next action of a read. -/
def advance (s : Instance) (env : Surroundings) : Read → Option Read × CacheStore
  | .single tenant phase rest => s.advanceSingle cfg env tenant rest phase
  | .browse tenant phase => s.advanceBrowse cfg env tenant phase

/-- Commit a change of the database, which is then to be invalidated. -/
def commit (s : Instance) (w : Write) : Instance := { s with committed := w :: s.committed }

/-- A row of a tenant is written or, with no row, removed. -/
def writeRow (s : Instance) (declarationId tenant : Uuid) (row : Option StoredValue) : Instance :=
  { s with
    rows := Table.deleteWhere (fun r => r.declarationId = declarationId ∧ r.tenantId = tenant)
      s.rows ++ row.toList }

/-- A declaration is inserted or replaced. -/
def writeDeclaration (s : Instance) (d : Declaration) : Instance :=
  { s with declarations := Table.deleteWhere (·.key = d.key) s.declarations ++ [d] }

end Instance

/-- The actions that cannot be taken. -/
inductive SettingsError where
  | busy | idle | notFound | retired | notCommitted
  deriving Repr, DecidableEq

/-- The actions of one instance.  A single read is a bulk one of one key. -/
inductive SettingsEvent where
  | startBulk (read : ℕ) (tenant : Uuid) (keys : List String)
  | startBrowse (read : ℕ) (tenant : Uuid)
  | advance (read : ℕ) (env : Surroundings)
  | commitValue (key : String) (tenant : Uuid) (value : Option JsonValue)
      (secretRef : Option String) (needsReview : Bool)
  | removeValue (key : String) (tenant : Uuid)
  | commitDeclaration (declaration : Declaration)
  | invalidate (write : Write)
  | invalidateTenants (key : String) (tenants : List Uuid)
  | invalidateSubtree (tenants : List Uuid)
  deriving Repr, DecidableEq

namespace Instance

/-- The declaration that a value is written under. -/
def writable (s : Instance) (key : String) : Except SettingsError Declaration := do
  let d ← okOr (s.findByKey key) .notFound
  rejectIf d.retired .retired
  .ok d

/-- What an action does, apart from the time it takes. -/
def act (cfg : SettingsConfig) (s : Instance) : SettingsEvent → Except SettingsError Instance
  | .startBulk read tenant keys => do
    rejectIf (s.reads read).isSome .busy
    .ok { s with reads := Function.update s.reads read (nextKey tenant keys) }
  | .startBrowse read tenant => do
    rejectIf (s.reads read).isSome .busy
    .ok { s with reads := Function.update s.reads read (some (.browse tenant .listing)) }
  | .advance read env => do
    let r ← okOr (s.reads read) .idle
    .ok { s with
      reads := Function.update s.reads read (s.advance cfg env r).1
      cache := (s.advance cfg env r).2 }
  | .commitValue key tenant value secretRef needsReview => do
    let d ← s.writable key
    .ok ((s.writeRow d.id tenant (some ⟨d.id, tenant, value, secretRef, needsReview⟩)).commit
      ⟨key, d.scopeClass, some tenant, s.clock⟩)
  | .removeValue key tenant => do
    let d ← s.writable key
    .ok ((s.writeRow d.id tenant none).commit ⟨key, d.scopeClass, some tenant, s.clock⟩)
  | .commitDeclaration d =>
    .ok ((s.writeDeclaration d).commit ⟨d.key, .cascading, none, s.clock⟩)
  | .invalidate w => do
    rejectIf (w ∉ s.committed) .notCommitted
    .ok { s with
      cache := s.cache.invalidate w.key w.scopeClass w.tenant
      invalidated := w :: s.invalidated }
  | .invalidateTenants key tenants =>
    .ok { s with cache := s.cache.invalidateTenants key tenants }
  | .invalidateSubtree tenants => .ok { s with cache := s.cache.invalidateSubtree tenants }

/-- One action. -/
def step (cfg : SettingsConfig) (s : Instance) (e : SettingsEvent) :
    Except SettingsError Instance :=
  (s.act cfg e).map fun s' => { s' with clock := s.clock + 1 }

end Instance

end Gears.Settings
