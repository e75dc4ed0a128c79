import Gears.Gateway.Model

/-!
# The effective configuration of an upstream

A request is served by the configuration merged from the upstreams of one alias along the tenant
chain, root first.  Auth, rate limit, plugins and CORS rules are merged each by its own sharing
modes; everything else is taken from the last upstream.

* `mergeAuth`, `mergeRateLimit`, `mergePlugins`, `mergeCors` : the merge of one layer.
* `mergeLayer` : one layer, with what is withheld from another server.
* `computeEffectiveConfigReporting`, `computeEffectiveConfig` : the whole chain and the route.
-/

namespace Gears.Gateway

/-- What was withheld. -/
inductive WithheldKind where
  | auth
  | headers
  | enforcedAuth
  deriving DecidableEq, Repr

/-- An ancestor's setting that was not applied to a descendant on other endpoints. -/
structure Withheld where
  ownerId : Uuid
  upstreamId : Uuid
  alias_ : String
  kind : WithheldKind
  deriving DecidableEq, Repr

/-- The report of a setting of `owner` that `layer` does not get. -/
def Withheld.of (owner layer : Upstream) (kind : WithheldKind) : Withheld :=
  { ownerId := owner.id, upstreamId := layer.id, alias_ := layer.alias_, kind }

/-- The auth binds the tenants below. -/
def AuthConfig.isEnforced (a : AuthConfig) : Bool := a.sharing = .enforce

/-- A layer's auth replaces any that is not enforced. -/
def mergedAuth (effective layer : Option AuthConfig) : Option AuthConfig :=
  match layer with
  | none => effective
  | some descendant => if effective.any (·.isEnforced) then effective else some descendant

/-- The auth of a layer merged. -/
def mergeAuth (effective layer : Upstream) : Upstream :=
  { effective with auth := mergedAuth effective.auth layer.auth }

/-- The limit binds the tenants below. -/
def RateLimitConfig.isEnforced (rl : RateLimitConfig) : Bool := rl.sharing = .enforce

/-- The stricter of two limits; the owner of the pool is not lost with the looser one. -/
def minRateLimit (a : Option RateLimitConfig) (b : RateLimitConfig) : RateLimitConfig :=
  match a with
  | none => b
  | some a =>
    if b.ratePerSecond < a.ratePerSecond then
      { b with poolOwnerId := b.poolOwnerId <|> a.poolOwnerId }
    else a

/-- The limit of a layer merged onto the limit in effect above it. -/
def mergedLimit (effective : Option RateLimitConfig) (descendant : RateLimitConfig) :
    RateLimitConfig :=
  match descendant.sharing with
  | .private_ =>
    if effective.any (·.isEnforced) then minRateLimit effective descendant else descendant
  | .inherit | .enforce => minRateLimit effective descendant

/-- The layer leaves the limit above it for one of its own. -/
def isPrivateOverride (effective layer : Option RateLimitConfig) : Bool :=
  layer.any (fun rl => rl.sharing = .private_) && !effective.any (·.isEnforced)

/-- The first ancestor with a shared budget stays the owner of the pool. -/
def RateLimitConfig.pooledBy (rl : RateLimitConfig) (owner : Option Uuid) : RateLimitConfig :=
  { rl with poolOwnerId := rl.poolOwnerId <|> owner }

/-- The limit of a layer merged. -/
def mergeRateLimit (effective layer : Upstream) : Upstream :=
  let poolOwner := if effective.rateLimit.any (·.isShared) then some effective.id else none
  let merged := match layer.rateLimit with
    | none => effective.rateLimit
    | some descendant => some (mergedLimit effective.rateLimit descendant)
  { effective with
    rateLimit :=
      if isPrivateOverride effective.rateLimit layer.rateLimit then merged
      else merged.map (·.pooledBy poolOwner) }

/-! ### Plugins -/

/-- The plugins bind the tenants below. -/
def PluginsConfig.isEnforced (p : PluginsConfig) : Bool := p.sharing = .enforce

/-- The first binding of the same plugin is replaced, or the binding is added. -/
def upsertPlugin (merged : List PluginBinding) (item : PluginBinding) : List PluginBinding :=
  match merged with
  | [] => [item]
  | m :: rest => if m.pluginRef = item.pluginRef then item :: rest else m :: upsertPlugin rest item

/-- The binding is added if the plugin has none. -/
def appendPlugin (merged : List PluginBinding) (item : PluginBinding) : List PluginBinding :=
  if merged.any fun m => m.pluginRef = item.pluginRef then merged else merged ++ [item]

/-- The bindings of plugins that may be missing. -/
def PluginsConfig.itemsOf (plugins : Option PluginsConfig) : List PluginBinding :=
  (plugins.map (·.items)).getD []

/-- Private plugins replace what is above unless that is enforced; others are merged into it. -/
def mergedPlugins (effective layer : Option PluginsConfig) : Option PluginsConfig :=
  match layer with
  | none => effective
  | some descendant =>
    match descendant.sharing with
    | .private_ =>
      if effective.any (·.isEnforced) then
        some {
          sharing := .enforce
          items := descendant.items.foldl appendPlugin (PluginsConfig.itemsOf effective) }
      else some descendant
    | .inherit | .enforce =>
      some {
        sharing := descendant.sharing
        items := descendant.items.foldl upsertPlugin (PluginsConfig.itemsOf effective) }

/-- The plugins of a layer merged. -/
def mergePlugins (effective layer : Upstream) : Upstream :=
  { effective with plugins := mergedPlugins effective.plugins layer.plugins }

/-- The rules bind the tenants below. -/
def CorsConfig.isEnforced (c : CorsConfig) : Bool := c.sharing = .enforce

/-- The texts of `more` that are new, added at the end. -/
def addNew (texts more : List String) : List String :=
  more.foldl (fun texts t => if texts.contains t then texts else texts ++ [t]) texts

section

variable (isValidOrigin : String → Bool)

/-- Only a layer that inherits adds rules of its own, to the origins it can see above. -/
def mergedCors (effective layer : Option CorsConfig) : Except DomainError (Option CorsConfig) :=
  match layer with
  | none => .ok (if effective.any (fun c => c.sharing = .private_) then none else effective)
  | some descendant =>
    if effective.any (·.isEnforced) then .ok effective
    else match descendant.sharing with
      | .private_ | .enforce => .ok effective
      | .inherit => do
        let ancestorOrigins := match effective with
          | some ancestor => if ancestor.sharing ≠ .private_ then ancestor.allowedOrigins else []
          | none => []
        let merged :=
          { descendant with allowedOrigins := addNew descendant.allowedOrigins ancestorOrigins }
        validateCorsConfig isValidOrigin merged
        pure (some merged)

/-- The CORS rules of a layer merged. -/
def mergeCors (effective layer : Upstream) : Except DomainError Upstream := do
  let cors ← mergedCors isValidOrigin effective.cors layer.cors
  pure { effective with cors }

/-! ### The merge of a layer -/

/-- The merge so far: the configuration, the owners of its auth and headers, and the reports. -/
structure Merging where
  effective : Upstream
  authOwner : Upstream
  headersOwner : Upstream
  withheld : List Withheld

/-- A failed merge: the error and the reports made before it. -/
abbrev Refusal := DomainError × List Withheld

/-- The merge before the first layer below the root. -/
def Merging.start (root : Upstream) : Merging :=
  { effective := root, authOwner := root, headersOwner := root, withheld := [] }

/-- An auth is not sent to a server its owner did not configure; an enforced one refuses. -/
def withholdAuth (m : Merging) (layer : Upstream) : Except Refusal Merging :=
  if m.effective.auth.any (·.isEnforced) then
    if layer.server.within m.authOwner.server then .ok m
    else .error
      (.forbidden "ENFORCED_AUTH_OTHER_SERVER"
        ("upstream '" ++ layer.id.text ++ "' serves alias '" ++ layer.alias_ ++
          "' on endpoints upstream '" ++ m.authOwner.id.text ++
          "' did not configure, and its enforced auth cannot be sent there"),
        m.withheld ++ [.of m.authOwner layer .enforcedAuth])
  else if layer.auth.isSome then .ok { m with authOwner := layer }
  else if m.effective.auth.isSome && !layer.server.within m.authOwner.server then
    .ok { m with
      effective := { m.effective with auth := none }
      withheld := m.withheld ++ [.of m.authOwner layer .auth] }
  else .ok m

/-- Headers are not sent to a server their owner did not configure. -/
def withholdHeaders (m : Merging) (layer : Upstream) : Merging :=
  if layer.headers.isSome then { m with headersOwner := layer }
  else if m.effective.headers.isSome && !layer.server.within m.headersOwner.server then
    { m with
      effective := { m.effective with headers := none }
      withheld := m.withheld ++ [.of m.headersOwner layer .headers] }
  else m

/-- The values that are always those of the selected upstream. -/
def selectLayer (effective layer : Upstream) : Upstream :=
  { effective with
    tags := addNew effective.tags layer.tags
    id := layer.id
    tenantId := layer.tenantId
    alias_ := layer.alias_
    server := layer.server
    protocol := layer.protocol
    enabled := layer.enabled
    headers := layer.headers <|> effective.headers }

/-- One layer merged onto the configuration above it. -/
def mergeLayer (m : Merging) (layer : Upstream) : Except Refusal Merging := do
  let m ← withholdAuth m layer
  let m := withholdHeaders m layer
  let effective := mergePlugins (mergeRateLimit (mergeAuth m.effective layer) layer) layer
  let effective ← (mergeCors isValidOrigin effective layer).mapError fun e => (e, m.withheld)
  pure { m with effective := selectLayer effective layer }

/-- A shared budget without an owner is owned by the effective upstream. -/
def ownSharedPool (effective : Upstream) : Upstream :=
  { effective with
    rateLimit := effective.rateLimit.map fun rl =>
      if rl.isShared then rl.pooledBy (some effective.id) else rl }

/-- A route's plugins merged onto those in effect, or in their place. -/
def routePlugins (effective : Option PluginsConfig) (route : PluginsConfig) : PluginsConfig :=
  match route.sharing with
  | .private_ => { sharing := route.sharing, items := route.items }
  | .inherit | .enforce =>
    { sharing := route.sharing
      items := route.items.foldl upsertPlugin (PluginsConfig.itemsOf effective) }

/-- A route's CORS rules merged as a layer's are, except that private origins are seen. -/
def routeCors (effective : Option CorsConfig) (route : CorsConfig) :
    Except DomainError (Option CorsConfig) :=
  if effective.any (·.isEnforced) then .ok effective
  else match route.sharing with
    | .private_ | .enforce => .ok effective
    | .inherit => do
      let upstreamOrigins := ((effective.map (·.allowedOrigins)).getD [])
      let merged := { route with allowedOrigins := addNew route.allowedOrigins upstreamOrigins }
      validateCorsConfig isValidOrigin merged
      pure (some merged)

/-- The overrides of a route. -/
def overrideByRoute (effective : Upstream) (route : Route) : Except DomainError Upstream := do
  let plugins := match route.plugins with
    | some p => some (routePlugins effective.plugins p)
    | none => effective.plugins
  let rateLimit := match route.rateLimit with
    | some rl =>
      match rl.sharing with
      | .private_ => effective.rateLimit
      | .inherit | .enforce => some (minRateLimit effective.rateLimit rl)
    | none => effective.rateLimit
  let cors ← match route.cors with
    | some c => routeCors isValidOrigin effective.cors c
    | none => pure effective.cors
  pure { effective with plugins, rateLimit, cors, tags := addNew effective.tags route.tags }

/-- The chain merged from the root, and the route's overrides. -/
def computeEffectiveConfigReporting (ancestorChain : List Upstream) (route : Option Route) :
    Except Refusal (Upstream × List Withheld) :=
  match ancestorChain with
  | [] => .error (.internal "compute_effective_config called with empty ancestor_chain", [])
  | root :: layers => do
    let m ← layers.foldlM (mergeLayer isValidOrigin) (Merging.start root)
    let effective := ownSharedPool m.effective
    match route with
    | none => pure (effective, m.withheld)
    | some route =>
      let effective ← (overrideByRoute isValidOrigin effective route).mapError
        fun e => (e, m.withheld)
      pure (effective, m.withheld)

/-- The configuration without the reports. -/
def computeEffectiveConfig (ancestorChain : List Upstream) (route : Option Route) :
    Except DomainError Upstream :=
  ((computeEffectiveConfigReporting isValidOrigin ancestorChain route).map (·.1)).mapError (·.1)

variable {isValidOrigin} {m m' : Merging} {layer : Upstream}

/-- Withholding touches nothing but auth, and an enforced auth is left as it is. -/
theorem withholdAuth_spec (h : withholdAuth m layer = .ok m') :
    ∃ auth, m'.effective = { m.effective with auth } ∧
      (m.effective.auth.any (·.isEnforced) → auth = m.effective.auth) ∧
      (auth = m.effective.auth ∨ auth = none) := by
  unfold withholdAuth at h
  split at h
  · split at h <;> cases h
    exact ⟨_, rfl, fun _ => rfl, .inl rfl⟩
  · rename_i hnot
    split at h
    · cases h
      exact ⟨_, rfl, fun _ => rfl, .inl rfl⟩
    · split at h <;> cases h
      -- the one branch that withholds
      · exact ⟨none, rfl, fun he => absurd he hnot, .inr rfl⟩
      · exact ⟨_, rfl, fun _ => rfl, .inl rfl⟩

theorem mergedCors_of_isEnforced {c : CorsConfig} (hc : c.isEnforced) (layer : Option CorsConfig) :
    mergedCors isValidOrigin (some c) layer = .ok (some c) := by
  have hs : c.sharing = .enforce := of_decide_eq_true hc
  cases layer with
  | none => simp [mergedCors, hs]
  | some own => simp [mergedCors, hc]

theorem withholdHeaders_spec (m : Merging) (layer : Upstream) :
    ∃ headers, (withholdHeaders m layer).effective = { m.effective with headers } := by
  unfold withholdHeaders
  split
  · exact ⟨_, rfl⟩
  · split <;> exact ⟨_, rfl⟩

/-- **One layer.**  The limit, the plugins and the CORS rules are merged from those in effect; an
enforced auth stays, and any other gives way to the layer's or is withheld. -/
theorem mergeLayer_spec (h : mergeLayer isValidOrigin m layer = .ok m') :
    m'.effective.id = layer.id ∧
    m'.effective.rateLimit = (mergeRateLimit m.effective layer).rateLimit ∧
    m'.effective.plugins = mergedPlugins m.effective.plugins layer.plugins ∧
    mergedCors isValidOrigin m.effective.cors layer.cors = .ok m'.effective.cors ∧
    (m.effective.auth.any (·.isEnforced) → m'.effective.auth = m.effective.auth) ∧
    (¬ m.effective.auth.any (·.isEnforced) → m'.effective.auth = layer.auth ∨ layer.auth = none ∧
        (m'.effective.auth = m.effective.auth ∨ m'.effective.auth = none)) := by
  simp only [mergeLayer, mergeCors, Except.ok_iffs] at h
  obtain ⟨m₁, h₁, _, ⟨cors, hcors, rfl⟩, rfl⟩ := h
  obtain ⟨auth, heff, hkeep, hauth⟩ := withholdAuth_spec h₁
  obtain ⟨headers, heff'⟩ := withholdHeaders_spec m₁ layer
  rw [heff', heff] at hcors
  refine ⟨rfl, ?_, ?_, hcors, ?_, ?_⟩
  · simp only [heff', heff]
    rfl
  · simp only [selectLayer, mergePlugins, mergeRateLimit, mergeAuth, heff', heff]
  · intro he
    have hauth := hkeep he
    simp only [selectLayer, mergePlugins, mergeRateLimit, mergeAuth, heff', heff, hauth, mergedAuth]
    split <;> simp [he]
  · intro hn
    have hn' : ¬ auth.any (·.isEnforced) := by
      rcases hauth with rfl | rfl
      · exact hn
      · simp
    simp only [selectLayer, mergePlugins, mergeRateLimit, mergeAuth, heff', heff, mergedAuth]
    split
    · next hnone => exact .inr ⟨hnone, hauth⟩
    · next hsome => exact .inl (by simp [hn', hsome])

end

end Gears.Gateway
