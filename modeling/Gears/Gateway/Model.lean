import Mathlib.Data.String.Basic
import Gears.Lib.Except
import Gears.Lib.Rounding
import Gears.Lib.Uuid

/-!
# Upstreams of the outbound gateway

An upstream is a remote service that a tenant has configured under an alias.  Its auth, its rate
limit, its plugins and its CORS rules each carry a sharing mode that says what the tenants below
may do with them.

* `Endpoint.normalizedHost`, `Server.within` : where a credential of another upstream may go.
* `RateLimitConfig.ratePerSecond` : the rate the merge compares, a double.
* `validateCorsConfig` : the check of a CORS configuration.
-/

namespace Gears.Gateway

/-- What the tenants below may do with a setting. -/
inductive SharingMode where
  | private_
  | inherit
  | enforce
  deriving DecidableEq, Repr

/-- The scheme of an endpoint. -/
inductive Scheme where
  | http
  | https
  | wss
  | wt
  | grpc
  deriving DecidableEq, Repr

/-- One address of a remote service. -/
structure Endpoint where
  scheme : Scheme
  host : String
  port : UInt16
  deriving DecidableEq, Repr

/-- The text between a leading `[` and a trailing `]`. -/
def unbracketed (host : List Char) : Option (List Char) :=
  match host with
  | '[' :: rest => if rest.getLast? = some ']' then some rest.dropLast else none
  | _ => none

/-- The host without brackets, in lower case and without trailing dots. -/
def Endpoint.normalizedHost (e : Endpoint) : String :=
  let h := (unbracketed e.host.toList).getD e.host.toList
  String.ofList (((h.map Char.toLower).reverse.dropWhile (· = '.')).reverse)

/-- What `Server.within` compares of an endpoint. -/
def Endpoint.key (e : Endpoint) : String × UInt16 × Scheme := (e.normalizedHost, e.port, e.scheme)

/-- The addresses of an upstream. -/
structure Server where
  endpoints : List Endpoint
  deriving DecidableEq, Repr

/-- Every endpoint of `server` is one of the owner's; an empty server is within none. -/
def Server.within (server owner : Server) : Bool :=
  !server.endpoints.isEmpty &&
    server.endpoints.all fun e => (owner.endpoints.map Endpoint.key).contains e.key

/-- The credentials that are added to a request. -/
structure AuthConfig where
  pluginType : String
  sharing : SharingMode
  config : Option (List (String × String))
  deriving DecidableEq, Repr

/-- Which headers of the caller are passed on. -/
inductive PassthroughMode where
  | none
  | allowlist
  | all
  deriving DecidableEq, Repr

/-- The changes to the headers of a request. -/
structure RequestHeaderRules where
  set : List (String × String)
  add : List (String × String)
  remove : List String
  passthrough : PassthroughMode
  passthroughAllowlist : List String
  deriving DecidableEq, Repr

/-- The changes to the headers of a response. -/
structure ResponseHeaderRules where
  set : List (String × String)
  add : List (String × String)
  remove : List String
  deriving DecidableEq, Repr

/-- The header rules of an upstream. -/
structure HeadersConfig where
  request : Option RequestHeaderRules
  response : Option ResponseHeaderRules
  deriving DecidableEq, Repr

/-! ### Rate limits -/

/-- The window of a sustained rate. -/
inductive Window where
  | second
  | minute
  | hour
  | day
  deriving DecidableEq, Repr

/-- Requests for each window. -/
structure SustainedRate where
  rate : UInt32
  window : Window
  deriving DecidableEq, Repr

/-- How requests are counted against a limit. -/
inductive RateLimitAlgorithm where
  | tokenBucket
  | slidingWindow
  deriving DecidableEq, Repr

/-- How a budget is divided among the tenants below. -/
inductive BudgetMode where
  | unlimited
  | allocated
  | shared
  deriving DecidableEq, Repr

/-- The budget of a limit. -/
structure BudgetConfig where
  mode : BudgetMode
  total : Option UInt32
  deriving DecidableEq, Repr

/-- Whose requests a limit counts together. -/
inductive RateLimitScope where
  | global
  | tenant
  | user
  | ip
  | route
  deriving DecidableEq, Repr

/-- What happens to a request over the limit. -/
inductive RateLimitStrategy where
  | reject
  | queue
  | degrade
  deriving DecidableEq, Repr

/-- The rate limit of an upstream or of a route. -/
structure RateLimitConfig where
  sharing : SharingMode
  algorithm : RateLimitAlgorithm
  sustained : SustainedRate
  /-- The capacity of a burst. -/
  burst : Option UInt32
  budget : Option BudgetConfig
  scope : RateLimitScope
  strategy : RateLimitStrategy
  cost : UInt32
  responseHeaders : Bool
  /-- The upstream whose token bucket is used. -/
  poolOwnerId : Option Uuid
  deriving DecidableEq, Repr

/-- The length of a window. -/
def Window.toSecs : Window → ℕ
  | .second => 1
  | .minute => 60
  | .hour => 3600
  | .day => 86400

/-- The exact sustained rate. -/
def RateLimitConfig.rate (rl : RateLimitConfig) : ℚ :=
  (rl.sustained.rate.toNat : ℚ) / rl.sustained.window.toSecs

/-- The sustained rate as the double that the merge compares. -/
def RateLimitConfig.ratePerSecond (rl : RateLimitConfig) : ℚ := Double.round rl.rate

/-- The budget is one pool for the upstream and its descendants. -/
def RateLimitConfig.isShared (rl : RateLimitConfig) : Bool :=
  rl.budget.any fun b => b.mode = .shared

/-! ### CORS rules, plugins and upstreams -/

/-- A method that CORS rules may allow. -/
inductive CorsHttpMethod where
  | get
  | post
  | put
  | delete
  | patch
  | head
  | options
  deriving DecidableEq, Repr

/-- The CORS rules of an upstream or of a route. -/
structure CorsConfig where
  sharing : SharingMode
  enabled : Bool
  allowedOrigins : List String
  allowedMethods : List CorsHttpMethod
  exposeHeaders : List String
  allowCredentials : Bool
  deriving DecidableEq, Repr

/-- A plugin with its configuration. -/
structure PluginBinding where
  pluginRef : String
  config : List (String × String)
  deriving DecidableEq, Repr

/-- The plugins of an upstream or of a route. -/
structure PluginsConfig where
  sharing : SharingMode
  items : List PluginBinding
  deriving DecidableEq, Repr

/-- A remote service under the alias a tenant gave it. -/
structure Upstream where
  id : Uuid
  tenantId : Uuid
  alias_ : String
  server : Server
  protocol : String
  enabled : Bool
  auth : Option AuthConfig
  headers : Option HeadersConfig
  plugins : Option PluginsConfig
  rateLimit : Option RateLimitConfig
  cors : Option CorsConfig
  tags : List String
  deriving DecidableEq, Repr

/-- The overrides of a route. -/
structure Route where
  plugins : Option PluginsConfig
  rateLimit : Option RateLimitConfig
  cors : Option CorsConfig
  tags : List String
  deriving DecidableEq, Repr

/-- The errors of the merge. -/
inductive DomainError where
  | internal (message : String)
  | forbidden (reason detail : String)
  | validation (field reason detail : String)
  deriving DecidableEq, Repr

/-- Credentials with the wildcard origin are refused, and so is a text that is no origin. -/
def validateCorsConfig (isValidOrigin : String → Bool) (config : CorsConfig) :
    Except DomainError Unit := do
  Except.rejectIf (config.allowCredentials && config.allowedOrigins.any (· = "*"))
    (.validation "cors.allow_credentials" "CORS_CREDENTIALS_WITH_WILDCARD"
      "allow_credentials cannot be true when allowed_origins contains '*'")
  match config.allowedOrigins.find? fun origin => origin ≠ "*" && !isValidOrigin origin with
  | some origin =>
    .error (.validation "cors.allowed_origins" "INVALID_CORS_ORIGIN"
      ("invalid origin '" ++ origin ++
        "': must be '*' or a valid origin (e.g. https://example.com)"))
  | none => pure ()

namespace RateLimitConfig

variable (a b : RateLimitConfig)

/-- Every rate is a whole number of requests a day, below `2 ^ 32` a second. -/
theorem exists_daily : ∃ n : ℕ, a.rate = (n : ℚ) / 86400 ∧ a.rate < 2 ^ 32 ∧ 0 ≤ a.rate := by
  have hlt : (a.sustained.rate.toNat : ℚ) < 2 ^ 32 := by
    exact_mod_cast a.sustained.rate.toNat_lt
  refine ⟨a.sustained.rate.toNat * (86400 / a.sustained.window.toSecs), ?_⟩
  cases hw : a.sustained.window
  all_goals
    simp only [rate, hw, Window.toSecs]
    push_cast
    exact ⟨by ring, by linarith, by linarith⟩

theorem ratePerSecond_lt_of_lt (h : a.rate < b.rate) : a.ratePerSecond < b.ratePerSecond := by
  obtain ⟨m, ha, ha', ha₀⟩ := a.exists_daily
  obtain ⟨n, hb, hb', hb₀⟩ := b.exists_daily
  refine Double.round_lt_round ha₀ hb₀ ?_
  have hmn : m < n := by
    rw [ha, hb] at h
    exact_mod_cast (div_lt_div_iff_of_pos_right (by norm_num : (0 : ℚ) < 86400)).1 h
  -- distinct rates are a day's request apart, far above the error of the two doubles
  have hgap : (1 : ℚ) / 86400 ≤ b.rate - a.rate := by
    have hmn' : (m : ℚ) + 1 ≤ n := by exact_mod_cast hmn
    linarith
  linarith

@[simp] theorem ratePerSecond_lt_iff : a.ratePerSecond < b.ratePerSecond ↔ a.rate < b.rate := by
  refine ⟨fun h => ?_, a.ratePerSecond_lt_of_lt b⟩
  by_contra hle
  rcases (not_lt.1 hle).eq_or_lt with heq | hlt
  · rw [ratePerSecond, ratePerSecond, heq] at h
    exact lt_irrefl _ h
  · exact lt_asymm h (b.ratePerSecond_lt_of_lt a hlt)

end RateLimitConfig

end Gears.Gateway
