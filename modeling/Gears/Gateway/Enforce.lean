import Gears.Gateway.Merge
import Gears.Lib.Cascade

/-!
# What an ancestor enforces

A setting marked `enforce` is meant to bind every tenant below.  The mark of a merged limit or
plugin list is that of one layer only, so a later layer can take it away and a private layer after
it starts afresh.

* `EnforcedKept` : every enforced setting of the chain is in effect.
* `limitCascade`, `pluginCascade` : limits and plugins as settings merged along a chain.
* `LimitMarked`, `sharedAbove` : when limits and plugins merged from layers are marked `enforce`,
  from the rates and the sharing modes of the layers alone.
* `enforced_settings_kept_iff` : when every enforced setting is in effect.
-/

namespace Gears.Gateway

open Except List

/-- Every setting that a layer of the chain enforces is in effect. -/
structure EnforcedKept (chain : List Upstream) (effective : Upstream) : Prop where
  /-- The auth is that of the first layer that enforces one. -/
  auth : ∀ first, chain.find? (fun l => l.auth.any (·.isEnforced)) = some first →
    effective.auth = first.auth
  /-- The rate is at most every enforced rate. -/
  rateLimit : ∀ layer ∈ chain, ∀ rl ∈ layer.rateLimit, rl.isEnforced →
    ∃ limit ∈ effective.rateLimit, limit.rate ≤ rl.rate
  /-- Every enforced plugin is among the plugins. -/
  plugins : ∀ layer ∈ chain, ∀ p ∈ layer.plugins, p.isEnforced → ∀ item ∈ p.items,
    ∃ plugins ∈ effective.plugins, ∃ m ∈ plugins.items, m.pluginRef = item.pluginRef
  /-- The CORS rules that the root enforces are the rules. -/
  cors : ∀ root ∈ chain.head?, ∀ c ∈ root.cors, c.isEnforced → effective.cors = some c

/-! ### Limits -/

/-- A layer with the limit that is in effect there, given what is in effect above it. -/
def carryLimit (above : Option Upstream) (layer : Upstream) : Option Upstream :=
  match above with
  | none => some layer
  | some above => some { layer with rateLimit := (mergeRateLimit above layer).rateLimit }

/-- The limit in effect below the layers. -/
def limitInForce (layers : List Upstream) : Option RateLimitConfig :=
  (layers.foldl carryLimit none).bind (·.rateLimit)

@[simp] theorem RateLimitConfig.rate_pooledBy (rl : RateLimitConfig) (owner : Option Uuid) :
    (rl.pooledBy owner).rate = rl.rate := rfl

theorem mergedLimit_none (own : RateLimitConfig) : mergedLimit none own = own := by
  unfold mergedLimit
  split <;> rfl

/-- The merged limit is the layer's own, if that is lower or leaves the limit above it, or else the
limit above it. -/
theorem mergedLimit_cases (limit own : RateLimitConfig) :
    ((mergedLimit (some limit) own).rate = own.rate ∧
        (mergedLimit (some limit) own).isEnforced = own.isEnforced ∧
        (own.rate < limit.rate ∨ own.sharing = .private_ ∧ ¬ limit.isEnforced)) ∨
      mergedLimit (some limit) own = limit ∧ limit.rate ≤ own.rate ∧
        (own.sharing = .private_ → limit.isEnforced) := by
  by_cases hout : own.sharing = .private_ ∧ ¬ limit.isEnforced
  · simp [mergedLimit, hout]
  have hmin : mergedLimit (some limit) own = minRateLimit (some limit) own := by
    unfold mergedLimit
    split
    · next hprivate => simp [not_not.1 (not_and.1 hout hprivate)]
    · rfl
    · rfl
  rw [hmin]
  simp only [minRateLimit, RateLimitConfig.ratePerSecond_lt_iff]
  split
  · next hlt => exact .inl ⟨rfl, rfl, .inl hlt⟩
  · next hle => exact .inr ⟨rfl, not_lt.1 hle, fun h => not_not.1 (not_and.1 hout h)⟩

theorem mergedLimit_rate_le_iff (effective : Option RateLimitConfig) (own : RateLimitConfig)
    (r : ℚ) : (mergedLimit effective own).rate ≤ r ↔
      own.rate ≤ r ∨ ¬ isPrivateOverride effective (some own) ∧
        ∃ limit ∈ effective, limit.rate ≤ r := by
  cases effective with
  | none => simp [mergedLimit_none]
  | some limit =>
    simp only [isPrivateOverride, Option.any_some, Option.mem_some_iff, exists_eq_left']
    rcases mergedLimit_cases limit own with ⟨hrate, -, hwins⟩ | ⟨heq, hle, hstays⟩
    · rw [hrate, iff_self_or]
      rintro ⟨hin, hlimit⟩
      rcases hwins with hlt | ⟨hprivate, hnot⟩
      · exact hlt.le.trans hlimit
      · simp [hprivate, hnot] at hin
    · rw [heq]
      refine ⟨fun h => .inr ⟨?_, h⟩, fun h => h.elim hle.trans And.right⟩
      by_cases hprivate : own.sharing = .private_ <;> simp [hprivate, hstays]

/-- A layer keeps the rate below a bound that it meets itself, or that is met above it unless it
leaves for a limit of its own. -/
theorem mergeRateLimit_rate_le_iff (above layer : Upstream) (r : ℚ) :
    (∃ limit ∈ (mergeRateLimit above layer).rateLimit, limit.rate ≤ r) ↔
      (∃ rl ∈ layer.rateLimit, rl.rate ≤ r) ∨
        ¬ isPrivateOverride above.rateLimit layer.rateLimit ∧
          ∃ limit ∈ above.rateLimit, limit.rate ≤ r := by
  unfold mergeRateLimit
  cases layer.rateLimit with
  | none => cases above.rateLimit <;> simp [isPrivateOverride]
  | some own =>
    have hmerged := mergedLimit_rate_le_iff above.rateLimit own r
    by_cases hout : isPrivateOverride above.rateLimit (some own)
    · simpa [hout] using hmerged
    · simpa [hout] using hmerged

/-- The bounds on the rate along a chain. -/
def limitCascade : Cascade (Option Upstream) Upstream ℚ where
  start := none
  step := carryLimit
  optsOut above layer := isPrivateOverride (above.bind (·.rateLimit)) layer.rateLimit
  meets state r := ∃ limit ∈ state.bind (·.rateLimit), limit.rate ≤ r
  own layer r := ∃ rl ∈ layer.rateLimit, rl.rate ≤ r
  meets_step_iff state layer r := by
    cases state with
    | none => simp [carryLimit]
    | some above => exact mergeRateLimit_rate_le_iff above layer r

/-! ### The mark of the limit in force -/

/-- Every limit that is not above the rate is followed by a private one. -/
def ClearedFor (limits : List RateLimitConfig) (r : ℚ) : Prop :=
  ∀ before l after, limits = before ++ l :: after → l.rate ≤ r → ∃ p ∈ after, p.sharing = .private_

/-- An enforced limit of the rate that no later limit is below, with a private limit between it and
every earlier one that is not above it. -/
def EnforcedAt (limits : List RateLimitConfig) (r : ℚ) : Prop :=
  ∃ before rl after, limits = before ++ rl :: after ∧ rl.isEnforced ∧ rl.rate = r ∧
    (∀ l ∈ after, r ≤ l.rate) ∧ ClearedFor before r

/-- The limits of the layers leave an enforced one in force. -/
def LimitMarked (layers : List Upstream) : Prop :=
  ∃ r, EnforcedAt (layers.filterMap (·.rateLimit)) r

section

variable {limits : List RateLimitConfig} {limit own : RateLimitConfig} {r : ℚ}

theorem split_concat {before after : List RateLimitConfig} {rl : RateLimitConfig}
    (h : limits ++ [own] = before ++ rl :: after) :
    after = [] ∧ rl = own ∧ before = limits ∨
      ∃ rest, after = rest ++ [own] ∧ limits = before ++ rl :: rest := by
  rcases eq_nil_or_concat' after with rfl | ⟨rest, last, rfl⟩
  · obtain ⟨rfl, hlast⟩ := append_inj' h rfl
    cases hlast
    exact .inl ⟨rfl, rfl, rfl⟩
  · rw [← cons_append, ← append_assoc] at h
    obtain ⟨rfl, hlast⟩ := append_inj' h rfl
    cases hlast
    exact .inr ⟨rest, rfl, rfl⟩

theorem clearedFor_concat : ClearedFor (limits ++ [own]) r ↔
    r < own.rate ∧ (own.sharing = .private_ ∨ ClearedFor limits r) := by
  constructor
  · refine fun h => ⟨not_le.1 fun hle => ?_, or_iff_not_imp_left.2 fun hshared => ?_⟩
    · obtain ⟨p, hp, -⟩ := h limits own [] rfl hle
      cases hp
    · rintro before l after rfl hle
      obtain ⟨p, hp, hprivate⟩ := h before l (after ++ [own]) (by simp) hle
      rcases mem_concat_iff.1 hp with hp | rfl
      · exact ⟨p, hp, hprivate⟩
      · exact absurd hprivate hshared
  · rintro ⟨hlt, h⟩ before l after hsplit hle
    rcases split_concat hsplit with ⟨rfl, rfl, rfl⟩ | ⟨rest, rfl, hrest⟩
    · exact absurd hle (not_le.2 hlt)
    · rcases h with hprivate | h
      · exact ⟨own, mem_concat_iff.2 (.inr rfl), hprivate⟩
      · obtain ⟨p, hp, hprivate⟩ := h _ _ _ hrest hle
        exact ⟨p, mem_append_left _ hp, hprivate⟩

theorem enforcedAt_concat : EnforcedAt (limits ++ [own]) r ↔
    own.isEnforced ∧ own.rate = r ∧ ClearedFor limits r ∨ EnforcedAt limits r ∧ r ≤ own.rate := by
  constructor
  · rintro ⟨before, rl, after, hsplit, he, hr, hafter, hcleared⟩
    rcases split_concat hsplit with ⟨rfl, rfl, rfl⟩ | ⟨after, rfl, rfl⟩
    · exact .inl ⟨he, hr, hcleared⟩
    · rw [forall_mem_append, forall_mem_singleton] at hafter
      exact .inr ⟨⟨before, rl, after, rfl, he, hr, hafter.1, hcleared⟩, hafter.2⟩
  · rintro (⟨he, hr, hcleared⟩ | ⟨⟨before, rl, after, rfl, he, hr, hafter, hcleared⟩, hle⟩)
    · exact ⟨limits, own, [], rfl, he, hr, by simp, hcleared⟩
    · refine ⟨before, rl, after ++ [own], by simp, he, hr, ?_, hcleared⟩
      rw [forall_mem_append, forall_mem_singleton]
      exact ⟨hafter, hle⟩

/-- What the limit in force says of the limits it was merged from. -/
structure Tracks (limits : List RateLimitConfig) (limit : RateLimitConfig) : Prop where
  cleared : ∀ r < limit.rate, ClearedFor limits r
  below : ∀ r, ClearedFor limits r → r < limit.rate ∨ limit.isEnforced
  marked : limit.isEnforced → EnforcedAt limits limit.rate
  kept : ∀ r, EnforcedAt limits r → limit.isEnforced ∧ limit.rate ≤ r

theorem Tracks.single : Tracks ([] ++ [own]) own := by
  have hnil (r : ℚ) : ClearedFor [] r := fun before _ _ h => by simp at h
  refine ⟨fun r hr => clearedFor_concat.2 ⟨hr, .inr (hnil r)⟩,
    fun r hr => .inl (clearedFor_concat.1 hr).1,
    fun he => enforcedAt_concat.2 (.inl ⟨he, rfl, hnil _⟩), fun r hr => ?_⟩
  rcases enforcedAt_concat.1 hr with ⟨he, rfl, -⟩ | ⟨⟨before, _, _, h, -⟩, -⟩
  · exact ⟨he, le_rfl⟩
  · simp at h

theorem Tracks.merge (h : Tracks limits limit) (own : RateLimitConfig) :
    Tracks (limits ++ [own]) (mergedLimit (some limit) own) := by
  rcases mergedLimit_cases limit own with ⟨hrate, hmark, hwins⟩ | ⟨heq, hle, hstays⟩
  · refine ⟨fun r hr => ?_, fun r hr => ?_, fun he => ?_, fun r hr => ?_⟩
    · rw [hrate] at hr
      refine clearedFor_concat.2 ⟨hr, ?_⟩
      rcases hwins with hlt | ⟨hprivate, -⟩
      · exact .inr (h.cleared r (hr.trans hlt))
      · exact .inl hprivate
    · exact .inl (hrate ▸ (clearedFor_concat.1 hr).1)
    · rw [hmark] at he
      rw [hrate]
      refine enforcedAt_concat.2 (.inl ⟨he, rfl, ?_⟩)
      rcases hwins with hlt | ⟨hprivate, -⟩
      · exact h.cleared _ hlt
      · simp [RateLimitConfig.isEnforced, hprivate] at he
    · rcases enforcedAt_concat.1 hr with ⟨he, rfl, -⟩ | ⟨hr, hle⟩
      · exact ⟨hmark ▸ he, hrate.le⟩
      · obtain ⟨he, hle'⟩ := h.kept r hr
        rcases hwins with hlt | ⟨-, hnot⟩
        · exact absurd (hle'.trans hle) (not_le.2 hlt)
        · exact absurd he hnot
  · rw [heq]
    refine ⟨fun r hr => ?_, fun r hr => ?_, fun he => ?_, fun r hr => ?_⟩
    · exact clearedFor_concat.2 ⟨hr.trans_le hle, .inr (h.cleared r hr)⟩
    · rcases (clearedFor_concat.1 hr).2 with hprivate | hr
      · exact .inr (hstays hprivate)
      · exact h.below r hr
    · exact enforcedAt_concat.2 (.inr ⟨h.marked he, hle⟩)
    · rcases enforcedAt_concat.1 hr with ⟨-, rfl, hcleared⟩ | ⟨hr, -⟩
      · -- an enforced limit that does not win meets an enforced one that is as low
        rcases h.below _ hcleared with hlt | he
        · exact absurd hle (not_le.2 hlt)
        · exact ⟨he, hle⟩
      · exact h.kept r hr

end

theorem RateLimitConfig.pooledBy_none (rl : RateLimitConfig) : rl.pooledBy none = rl := by
  simp [pooledBy]

/-- A layer merges its limit into the one in force; only the owner of the pool may differ. -/
theorem limitInForce_concat (layers : List Upstream) (layer : Upstream) : ∃ owner,
    limitInForce (layers ++ [layer]) = (match layer.rateLimit with
      | none => limitInForce layers
      | some own => some (mergedLimit (limitInForce layers) own)).map
        (RateLimitConfig.pooledBy · owner) := by
  simp only [limitInForce, foldl_append, foldl_cons, foldl_nil]
  cases layers.foldl carryLimit none with
  | none =>
    refine ⟨none, ?_⟩
    cases hown : layer.rateLimit with
    | none => simp [carryLimit, hown]
    | some own => simp [carryLimit, hown, mergedLimit_none, RateLimitConfig.pooledBy_none]
  | some above =>
    simp only [carryLimit, mergeRateLimit, Option.bind_some]
    split
    · refine ⟨none, ?_⟩
      cases layer.rateLimit <;> simp [RateLimitConfig.pooledBy_none]
    · exact ⟨_, rfl⟩

theorem tracks_limitInForce (layers : List Upstream) :
    (limitInForce layers = none → layers.filterMap (·.rateLimit) = []) ∧
      ∀ limit ∈ limitInForce layers, Tracks (layers.filterMap (·.rateLimit)) limit := by
  induction layers using List.reverseRecOn with
  | nil => exact ⟨fun _ => rfl, fun limit hlimit => by cases hlimit⟩
  | append_singleton layers layer ih =>
    obtain ⟨hnone, htracks⟩ := ih
    obtain ⟨owner, hconcat⟩ := limitInForce_concat layers layer
    have hpooled {limits limit} (h : Tracks limits limit) : Tracks limits (limit.pooledBy owner) :=
      ⟨h.cleared, h.below, h.marked, h.kept⟩
    rw [hconcat, filterMap_append]
    cases hown : layer.rateLimit with
    | none =>
      simp only [filterMap_cons_none hown, filterMap_nil, append_nil, Option.map_eq_none_iff]
      refine ⟨hnone, fun _ hmem => ?_⟩
      obtain ⟨limit, hlimit, rfl⟩ := Option.map_eq_some_iff.1 hmem
      exact hpooled (htracks limit hlimit)
    | some own =>
      simp only [filterMap_cons_some hown, filterMap_nil, Option.map_some]
      refine ⟨fun h => (by cases h), fun _ hmem => ?_⟩
      cases hmem
      refine hpooled ?_
      cases hlimit : limitInForce layers with
      | none =>
        rw [hnone hlimit, mergedLimit_none]
        exact Tracks.single
      | some limit => exact (htracks limit hlimit).merge own

/-- The limit in force is enforced exactly if the limits of the layers leave an enforced one. -/
theorem any_isEnforced_limitInForce (layers : List Upstream) :
    (limitInForce layers).any (·.isEnforced) ↔ LimitMarked layers := by
  obtain ⟨hnone, htracks⟩ := tracks_limitInForce layers
  cases hlimit : limitInForce layers with
  | none =>
    simp only [LimitMarked, hnone hlimit, Option.any_none, Bool.false_eq_true, false_iff]
    rintro ⟨r, before, _, _, h, -⟩
    simp at h
  | some limit =>
    have h := htracks limit hlimit
    exact ⟨fun he => ⟨_, h.marked he⟩, fun ⟨r, hr⟩ => (h.kept r hr).1⟩

/-- Where a private limit starts afresh, every limit enforced above is met by it or below it. -/
def LimitsRestated (chain : List Upstream) : Prop :=
  ∀ above layer below, chain = above ++ layer :: below →
    layer.rateLimit.any (fun rl => rl.sharing = .private_) → ¬ LimitMarked above →
    ∀ a ∈ above, ∀ rl ∈ a.rateLimit, rl.isEnforced →
      ∃ k ∈ layer :: below, ∃ limit ∈ k.rateLimit, limit.rate ≤ rl.rate

theorem limits_kept_iff (chain : List Upstream) :
    (∀ layer ∈ chain, ∀ rl ∈ layer.rateLimit, rl.isEnforced →
      ∃ limit ∈ limitInForce chain, limit.rate ≤ rl.rate) ↔ LimitsRestated chain := by
  have hchain := limitCascade.keeps_demands_iff chain
    (fun layer r => ∃ rl ∈ layer.rateLimit, rl.isEnforced ∧ rl.rate = r)
    fun _ _ ⟨rl, hrl, _, heq⟩ => ⟨rl, hrl, heq.le⟩
  have hout (above : List Upstream) (layer : Upstream) :
      limitCascade.optsOut (limitCascade.merged above) layer ↔
        layer.rateLimit.any (fun rl => rl.sharing = .private_) ∧ ¬ LimitMarked above := by
    change isPrivateOverride (limitInForce above) layer.rateLimit = true ↔ _
    rw [isPrivateOverride, Bool.and_eq_true, Bool.not_eq_true', ← Bool.not_eq_true,
      any_isEnforced_limitInForce]
  have hall (layer : Upstream) (P : ℚ → Prop) :
      (∀ r, (∃ rl ∈ layer.rateLimit, rl.isEnforced ∧ rl.rate = r) → P r) ↔
        ∀ rl ∈ layer.rateLimit, rl.isEnforced → P rl.rate :=
    ⟨fun h rl hrl he => h _ ⟨rl, hrl, he, rfl⟩, fun h _ ⟨rl, hrl, he, heq⟩ => heq ▸ h rl hrl he⟩
  simp only [Cascade.KeepsDemands, hall, hout, and_imp] at hchain
  exact hchain

/-! ### Plugins -/

/-- The sharing mode of the nearest layer above whose plugins are shared. -/
def sharedAbove (above : List Upstream) : Option SharingMode :=
  ((above.filterMap (·.plugins)).filter fun p => p.sharing ≠ .private_).getLast?.map (·.sharing)

/-- The plugins in effect at a layer, given what is in effect above it. -/
def carryPlugins (above : Option (Option PluginsConfig)) (layer : Upstream) :
    Option (Option PluginsConfig) :=
  match above with
  | none => some layer.plugins
  | some effective => some (mergedPlugins effective layer.plugins)

/-- The plugins in effect below the layers. -/
def pluginsInForce (layers : List Upstream) : Option PluginsConfig :=
  (layers.foldl carryPlugins none).join

/-- A plugin of the reference is bound. -/
def Binds (plugins : Option PluginsConfig) (ref : String) : Prop :=
  ∃ p ∈ plugins, ∃ m ∈ p.items, m.pluginRef = ref

theorem exists_ref_upsertPlugin (items : List PluginBinding) (item : PluginBinding) (ref : String) :
    (∃ m ∈ upsertPlugin items item, m.pluginRef = ref) ↔
      (∃ m ∈ items, m.pluginRef = ref) ∨ item.pluginRef = ref := by
  induction items with
  | nil => simp [upsertPlugin]
  | cons m rest ih =>
    unfold upsertPlugin
    split
    · next heq =>
      simp only [exists_mem_cons_iff, heq]
      exact ⟨.inl, fun h => h.elim id .inl⟩
    · rw [exists_mem_cons_iff, ih, exists_mem_cons_iff, or_assoc]

theorem exists_ref_appendPlugin (items : List PluginBinding) (item : PluginBinding) (ref : String) :
    (∃ m ∈ appendPlugin items item, m.pluginRef = ref) ↔
      (∃ m ∈ items, m.pluginRef = ref) ∨ item.pluginRef = ref := by
  unfold appendPlugin
  split
  · next hany =>
    obtain ⟨m, hm, heq⟩ := any_eq_true.1 hany
    refine ⟨.inl, fun h => h.elim id fun h => ⟨m, hm, ?_⟩⟩
    rw [of_decide_eq_true heq, h]
  · simp only [mem_append, mem_singleton, or_and_right, exists_or, exists_eq_left]

theorem exists_ref_foldl {add : List PluginBinding → PluginBinding → List PluginBinding}
    (hadd : ∀ items item ref, (∃ m ∈ add items item, m.pluginRef = ref) ↔
      (∃ m ∈ items, m.pluginRef = ref) ∨ item.pluginRef = ref)
    (own items : List PluginBinding) (ref : String) :
    (∃ m ∈ own.foldl add items, m.pluginRef = ref) ↔
      (∃ m ∈ items, m.pluginRef = ref) ∨ ∃ m ∈ own, m.pluginRef = ref := by
  induction own generalizing items with
  | nil => simp
  | cons item own ih =>
    rw [foldl_cons, ih, hadd, exists_mem_cons_iff, or_assoc]

theorem exists_ref_itemsOf (plugins : Option PluginsConfig) (ref : String) :
    (∃ m ∈ PluginsConfig.itemsOf plugins, m.pluginRef = ref) ↔ Binds plugins ref := by
  cases plugins <;> simp [PluginsConfig.itemsOf, Binds]

variable (effective layer : Option PluginsConfig)

/-- The layer leaves the plugins above it for a list of its own. -/
def replacesPlugins : Bool :=
  layer.any (fun p => p.sharing = .private_) && !effective.any (·.isEnforced)

theorem binds_mergedPlugins (ref : String) : Binds (mergedPlugins effective layer) ref ↔
      Binds layer ref ∨ ¬ replacesPlugins effective layer ∧ Binds effective ref := by
  cases layer with
  | none => simp [mergedPlugins, Binds, replacesPlugins]
  | some own =>
    have hown : Binds (some own) ref ↔ ∃ m ∈ own.items, m.pluginRef = ref := by simp [Binds]
    have hupsert := exists_ref_foldl exists_ref_upsertPlugin own.items
      (PluginsConfig.itemsOf effective) ref
    have happend := exists_ref_foldl exists_ref_appendPlugin own.items
      (PluginsConfig.itemsOf effective) ref
    rw [exists_ref_itemsOf] at hupsert happend
    rcases hs : own.sharing with _ | _ | _
    · by_cases he : effective.any (·.isEnforced)
      · simp only [mergedPlugins, hs, he, replacesPlugins]
        simp only [Binds] at happend ⊢
        simp [happend, or_comm]
      · simp [mergedPlugins, hs, he, replacesPlugins]
    · simp only [mergedPlugins, replacesPlugins]
      simp only [Binds] at hupsert ⊢
      simp [hupsert, hs, or_comm]
    · simp only [mergedPlugins, replacesPlugins]
      simp only [Binds] at hupsert ⊢
      simp [hupsert, hs, or_comm]

/-- The references bound along a chain. -/
def pluginCascade : Cascade (Option (Option PluginsConfig)) Upstream String where
  start := none
  step := carryPlugins
  optsOut above layer := replacesPlugins above.join layer.plugins
  meets state := Binds state.join
  own layer := Binds layer.plugins
  meets_step_iff state layer ref := by
    cases state with
    | none => simp [carryPlugins, Binds]
    | some effective => exact binds_mergedPlugins effective layer.plugins ref

/-- Merged plugins are enforced if the layer enforces its own, or leaves an enforced list so. -/
theorem any_isEnforced_mergedPlugins :
    (mergedPlugins effective layer).any (·.isEnforced) ↔ layer.any (·.isEnforced) ∨
        layer.all (fun p => p.sharing = .private_) ∧ effective.any (·.isEnforced) := by
  cases layer with
  | none => simp [mergedPlugins]
  | some own =>
    rcases hs : own.sharing with _ | _ | _
    · by_cases he : effective.any (·.isEnforced)
      · simp only [mergedPlugins, he]
        simp [PluginsConfig.isEnforced, hs]
      · simp only [mergedPlugins, hs, he]
        simp
    · simp [mergedPlugins, hs, PluginsConfig.isEnforced]
    · simp [mergedPlugins, hs, PluginsConfig.isEnforced]

/-- The plugins in force are enforced exactly if the nearest shared list is. -/
theorem any_isEnforced_pluginsInForce (layers : List Upstream) :
    (pluginsInForce layers).any (·.isEnforced) ↔ sharedAbove layers = some .enforce := by
  induction layers using List.reverseRecOn with
  | nil => simp [pluginsInForce, sharedAbove]
  | append_singleton layers layer ih =>
    have hstep : (pluginsInForce (layers ++ [layer])).any (·.isEnforced) ↔
        layer.plugins.any (·.isEnforced) ∨ layer.plugins.all (fun p => p.sharing = .private_) ∧
          (pluginsInForce layers).any (·.isEnforced) := by
      simp only [pluginsInForce, foldl_append]
      cases layers.foldl carryPlugins none with
      | none => simp [carryPlugins]
      | some effective => exact any_isEnforced_mergedPlugins effective layer.plugins
    rw [hstep, ih]
    cases hp : layer.plugins with
    | none => simp [sharedAbove, hp]
    | some own =>
      rcases hs : own.sharing with _ | _ | _ <;>
        simp [sharedAbove, hp, hs, PluginsConfig.isEnforced]

/-- Where a private list starts afresh, every plugin enforced above is in it or below it. -/
def PluginsRestated (chain : List Upstream) : Prop :=
  ∀ above layer below, chain = above ++ layer :: below →
    layer.plugins.any (fun p => p.sharing = .private_) → sharedAbove above ≠ some .enforce →
    ∀ a ∈ above, ∀ p ∈ a.plugins, p.isEnforced → ∀ item ∈ p.items,
      ∃ k ∈ layer :: below, Binds k.plugins item.pluginRef

theorem plugins_kept_iff (chain : List Upstream) :
    (∀ layer ∈ chain, ∀ p ∈ layer.plugins, p.isEnforced → ∀ item ∈ p.items,
      Binds (pluginsInForce chain) item.pluginRef) ↔ PluginsRestated chain := by
  have hchain := pluginCascade.keeps_demands_iff chain
    (fun layer ref => ∃ p ∈ layer.plugins, p.isEnforced ∧ ∃ item ∈ p.items, item.pluginRef = ref)
    fun _ _ ⟨p, hp, _, hitem⟩ => ⟨p, hp, hitem⟩
  have hout (above : List Upstream) (layer : Upstream) :
      pluginCascade.optsOut (pluginCascade.merged above) layer ↔
        layer.plugins.any (fun p => p.sharing = .private_) ∧ sharedAbove above ≠ some .enforce := by
    change replacesPlugins (pluginsInForce above) layer.plugins = true ↔ _
    rw [replacesPlugins, Bool.and_eq_true, Bool.not_eq_true', ← Bool.not_eq_true,
      any_isEnforced_pluginsInForce]
  have hall (layer : Upstream) (P : String → Prop) :
      (∀ ref, (∃ p ∈ layer.plugins, p.isEnforced ∧ ∃ item ∈ p.items, item.pluginRef = ref) →
        P ref) ↔ ∀ p ∈ layer.plugins, p.isEnforced → ∀ item ∈ p.items, P item.pluginRef :=
    ⟨fun h p hp he item hi => h _ ⟨p, hp, he, item, hi, rfl⟩,
      fun h _ ⟨p, hp, he, item, hi, heq⟩ => heq ▸ h p hp he item hi⟩
  simp only [Cascade.KeepsDemands, hall, hout, and_imp] at hchain
  exact hchain

/-! ### The whole chain -/

section

variable {isValidOrigin : String → Bool}

/-- What the merge of a chain has in effect. -/
structure Merged (chain : List Upstream) (m : Merging) : Prop where
  inForce : ∃ u, chain.foldl carryLimit none = some u ∧ m.effective.id = u.id ∧
    m.effective.rateLimit = u.rateLimit
  plugins : chain.foldl carryPlugins none = some m.effective.plugins
  auth : ∀ first, chain.find? (fun l => l.auth.any (·.isEnforced)) = some first →
    m.effective.auth = first.auth
  /-- Without an enforcing layer no enforced auth is in effect. -/
  authFree : chain.find? (fun l => l.auth.any (·.isEnforced)) = none →
    ¬ m.effective.auth.any (·.isEnforced)
  cors : ∀ root ∈ chain.head?, ∀ c ∈ root.cors, c.isEnforced → m.effective.cors = some c

theorem Merged.start (root : Upstream) : Merged [root] (Merging.start root) where
  inForce := ⟨root, rfl, rfl, rfl⟩
  plugins := rfl
  auth first hfirst := by
    obtain rfl : first = root := by simpa using mem_of_find?_eq_some hfirst
    rfl
  authFree hnone := by
    exact find?_eq_none.1 hnone root mem_cons_self
  cors root' hroot c hc _ := by
    cases hroot
    exact hc

theorem Merged.mergeLayer {chain : List Upstream} {m m' : Merging} {layer : Upstream}
    (hm : Merged chain m) (h : mergeLayer isValidOrigin m layer = .ok m') :
    Merged (chain ++ [layer]) m' := by
  obtain ⟨hid, hlimit, hplugins, hcors, hkeep, hfree⟩ := mergeLayer_spec h
  refine ⟨?_, ?_, ?_, ?_, ?_⟩
  · obtain ⟨u, hu, huid, hurate⟩ := hm.inForce
    refine ⟨{ layer with rateLimit := (mergeRateLimit u layer).rateLimit }, ?_, hid, ?_⟩
    · rw [foldl_append, hu]
      rfl
    · rw [hlimit]
      simp only [mergeRateLimit, huid, hurate]
  · rw [foldl_append, hm.plugins, hplugins]
    rfl
  · intro first hfirst
    rw [find?_append] at hfirst
    cases hf : chain.find? (fun l => l.auth.any (·.isEnforced)) with
    | some f =>
      rw [hf, Option.some_or, Option.some.injEq] at hfirst
      subst hfirst
      have hauth := hm.auth f hf
      have he := find?_some hf
      rw [← hauth] at he ⊢
      exact hkeep he
    | none =>
      rw [hf] at hfirst
      have hmem : first = layer := by simpa using mem_of_find?_eq_some hfirst
      have he := find?_some hfirst
      subst hmem
      rcases hfree (hm.authFree hf) with hauth | ⟨hnone, -⟩
      · exact hauth
      · simp [hnone] at he
  · intro hnone
    rw [find?_append, Option.or_eq_none_iff] at hnone
    have hlayer := find?_eq_none.1 hnone.2 layer mem_cons_self
    rcases hfree (hm.authFree hnone.1) with hauth | ⟨-, hauth | hauth⟩
    · rwa [hauth]
    · rw [hauth]
      exact hm.authFree hnone.1
    · simp [hauth]
  · intro root hroot c hc he
    have hhead : root ∈ chain.head? := by
      cases chain with
      | nil => cases hm.plugins
      | cons r rest => exact hroot
    rw [hm.cors root hhead c hc he, mergedCors_of_isEnforced he, Except.ok.injEq] at hcors
    exact hcors.symm

theorem computeEffectiveConfig_spec {chain : List Upstream} {effective : Upstream}
    (h : computeEffectiveConfig isValidOrigin chain none = .ok effective) :
    ∃ m, Merged chain m ∧ effective = ownSharedPool m.effective := by
  cases chain with
  | nil => cases h
  | cons root layers =>
    simp only [computeEffectiveConfig, computeEffectiveConfigReporting, ok_iffs, map_eq_ok_iff] at h
    obtain ⟨_, ⟨m, hrun, rfl⟩, rfl⟩ := h
    refine ⟨m, ?_, rfl⟩
    exact foldlM_induction (P := fun layers m => Merged (root :: layers) m)
      (Merged.start root) (fun _ _ _ _ hm hstep => hm.mergeLayer hstep) hrun

/-- **Enforced settings along a chain.**  Enforced auth and the root's enforced CORS rules are
always in effect; enforced limits and plugins are exactly if no private layer that starts afresh
drops one that is not stated again. -/
theorem enforced_settings_kept_iff {chain : List Upstream} {effective : Upstream}
    (h : computeEffectiveConfig isValidOrigin chain none = .ok effective) :
    EnforcedKept chain effective ↔ LimitsRestated chain ∧ PluginsRestated chain := by
  obtain ⟨m, hm, rfl⟩ := computeEffectiveConfig_spec h
  have hplugins : (ownSharedPool m.effective).plugins = pluginsInForce chain := by
    rw [pluginsInForce, hm.plugins]
    rfl
  have hlimit (r : ℚ) : (∃ limit ∈ (ownSharedPool m.effective).rateLimit, limit.rate ≤ r) ↔
      ∃ limit ∈ limitInForce chain, limit.rate ≤ r := by
    obtain ⟨u, hu, -, hrate⟩ := hm.inForce
    rw [limitInForce, hu, Option.bind_some, ← hrate, ownSharedPool]
    cases m.effective.rateLimit with
    | none => simp
    | some rl => by_cases hs : rl.isShared <;> simp [hs]
  rw [← limits_kept_iff, ← plugins_kept_iff]
  constructor
  · intro hkept
    refine ⟨fun layer hlayer rl hrl he => (hlimit _).1 (hkept.rateLimit layer hlayer rl hrl he),
      fun layer hlayer p hp he item hitem => ?_⟩
    rw [← hplugins]
    exact hkept.plugins layer hlayer p hp he item hitem
  · rintro ⟨hlimits, hbinds⟩
    refine ⟨hm.auth, fun layer hlayer rl hrl he => (hlimit _).2 (hlimits layer hlayer rl hrl he),
      fun layer hlayer p hp he item hitem => ?_, hm.cors⟩
    rw [hplugins]
    exact hbinds layer hlayer p hp he item hitem

/-- A layer with a limit per second and one plugin, both shared as `sharing`. -/
def sampleLayer (sharing : SharingMode) (rate : UInt32) (plugin : String) : Upstream where
  id := 1
  tenantId := 1
  alias_ := "api.example.com"
  server := { endpoints := [{ scheme := .https, host := "api.example.com", port := 443 }] }
  protocol := "http"
  enabled := true
  auth := none
  headers := none
  plugins := some { sharing, items := [{ pluginRef := plugin, config := [] }] }
  rateLimit := some {
    sharing
    algorithm := .tokenBucket
    sustained := { rate, window := .second }
    burst := none
    budget := none
    scope := .tenant
    strategy := .reject
    cost := 1
    responseHeaders := true
    poolOwnerId := none }
  cors := none
  tags := []

/-- A private layer below an inherited limit that states the enforced settings again. -/
def restatedChain : List Upstream :=
  [sampleLayer .enforce 10 "guard", sampleLayer .inherit 5 "log", sampleLayer .private_ 4 "guard"]

theorem enforced_settings_kept_iff_sample : ∃ effective,
    computeEffectiveConfig (fun _ => true) restatedChain none = .ok effective ∧
      (effective.rateLimit.map (·.sustained.rate), PluginsConfig.itemsOf effective.plugins) =
        (some 4, [{ pluginRef := "guard", config := [] }]) ∧
      EnforcedKept restatedChain effective := by
  refine exists_ok_of (by decide +kernel) fun effective heff hval => ⟨hval, ?_⟩
  have hlayers (layer : Upstream) (h : layer ∈ restatedChain) :
      layer = sampleLayer .enforce 10 "guard" ∨ layer = sampleLayer .inherit 5 "log" ∨
        layer = sampleLayer .private_ 4 "guard" := by
    simpa [restatedChain] using h
  refine (enforced_settings_kept_iff heff).2 ⟨?_, ?_⟩
  · rintro above layer below hsplit hprivate - a ha rl hrl he
    refine ⟨layer, mem_cons_self, ?_⟩
    rcases hlayers layer (by simp [hsplit]) with rfl | rfl | rfl
    · cases hprivate
    · cases hprivate
    rcases hlayers a (by simp [hsplit, ha]) with rfl | rfl | rfl <;> cases hrl <;> cases he
    exact ⟨_, rfl, by decide +kernel⟩
  · rintro above layer below hsplit hprivate - a ha p hp he item hitem
    refine ⟨layer, mem_cons_self, ?_⟩
    rcases hlayers layer (by simp [hsplit]) with rfl | rfl | rfl
    · cases hprivate
    · cases hprivate
    rcases hlayers a (by simp [hsplit, ha]) with rfl | rfl | rfl <;> cases hp <;> cases he
    cases mem_singleton.1 hitem
    exact ⟨_, rfl, _, mem_singleton_self _, rfl⟩

/-- An inherited limit below an enforced one hands on its own mark, and the next private limit
escapes; an inherited plugin list does the same. -/
theorem private_layer_escapes : ∃ effective, computeEffectiveConfig (fun _ => true)
        [sampleLayer .enforce 10 "guard", sampleLayer .inherit 5 "log",
          sampleLayer .private_ 1000 "trace"] none = .ok effective ∧
      (effective.rateLimit.map (·.sustained.rate), PluginsConfig.itemsOf effective.plugins) =
        (some 1000, [{ pluginRef := "trace", config := [] }]) ∧
      ¬ EnforcedKept [sampleLayer .enforce 10 "guard", sampleLayer .inherit 5 "log",
          sampleLayer .private_ 1000 "trace"] effective := by
  refine exists_ok_of
    (by decide +kernel) fun effective _ hval => ⟨hval, fun hkept => ?_⟩
  obtain ⟨plugins, hp, m, hm, href⟩ := hkept.plugins _ mem_cons_self _ rfl rfl
    { pluginRef := "guard", config := [] } mem_cons_self
  have hitems := (Prod.mk.inj hval).2
  rw [Option.mem_def.1 hp] at hitems
  change plugins.items = _ at hitems
  rw [hitems, mem_singleton] at hm
  subst hm
  exact absurd href (by decide)

end

end Gears.Gateway
