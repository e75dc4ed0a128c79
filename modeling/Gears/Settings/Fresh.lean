import Gears.Settings.Reads

/-!
# What the cache serves after an invalidation

A read captures its generation before it reads the database, so that a change that is committed and
invalidated meanwhile refuses its store.  A browse is handed declarations that were read before it
captures anything: a change between the two is in the generation it captures and not in the
declaration it stores from.

* `Instance.Served` : what a lookup may return after an invalidation.
* `Instance.capturesCurrent` : no change committed since the page was loaded is invalidated when a
  browse captures.
* `cache_serves_nothing_older` : under that condition nothing older is served, whatever the
  interleaving.
* `browse_stores_a_retired_setting` : without it a retired setting is served from the cache.
-/

namespace Gears.Settings

open Except List

variable {value : EffectiveValue} {cache : CacheStore} {read : Option Read} {rest : List String}
  {seen : Generation}

/-- The value was computed from a declaration and rows that were read after the change. -/
def EffectiveValue.After (value : EffectiveValue) (w : Write) : Prop :=
  w.committedAt < value.declarationReadAt ∧ w.committedAt < value.rowsReadAt

instance (value : EffectiveValue) (w : Write) : Decidable (value.After w) :=
  inferInstanceAs (Decidable (_ ∧ _))

namespace Instance

/-- After an invalidation a lookup returns values of the slots it was for only when they were
computed from what was read after the commit. -/
def Served (cfg : SettingsConfig) (s : Instance) : Prop :=
  ∀ now slot value, (s.cache.get cfg.cache now slot).1 = some value →
    ∀ w ∈ s.invalidated, w.Reaches slot → value.After w

/-- When a browse captures the generation of a miss, its declaration was loaded after the changes of
the key that are invalidated by then. -/
def capturesCurrent (s : Instance) : SettingsEvent → Bool
  | .advance read _ =>
    match s.reads read with
    | some (.browse _ (.missed _ miss _)) =>
      s.invalidated.all fun w => w.key ≠ miss.declaration.key ∨ w.committedAt < miss.readAt
    | _ => true
  | _ => true

end Instance

/-! ### What a read in flight may store -/

variable (gens : String → ℕ) (invalidated : List Write)

/-- While the generation has not moved, every invalidated change of the key is before the read. -/
def Covered (key : String) (seen : Generation) (readAt : ℕ) : Prop :=
  seen.key ≤ gens key ∧
    (gens key = seen.key → ∀ w ∈ invalidated, w.key = key → w.committedAt < readAt)

/-- The value may be stored under the generation. -/
def Storable (value : EffectiveValue) (seen : Generation) : Prop :=
  Covered gens invalidated value.key seen value.declarationReadAt ∧
    Covered gens invalidated value.key seen value.rowsReadAt

/-- What holds of a single read. -/
def SingleRead.Fresh : SingleRead → Prop
  | .lookup _ | .missed _ => True
  | .captured key seen => seen.key ≤ gens key
  | .loaded seen d | .walking seen d => Covered gens invalidated d.declaration.key seen d.readAt
  | .resolved seen value => Storable gens invalidated value seen

/-- The misses of a browse. -/
def MissesFresh (misses : List (Loaded × Generation)) : Prop :=
  ∀ m ∈ misses, Covered gens invalidated m.1.declaration.key m.2 m.1.readAt

/-- What holds of a browse. -/
def BrowseRead.Fresh : BrowseRead → Prop
  | .listing => True
  | .looking misses _ | .missed misses _ _ => MissesFresh gens invalidated misses
  | .storing values => ∀ v ∈ values, Storable gens invalidated v.1 v.2

/-- What holds of a read in flight. -/
def Read.Fresh : Read → Prop
  | .single _ phase _ => phase.Fresh gens invalidated
  | .browse _ phase => phase.Fresh gens invalidated

section Mono

variable {gens gens' : String → ℕ} {invalidated invalidated' : List Write}
  (hgens : ∀ key, gens key ≤ gens' key)
  (hinvalidated : ∀ key, gens' key = gens key → ∀ w ∈ invalidated', w.key = key → w ∈ invalidated)

include hgens hinvalidated

theorem Covered.mono {key : String} {readAt : ℕ} (h : Covered gens invalidated key seen readAt) :
    Covered gens' invalidated' key seen readAt := by
  refine ⟨h.1.trans (hgens key), fun heq w hw hkey => ?_⟩
  have hsame : gens' key = gens key := Nat.le_antisymm (heq ▸ h.1) (hgens key)
  exact h.2 (hsame ▸ heq) w (hinvalidated key hsame w hw hkey) hkey

theorem Storable.mono (h : Storable gens invalidated value seen) :
    Storable gens' invalidated' value seen :=
  ⟨h.1.mono hgens hinvalidated, h.2.mono hgens hinvalidated⟩

theorem Read.Fresh.mono {read : Read} (h : read.Fresh gens invalidated) :
    read.Fresh gens' invalidated' := by
  cases read with
  | single tenant phase rest =>
    cases phase with
    | lookup key | missed key => trivial
    | captured key seen => exact Nat.le_trans h (hgens key)
    | loaded seen loaded | walking seen loaded => exact Covered.mono hgens hinvalidated h
    | resolved seen value => exact Storable.mono hgens hinvalidated h
  | browse tenant phase =>
    cases phase with
    | listing => trivial
    | looking misses todo | missed misses miss todo =>
      exact fun m hm => (h m hm).mono hgens hinvalidated
    | storing values => exact fun v hv => (h v hv).mono hgens hinvalidated

end Mono

/-! ### The invariant -/

/-- The entry is in the slot of its value and may be served. -/
def EntryFresh (e : Entry) : Prop :=
  ∀ w ∈ invalidated, w.Reaches e.slot → e.value.After w

/-- The invariant of an instance. -/
structure Instance.Fresh (s : Instance) : Prop where
  past : ∀ w ∈ s.committed, w.committedAt < s.clock
  known : ∀ w ∈ s.invalidated, w ∈ s.committed
  entries : ∀ e ∈ s.cache.entries, EntryFresh s.invalidated e
  reads : ∀ r read, s.reads r = some read → read.Fresh s.cache.keyGenerations s.invalidated

namespace Instance

variable {s s' : Instance} {cfg : SettingsConfig}

theorem Fresh.served (h : s.Fresh) : s.Served cfg := by
  intro now slot value hget w hw hreaches
  obtain ⟨e, he, rfl, rfl⟩ := CacheStore.exists_of_get hget
  exact h.entries e he w hw hreaches

variable {seen : Generation} {env : Surroundings} {tenant : Uuid}

theorem Fresh.covered_clock (h : s.Fresh) {key : String}
    (hseen : seen.key ≤ s.cache.keyGenerations key) :
    Covered s.cache.keyGenerations s.invalidated key seen s.clock :=
  ⟨hseen, fun _ w hw _ => h.past w (h.known w hw)⟩

theorem Fresh.populate (h : s.Fresh) {now : ℕ}
    (hstore : Storable s.cache.keyGenerations s.invalidated value seen) :
    ∀ e ∈ (s.cache.populate cfg.cache now value seen).entries, EntryFresh s.invalidated e := by
  intro e he
  rcases CacheStore.mem_of_populate he with he | ⟨hgen, hslot, rfl⟩
  · exact h.entries e he
  · intro w hw hreaches
    rw [hslot] at hreaches
    have hsame : s.cache.keyGenerations e.value.key = seen.key := congrArg Generation.key hgen
    exact ⟨hstore.1.2 hsame w hw hreaches.1.symm, hstore.2.2 hsame w hw hreaches.1.symm⟩

/-- A value that is resolved now from a declaration that is covered may be stored. -/
theorem Fresh.storable_of_resolveRows (h : s.Fresh) {loaded : Loaded}
    (hcovered :
      Covered s.cache.keyGenerations s.invalidated loaded.declaration.key seen loaded.readAt)
    (hvalue : s.resolveRows cfg env tenant loaded = some value) :
    Storable s.cache.keyGenerations s.invalidated value seen := by
  unfold resolveRows at hvalue
  split at hvalue
  · cases hvalue
  · split at hvalue
    · cases hvalue
    · cases hvalue
      refine ⟨?_, ?_⟩
      · rw [select_key, select_declarationReadAt]
        exact hcovered
      · rw [select_key, select_rowsReadAt]
        exact h.covered_clock hcovered.1

/-- What one action of a read leaves. -/
structure Advanced (s : Instance) (result : Option Read × CacheStore) : Prop where
  gens : result.2.keyGenerations = s.cache.keyGenerations
  entries : ∀ e ∈ result.2.entries, EntryFresh s.invalidated e
  read : ∀ read ∈ result.1, read.Fresh s.cache.keyGenerations s.invalidated

theorem Fresh.looked (h : s.Fresh) {now : ℕ} {slot : Slot} {o : Option EffectiveValue}
    (hget : s.cache.get cfg.cache now slot = (o, cache))
    (hread : ∀ r ∈ read, r.Fresh s.cache.keyGenerations s.invalidated) :
    s.Advanced (read, cache) := by
  have hgens := CacheStore.keyGenerations_get cfg.cache now s.cache slot
  have hshrinks := CacheStore.shrinks_get cfg.cache now s.cache slot
  rw [hget] at hgens hshrinks
  exact ⟨hgens, fun e he => h.entries e (hshrinks e he), hread⟩

variable {invalidated : List Write} {gens : String → ℕ}

theorem fresh_some {read : Read} (h : read.Fresh gens invalidated) :
    ∀ r ∈ some read, r.Fresh gens invalidated := by
  rintro _ ⟨⟩
  exact h

theorem fresh_nextKey : ∀ read ∈ nextKey tenant rest, read.Fresh gens invalidated := by
  intro read hread
  cases rest with
  | nil => cases hread
  | cons key rest =>
    cases hread
    trivial

theorem Fresh.advanceSingle (h : s.Fresh) {phase : SingleRead}
    (hphase : phase.Fresh s.cache.keyGenerations s.invalidated) :
    s.Advanced (s.advanceSingle cfg env tenant rest phase) := by
  cases phase with
  | lookup key =>
    dsimp only [Instance.advanceSingle]
    split
    case h_1 value cache hget => exact h.looked hget fresh_nextKey
    case h_2 cache hget => exact h.looked hget (fresh_some trivial)
  | missed key => exact ⟨rfl, h.entries, fresh_some (Nat.le_refl _)⟩
  | captured key seen =>
    dsimp only [Instance.advanceSingle]
    split
    · exact ⟨rfl, h.entries, fresh_nextKey⟩
    case h_2 d hd =>
      have hkey : d.key = key := Table.key_of_lookup hd
      exact ⟨rfl, h.entries, fresh_some (h.covered_clock (hkey ▸ hphase))⟩
  | loaded seen loaded =>
    dsimp only [Instance.advanceSingle]
    split
    case h_1 value cache hget => exact h.looked hget fresh_nextKey
    case h_2 cache hget =>
      split
      · exact h.looked hget fresh_nextKey
      · exact h.looked hget (fresh_some hphase)
  | walking seen loaded =>
    dsimp only [Instance.advanceSingle]
    split
    · exact ⟨rfl, h.entries, fresh_nextKey⟩
    case h_2 value hvalue =>
      exact ⟨rfl, h.entries, fresh_some (h.storable_of_resolveRows hphase hvalue)⟩
  | resolved seen value =>
    exact ⟨CacheStore.keyGenerations_populate _ _ _ _ _, h.populate hphase, fresh_nextKey⟩

theorem Fresh.advanceBrowse (h : s.Fresh) {phase : BrowseRead}
    (hphase : phase.Fresh s.cache.keyGenerations s.invalidated)
    (hmiss : ∀ misses miss todo, phase = .missed misses miss todo →
      ∀ w ∈ s.invalidated, w.key = miss.declaration.key → w.committedAt < miss.readAt) :
    s.Advanced (s.advanceBrowse cfg env tenant phase) := by
  cases phase with
  | listing =>
    refine ⟨rfl, h.entries, fresh_some ?_⟩
    exact fun m hm => by cases hm
  | looking misses todo =>
    cases todo with
    | nil =>
      refine ⟨rfl, h.entries, fresh_some fun v hv => ?_⟩
      obtain ⟨⟨loaded, seen⟩, hm, hv⟩ := mem_filterMap.1 hv
      obtain ⟨value, hvalue, rfl⟩ := Option.map_eq_some_iff.1 hv
      exact h.storable_of_resolveRows (hphase _ hm) hvalue
    | cons loaded todo =>
      dsimp only [Instance.advanceBrowse]
      split
      case h_1 value cache hget => exact h.looked hget (fresh_some hphase)
      case h_2 cache hget => exact h.looked hget (fresh_some hphase)
  | missed misses miss todo =>
    dsimp only [Instance.advanceBrowse]
    split
    · exact ⟨rfl, h.entries, fresh_some hphase⟩
    · refine ⟨rfl, h.entries, fresh_some fun m hm => ?_⟩
      rcases mem_concat_iff.1 hm with hm | rfl
      · exact hphase m hm
      · -- the generation is captured here, after the declaration was read
        exact ⟨Nat.le_refl _, fun _ => hmiss misses miss todo rfl⟩
  | storing values =>
    cases values with
    | nil => exact ⟨rfl, h.entries, fun read hread => by cases hread⟩
    | cons v values =>
      exact ⟨CacheStore.keyGenerations_populate _ _ _ _ _, h.populate (hphase _ mem_cons_self),
        fresh_some fun v hv => hphase v (mem_cons_of_mem _ hv)⟩

/-! ### One action -/

theorem Fresh.advanced (h : s.Fresh) {r : ℕ} (hadvanced : s.Advanced (read, cache)) :
    ({ s with
      reads := Function.update s.reads r read, cache, clock := s.clock + 1 } : Instance).Fresh where
  past w hw := Nat.lt_succ_of_lt (h.past w hw)
  known := h.known
  entries := hadvanced.entries
  reads r' read' hr' := by
    rw [hadvanced.gens]
    simp only [Function.update_apply] at hr'
    split at hr'
    · exact hadvanced.read read' hr'
    · exact h.reads r' read' hr'

theorem Fresh.commit (h : s.Fresh) {w : Write} (hw : w.committedAt = s.clock)
    (declarations : List Declaration) (rows : List StoredValue) : ({ s with
      declarations, rows, committed := w :: s.committed, clock := s.clock + 1 } : Instance).Fresh :=
  { h with
    past := forall_mem_cons.2
      ⟨hw ▸ Nat.lt_succ_self _, fun w' hw' => Nat.lt_succ_of_lt (h.past w' hw')⟩
    known := fun w' hw' => mem_cons_of_mem _ (h.known w' hw') }

theorem Fresh.evict (h : s.Fresh) (hshrinks : s.cache.Shrinks cache)
    (hgens : ∀ key, s.cache.keyGenerations key ≤ cache.keyGenerations key) :
    ({ s with cache := cache, clock := s.clock + 1 } : Instance).Fresh where
  past w hw := Nat.lt_succ_of_lt (h.past w hw)
  known := h.known
  entries e he := h.entries e (hshrinks e he)
  reads r read hread := (h.reads r read hread).mono hgens fun _ _ _ hw _ => hw

theorem Fresh.invalidate (h : s.Fresh) {w : Write} (hw : w ∈ s.committed) : ({ s with
      cache := s.cache.invalidate w.key w.scopeClass w.tenant
      invalidated := w :: s.invalidated
      clock := s.clock + 1 } : Instance).Fresh where
  past w' hw' := Nat.lt_succ_of_lt (h.past w' hw')
  known w' hw' := by
    rcases mem_cons.1 hw' with rfl | hw'
    · exact hw
    · exact h.known w' hw'
  entries e he w' hw' hreaches := by
    obtain ⟨he, hnot⟩ := CacheStore.mem_of_invalidate he
    rcases mem_cons.1 hw' with rfl | hw'
    · exact absurd hreaches hnot
    · exact h.entries e he w' hw' hreaches
  reads r read hread := by
    rw [CacheStore.keyGenerations_invalidate]
    refine (h.reads r read hread).mono (le_update_self_iff.2 (Nat.le_succ _))
      fun key hsame w' hw' hkey => ?_
    -- the generation of the key has moved, so only other changes are left
    rcases mem_cons.1 hw' with rfl | hw'
    · subst hkey
      rw [Function.update_self] at hsame
      omega
    · exact hw'

/-- **One action**, when a browse that captures a generation has a current declaration. -/
theorem Fresh.step {e : SettingsEvent} (h : s.Fresh) (hcond : s.capturesCurrent e = true)
    (hstep : s.step cfg e = .ok s') : s'.Fresh := by
  obtain ⟨s₁, hact, rfl⟩ := map_eq_ok_iff.1 hstep
  cases e with
  | startBulk read tenant keys =>
    simp only [act, bind_eq_ok_iff, ok.injEq] at hact
    obtain ⟨-, -, rfl⟩ := hact
    exact h.advanced ⟨rfl, h.entries, fresh_nextKey⟩
  | startBrowse read tenant =>
    simp only [act, bind_eq_ok_iff, ok.injEq] at hact
    obtain ⟨-, -, rfl⟩ := hact
    exact h.advanced ⟨rfl, h.entries, fresh_some trivial⟩
  | advance read env =>
    simp only [act, ok_iffs, ok.injEq] at hact
    obtain ⟨r, hr, rfl⟩ := hact
    have hfresh := h.reads read r hr
    refine h.advanced ?_
    cases r with
    | single tenant phase rest => exact h.advanceSingle hfresh
    | browse tenant phase =>
      refine h.advanceBrowse hfresh fun misses miss todo hphase w hw hkey => ?_
      subst hphase
      rw [capturesCurrent, hr] at hcond
      simpa [hkey] using all_eq_true.1 hcond w hw
  | commitValue | removeValue =>
    simp only [act, bind_eq_ok_iff, ok.injEq] at hact
    obtain ⟨d, -, rfl⟩ := hact
    exact h.commit rfl _ _
  | commitDeclaration d =>
    cases hact
    exact h.commit rfl _ _
  | invalidate w =>
    simp only [act, ok_iffs, ok.injEq, not_not] at hact
    obtain ⟨-, hw, rfl⟩ := hact
    exact h.invalidate hw
  | invalidateTenants key tenants =>
    cases hact
    exact h.evict (CacheStore.shrinks_invalidateTenants _ _ _)
      (le_update_self_iff.2 (Nat.le_succ _))
  | invalidateSubtree tenants =>
    cases hact
    refine h.evict (CacheStore.shrinks_invalidateSubtree _ _) fun key => ?_
    rw [CacheStore.keyGenerations_invalidateSubtree]

theorem fresh_empty : empty.Fresh where
  past _ h := by cases h
  known _ h := by cases h
  entries _ h := by cases h
  reads _ _ h := by cases h

end Instance

/-- **The cache serves nothing older.**  In every run of reads and writers from the empty instance
in which no browse captures the generation of a declaration when a change of its key that was
committed since the page was loaded is invalidated, a lookup after an invalidation returns only what
was read after the commit. -/
theorem cache_serves_nothing_older {cfg : SettingsConfig} {events : List SettingsEvent}
    {s : Instance} (hrun : Machine.run (Instance.step cfg) .empty events = .ok s)
    (hcond : Machine.AllSteps (Instance.step cfg) (fun s e => s.capturesCurrent e = true) .empty
      events) : s.Served cfg :=
  (Machine.run_guarded (fun _ _ _ h hc hs => h.step hc hs) hrun hcond
    Instance.fresh_empty).served

/-! ### A browse in between -/

/-- A setting that every tenant inherits. -/
def sampleDeclaration : Declaration := ⟨1, "theme", .cascading, false, .string "light", "t"⟩

/-- A time-to-live, a capacity and the root. -/
def sampleConfig : SettingsConfig := ⟨⟨30, 100⟩, 10⟩

/-- The surroundings of a page with the one setting. -/
def sampleSurroundings : Surroundings := ⟨5, some [10, 11], [], ["theme"]⟩

/-- The actions of a browse of one setting from the loading of the page to the store. -/
def browseActions : List SettingsEvent := replicate 4 (.advance 0 sampleSurroundings)

/-- A single read and a browse fill and use the cache; a value is written in between. -/
theorem cache_serves_nothing_older_sample : ∃ s, Machine.run (Instance.step sampleConfig) .empty
        ([.commitDeclaration sampleDeclaration, .startBulk 1 11 ["theme"]] ++
          replicate 6 (.advance 1 sampleSurroundings) ++
          [.commitValue "theme" 11 (some (.string "dark")) none false,
            .invalidate ⟨"theme", .cascading, some 11, 8⟩, .startBrowse 0 11] ++
          .advance 0 sampleSurroundings :: browseActions) = .ok s ∧
      ((s.cache.get sampleConfig.cache 6 ("theme", 11)).1.map fun v => v.value) =
        some (.string "dark") ∧
      s.Served sampleConfig :=
  exists_ok_of (by decide +kernel)
    fun _ hs hvalue => ⟨hvalue, cache_serves_nothing_older hs (by decide +kernel)⟩

/-- **A browse stores a retired setting.**  The page is loaded, the setting is retired and the
retirement invalidated, and then the browse captures the generation, reads the rows and stores the
value of the declaration it was handed: a lookup after the invalidation returns a value whose
declaration was read before the commit. -/
theorem browse_stores_a_retired_setting : ∃ s, Machine.run (Instance.step sampleConfig) .empty
        ([.commitDeclaration sampleDeclaration, .startBrowse 0 11, .advance 0 sampleSurroundings,
          .commitDeclaration { sampleDeclaration with retired := true },
          .invalidate ⟨"theme", .cascading, none, 3⟩] ++ browseActions) = .ok s ∧
      ((s.findByKey "theme").map fun d => d.retired) = some true ∧
      ¬ s.Served sampleConfig := by
  refine exists_ok_of (P := fun s => (s.findByKey "theme").map (fun d => d.retired) = some true ∧
      ⟨"theme", .cascading, none, 3⟩ ∈ s.invalidated ∧
      ∃ v ∈ (s.cache.get sampleConfig.cache 6 ("theme", 11)).1,
        ¬ v.After ⟨"theme", .cascading, none, 3⟩) (by decide +kernel) ?_
  rintro s - ⟨hretired, hw, value, hvalue, hnot⟩
  exact ⟨hretired, fun hserved => hnot (hserved 6 _ value hvalue _ hw ⟨rfl, .inl rfl⟩)⟩

end Gears.Settings
