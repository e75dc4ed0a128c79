import Gears.Policy.Store

/-!
# A decision among committed changes

A decision reads the assignments along the tenant chain, then the active versions of their bundles,
then the documents of the versions that its cache misses, each from the state committed by then.

* `decide` : the decision, from the three states its reads see.
* `InForce` : a document that a state holds against a request.
* `permit_right_of_settled` : a permit was right when no activation follows a change that enforces
  between the first two reads.
-/

namespace Gears.Policy

open Except List

/-- An evaluation that failed. -/
inductive EngineFailure
  | internal (detail : String)
  deriving DecidableEq, Repr

/-- A document as it is reported. -/
structure PolicyReference where
  bundleId : Uuid
  versionId : Uuid
  documentId : Uuid
  documentName : String
  deriving DecidableEq, Repr

/-- The decision, with the denials behind it. -/
inductive EngineResult
  | permit (shadowDenials : List PolicyReference)
  | deny (reasonCode : String) (denials shadowDenials : List PolicyReference)
  deriving DecidableEq, Repr

/-- The request, with what the policy language says about it. -/
structure Request where
  action : String
  /-- Whether a pattern matches the resource type. -/
  matchesType : String → Bool
  /-- Whether the compiler accepts a document. -/
  compiles : Document → Bool
  /-- The verdict of a document. -/
  denies : Document → Except EngineFailure Bool

/-- An assignment with the active version of its bundle. -/
structure ActiveBinding where
  assignment : Assignment
  versionId : Uuid
  deriving DecidableEq, Repr

/-- The compiled versions by id. -/
abbrev CompileCache := Uuid → Option (List Document)

/-- The document is for the action and the type of the request. -/
def documentApplies (r : Request) (d : Document) : Bool :=
  (d.actions.isEmpty || d.actions.contains r.action) && d.resourceTypes.any r.matchesType

/-- The assignments of one state with the active versions of another. -/
def loadForTenants (assigned active : Store) (tenants : List Uuid) : List ActiveBinding :=
  (assigned.assignments.filter fun a => a.tenantId ∈ tenants ∧ a.ownerTenantId ∈ tenants).filterMap
    fun a => (activeOf active.versions a.bundleId).map fun v => ⟨a, v.id⟩

/-- The rank of the target, if the owner is at or above it. -/
def applies (chain : List Uuid) (a : Assignment) : Option ℕ := do
  let target ← chain.idxOf? a.tenantId
  let owner ← chain.idxOf? a.ownerTenantId
  if target ≤ owner then some target else none

/-- The bindings that still apply, nearest target first, then bundle id. -/
def applyingInOrder (chain : List Uuid) (bindings : List ActiveBinding) : List ActiveBinding :=
  ((bindings.filterMap fun b => (applies chain b.assignment).map (·, b)).sortByKey fun b =>
    toLex (b.1, b.2.assignment.bundleId.toNat)).map Prod.snd

/-- Every document of a version has to compile. -/
def compileContent (r : Request) (documents : List Document) :
    Except EngineFailure (List Document) := do
  rejectIf (documents.all r.compiles = false)
    (.internal "active policy content does not compile")
  pure documents

/-- A version from the cache, or from the cache by the time of its compilation, or compiled. -/
def versionContent (r : Request) (cache later : CompileCache) (s : Store) (id : Uuid) :
    Except EngineFailure (List Document) :=
  match (cache id).or (later id) with
  | some hit => .ok hit
  | none => compileContent r (((Table.lookup (·.id) s.versions id).map (·.documents)).getD [])

/-- The documents of a binding that apply, with how they are reported. -/
def applicable (r : Request) (cache later : CompileCache) (s : Store) (b : ActiveBinding) :
    Except EngineFailure (List (PolicyReference × Document × Bool)) := do
  let documents ← versionContent r cache later s b.versionId
  pure ((documents.filter (documentApplies r)).map fun d =>
    (⟨b.assignment.bundleId, b.versionId, d.id, d.name⟩, d, b.assignment.enforce))

/-- Evaluate one document and record its denial. -/
def evaluateDocument (r : Request) (found : List PolicyReference × List PolicyReference)
    (x : PolicyReference × Document × Bool) :
    Except EngineFailure (List PolicyReference × List PolicyReference) := do
  let denied ← r.denies x.2.1
  pure (if denied = false then found
    else if x.2.2 then (found.1 ++ [x.1], found.2) else (found.1, found.2 ++ [x.1]))

/-- The most findings that are reported. -/
def maxEngineFindings : ℕ := 64

/-- Any enforced denial denies. -/
def finish (found : List PolicyReference × List PolicyReference) : EngineResult :=
  let denials := found.1.take maxEngineFindings
  let shadowDenials := found.2.take (maxEngineFindings - denials.length)
  if denials = [] then .permit shadowDenials else .deny "POLICY_DENIED" denials shadowDenials

/-- The decision along a chain, from the states that its three reads see. -/
def decide (r : Request) (chain : List Uuid) (cache later : CompileCache) (s₁ s₂ s₃ : Store) :
    Except EngineFailure EngineResult := do
  let bindings := applyingInOrder chain (loadForTenants s₁ s₂ chain)
  let documents ← bindings.mapM (applicable r cache later s₃)
  let found ← documents.flatten.foldlM (evaluateDocument r) ([], [])
  pure (finish found)

/-! ### Histories -/

variable {found : List PolicyReference × List PolicyReference} {a : Assignment}
  {shadow : List PolicyReference} {id : Uuid} {t' t : ℕ} {D' D : List Document}

/-- A state holds the document against the request. -/
def InForce (s : Store) (chain : List Uuid) (r : Request) (d : Document) : Prop :=
  ∃ a ∈ s.assignments, a.enforce = true ∧ (applies chain a).isSome ∧
    ∃ v, activeOf s.versions a.bundleId = some v ∧ d ∈ v.documents ∧ documentApplies r d = true

instance (s : Store) (chain : List Uuid) (r : Request) (d : Document) :
    Decidable (InForce s chain r d) :=
  inferInstanceAs (Decidable (∃ a ∈ s.assignments, a.enforce = true ∧ (applies chain a).isSome ∧
    ∃ v ∈ activeOf s.versions a.bundleId, d ∈ v.documents ∧ documentApplies r d = true))

/-- The states that the committed changes run through. -/
structure IsHistory (σ : ℕ → Store) (change : ℕ → Option Change) : Prop where
  keyed : Table.Keyed (·.id) (σ 0).versions
  idle : ∀ t, change t = none → σ (t + 1) = σ t
  step : ∀ t c, change t = some c → (σ t).commit c = .ok (σ (t + 1))

/-- No activation follows a change that enforces between the two instants. -/
def Settled (change : ℕ → Option Change) (t₁ t₂ : ℕ) : Prop :=
  ∀ t t', t₁ ≤ t → t < t' → t' < t₂ → ∀ c ∈ change t, c.enforces = true →
    ∀ c' ∈ change t', c'.activates = false

/-- An instant that splits the time: nothing enforces before it, and nothing activates after. -/
theorem Settled.exists_split {change : ℕ → Option Change} {t₁ t₂ : ℕ} (h : Settled change t₁ t₂)
    (ht : t₁ ≤ t₂) : ∃ t, t₁ ≤ t ∧ t ≤ t₂ ∧
      (∀ u, t₁ ≤ u → u < t → ∀ c ∈ change u, c.enforces = false) ∧
      ∀ u, t ≤ u → u < t₂ → ∀ c ∈ change u, c.activates = false := by
  by_cases hex : ∃ t, t₁ ≤ t ∧ t < t₂ ∧ ∃ c ∈ change t, c.enforces = true
  · -- the first change that enforces; it is no activation itself
    obtain ⟨ht₁, ht₂, c, hc, henforces⟩ := Nat.find_spec hex
    refine ⟨Nat.find hex, ht₁, ht₂.le, fun u hu hlt c' hc' => ?_, fun u hu hlt c' hc' => ?_⟩
    · by_contra hne
      exact Nat.find_min hex hlt ⟨hu, hlt.trans ht₂, c', hc', by simpa using hne⟩
    · rcases hu.eq_or_lt with rfl | hu
      · obtain rfl := Option.mem_unique hc hc'
        cases c <;> simp_all [Change.enforces, Change.activates]
      · exact h _ _ ht₁ hu hlt c hc henforces c' hc'
  · refine ⟨t₂, ht, le_rfl, fun u hu hlt c hc => ?_, fun u hu hlt => by omega⟩
    by_contra hne
    exact hex ⟨u, hu, hlt, c, hc, by simpa using hne⟩

/-- What earlier decisions leave in the cache: versions that were active, as they were read. -/
def LeftBy (σ : ℕ → Store) (t : ℕ) (cache : CompileCache) : Prop :=
  ∀ id documents, cache id = some documents → ∃ t' ≤ t, IsPublished (σ t').versions id documents

section History

variable {σ : ℕ → Store} {change : ℕ → Option Change} (h : IsHistory σ change)

include h

theorem IsHistory.commit (t : ℕ) {c : Change} (hc : change t = some c) :
    commitVersions c (σ t).versions = .ok (σ (t + 1)).versions ∧
      commitAssignments c (σ t).assignments = .ok (σ (t + 1)).assignments := by
  have hstep := h.step t c hc
  simp only [Store.commit, ok_iffs] at hstep
  obtain ⟨versions, hversions, assignments, hassignments, heq⟩ := hstep
  rw [← heq]
  exact ⟨hversions, hassignments⟩

theorem IsHistory.keyed_at (t : ℕ) : Table.Keyed (·.id) (σ t).versions := by
  induction t with
  | zero => exact h.keyed
  | succ t ih =>
    cases hc : change t with
    | none => rwa [h.idle t hc]
    | some c => exact keyed_commitVersions ih (h.commit t hc).1

theorem IsHistory.published (ht : t ≤ t') {documents : List Document}
    (hv : IsPublished (σ t).versions id documents) : IsPublished (σ t').versions id documents := by
  induction ht with
  | refl => exact hv
  | @step t' _ ih =>
    cases hc : change t' with
    | none => rwa [h.idle t' hc]
    | some c => exact ih.commitVersions (h.commit t' hc).1

theorem IsHistory.published_unique (hv : IsPublished (σ t).versions id D)
    (hv' : IsPublished (σ t').versions id D') : D = D' := by
  obtain ⟨v, hlookup, -, rfl⟩ := h.published (le_max_left t t') hv
  obtain ⟨v', hlookup', -, rfl⟩ := h.published (le_max_right t t') hv'
  rw [Option.some.inj (hlookup.symm.trans hlookup')]

/-- An assignment enforced now was there at every instant since the last that enforced one. -/
theorem IsHistory.mem_of_settled {t₁ t₂ : ℕ} (ht : t₁ ≤ t₂)
    (hsettled : ∀ t, t₁ ≤ t → t < t₂ → ∀ c ∈ change t, c.enforces = false)
    (ha : a ∈ (σ t₂).assignments) (henforce : a.enforce = true) : a ∈ (σ t₁).assignments := by
  induction ht with
  | refl => exact ha
  | @step t ht ih =>
    refine ih (fun t' h₁ h₂ => hsettled t' h₁ (h₂.trans (Nat.lt_succ_self _))) ?_
    cases hc : change t with
    | none => rwa [h.idle t hc] at ha
    | some c =>
      exact mem_of_commitAssignments (h.commit t hc).2 (hsettled t ht (Nat.lt_succ_self _) c hc) ha
        henforce

theorem IsHistory.activeOf_eq {t₁ t₂ : ℕ} (ht : t₁ ≤ t₂)
    (hquiet : ∀ t, t₁ ≤ t → t < t₂ → ∀ c ∈ change t, c.activates = false) (bundleId : Uuid) :
    activeOf (σ t₂).versions bundleId = activeOf (σ t₁).versions bundleId := by
  induction ht with
  | refl => rfl
  | @step t ht ih =>
    rw [← ih fun t' h₁ h₂ => hquiet t' h₁ (h₂.trans (Nat.lt_succ_self _))]
    cases hc : change t with
    | none => rw [h.idle t hc]
    | some c =>
      exact activeOf_commitVersions (h.keyed_at t) (h.commit t hc).1
        (hquiet t ht (Nat.lt_succ_self _) c hc) bundleId

/-- What a decision evaluates for a version that was active is the content of that version. -/
theorem IsHistory.versionContent_eq {r : Request} {cache later : CompileCache} {t₀ t₁ : ℕ}
    (ht : t ≤ t') (hcache : LeftBy σ t₀ cache) (hlater : LeftBy σ t₁ later)
    (hv : IsPublished (σ t).versions id D)
    (hcontent : versionContent r cache later (σ t') id = .ok D') : D' = D := by
  unfold versionContent at hcontent
  split at hcontent
  · next hit heq =>
    cases hcontent
    rcases Option.or_eq_some_iff.1 heq with hhit | ⟨-, hhit⟩
    · obtain ⟨u, -, hu⟩ := hcache id _ hhit
      exact h.published_unique hu hv
    · obtain ⟨u, -, hu⟩ := hlater id _ hhit
      exact h.published_unique hu hv
  · obtain ⟨v, hlookup, -, rfl⟩ := h.published ht hv
    simp only [compileContent, hlookup, ok_iffs] at hcontent
    obtain ⟨-, -, heq⟩ := hcontent
    exact heq.symm

end History

section Permit

variable {r : Request} {chain : List Uuid} {cache later : CompileCache}

/-- Without a denial recorded, no enforced document that was evaluated denies. -/
theorem denies_of_evaluated {documents : List (PolicyReference × Document × Bool)}
    (h : documents.foldlM (evaluateDocument r) ([], []) = .ok found) (hnone : found.1 = []) :
    ∀ x ∈ documents, x.2.2 = true → r.denies x.2.1 = .ok false := by
  refine foldlM_induction (P := fun seen found => found.1 = [] →
    ∀ x ∈ seen, x.2.2 = true → r.denies x.2.1 = .ok false) (fun _ => by simp) ?_ h hnone
  intro seen found x found' ih hstep hnone' y hy henforce
  simp only [evaluateDocument, ok_iffs] at hstep
  obtain ⟨denied, hdenied, rfl⟩ := hstep
  split at hnone'
  · next hfalse =>
    rcases mem_append.1 hy with hy | hy
    · exact ih hnone' y hy henforce
    · rwa [mem_singleton.1 hy, ← hfalse]
  · split at hnone'
    · simp at hnone'
    · next hshadow =>
      rcases mem_append.1 hy with hy | hy
      · exact ih hnone' y hy henforce
      · cases hshadow (mem_singleton.1 hy ▸ henforce)

theorem finish_eq_permit (h : finish found = .permit shadow) : found.1 = [] := by
  simp only [finish] at h
  split at h
  · next hnil => exact (take_eq_nil_iff.1 hnil).resolve_left (by simp [maxEngineFindings])
  · cases h

theorem mem_of_applies (h : (applies chain a).isSome) :
    a.tenantId ∈ chain ∧ a.ownerTenantId ∈ chain := by
  obtain ⟨rank, hrank⟩ := Option.isSome_iff_exists.1 h
  simp only [applies, Option.bind_eq_bind, Option.bind_eq_some_iff] at hrank
  obtain ⟨target, htarget, owner, howner, -⟩ := hrank
  exact ⟨isSome_idxOf?.1 (htarget ▸ rfl), isSome_idxOf?.1 (howner ▸ rfl)⟩

/-- A permit saw every document of the active versions of the enforced assignments that it read. -/
theorem denies_of_permit {s₁ s₂ s₃ : Store}
    (h : decide r chain cache later s₁ s₂ s₃ = .ok (.permit shadow)) (ha : a ∈ s₁.assignments)
    (henforce : a.enforce = true) (happlies : (applies chain a).isSome) {v : BundleVersion}
    (hactive : activeOf s₂.versions a.bundleId = some v) :
    ∃ D, versionContent r cache later s₃ v.id = .ok D ∧
      ∀ d ∈ D, documentApplies r d = true → r.denies d = .ok false := by
  simp only [decide, ok_iffs] at h
  obtain ⟨documents, hdocuments, found, hfound, hfinish⟩ := h
  have hbinding : (⟨a, v.id⟩ : ActiveBinding) ∈
      applyingInOrder chain (loadForTenants s₁ s₂ chain) := by
    obtain ⟨rank, hrank⟩ := Option.isSome_iff_exists.1 happlies
    refine mem_map.2 ⟨(rank, ⟨a, v.id⟩), List.mem_sortByKey.2 (mem_filterMap.2
      ⟨⟨a, v.id⟩, mem_filterMap.2 ⟨a, mem_filter.2 ⟨ha, ?_⟩, ?_⟩, ?_⟩), rfl⟩
    · exact decide_eq_true (mem_of_applies happlies)
    · rw [hactive, Option.map_some]
    · rw [hrank, Option.map_some]
  obtain ⟨found', hmem, happlicable⟩ :=
    (mapM_eq_ok_iff.1 hdocuments).exists_of_mem_left hbinding
  simp only [applicable, ok_iffs] at happlicable
  obtain ⟨D, hD, rfl⟩ := happlicable
  refine ⟨D, hD, fun d hd hmatch => ?_⟩
  exact denies_of_evaluated hfound (finish_eq_permit hfinish) _ (mem_flatten.2 ⟨_, hmem,
    mem_map_of_mem (mem_filter.2 ⟨hd, hmatch⟩)⟩) henforce

/-- **A permit was right.**  When no activation follows a change that puts an assignment under
enforcement between the read of the assignments and the read of the active versions, there is an
instant at which no document in force denies. -/
theorem permit_right_of_settled {σ : ℕ → Store} {change : ℕ → Option Change}
    (h : IsHistory σ change) {t₁ t₂ t₃ : ℕ} (h₁₂ : t₁ ≤ t₂) (h₂₃ : t₂ ≤ t₃)
    (hcache : LeftBy σ t₂ cache) (hlater : LeftBy σ t₃ later)
    (hsettled : Settled change t₁ t₂) {shadow : List PolicyReference}
    (hpermit : decide r chain cache later (σ t₁) (σ t₂) (σ t₃) = .ok (.permit shadow)) :
    ∃ t, t₁ ≤ t ∧ t ≤ t₃ ∧ ∀ d, InForce (σ t) chain r d → r.denies d = .ok false := by
  obtain ⟨t, ht₁, ht₂, henforces, hactivates⟩ := hsettled.exists_split h₁₂
  refine ⟨t, ht₁, ht₂.trans h₂₃, ?_⟩
  rintro d ⟨a, ha, henforce, happlies, v, hactive, hd, hmatch⟩
  -- the decision read the assignment before the instant, and the version after it
  rw [← h.activeOf_eq ht₂ hactivates] at hactive
  obtain ⟨D, hD, hdenies⟩ := denies_of_permit hpermit
    (h.mem_of_settled ht₁ henforces ha henforce) henforce happlies hactive
  have hstate := find?_some hactive
  have hpublished : IsPublished (σ t₂).versions v.id v.documents := by
    refine ⟨v, (h.keyed_at t₂).lookup_of_mem (mem_of_find?_eq_some hactive), ?_, rfl⟩
    rw [(of_decide_eq_true hstate).2]
    simp
  rw [h.versionContent_eq h₂₃ hcache hlater hpublished hD] at hdenies
  exact hdenies d hd hmatch

/-! ### Two changes between the reads -/

/-- A document that applies to every request, denying the requests that its content names. -/
def sampleDocument (id : Uuid) (content : String) : Document := ⟨id, "rule", ["*"], [], content⟩

/-- A version with one document. -/
def sampleVersion (id bundleId : Uuid) (state : VersionState) (content : String) : BundleVersion :=
  ⟨id, bundleId, state, [sampleDocument id content]⟩

/-- Bundle 1 denies reads and is assigned, with a draft that permits them; bundle 2 denies them. -/
def samplePolicy : Store where
  versions := [sampleVersion 11 1 .active "read", sampleVersion 12 1 .draft "",
    sampleVersion 23 2 .active "read"]
  assignments := [⟨1, 1, 7, 7, true⟩]

/-- Assign the other bundle, activate the draft, and assign the bundle to another tenant. -/
def sampleChange : ℕ → Option Change
  | 0 => some (.insertAssignment ⟨2, 2, 7, 7, true⟩)
  | 1 => some (.activate 12)
  | 2 => some (.insertAssignment ⟨3, 2, 8, 8, true⟩)
  | _ => none

/-- The states of the changes. -/
def sampleStates (t : ℕ) : Store where
  versions := if t < 2 then samplePolicy.versions else
    [sampleVersion 11 1 .superseded "read", sampleVersion 12 1 .active "",
      sampleVersion 23 2 .active "read"]
  assignments := [⟨1, 1, 7, 7, true⟩, ⟨2, 2, 7, 7, true⟩, ⟨3, 2, 8, 8, true⟩].take
    (if t = 0 then 1 else if t < 3 then 2 else 3)

/-- A request, and documents that deny what their content names. -/
def sampleRequest (action : String) : Request where
  action := action
  matchesType := fun _ => true
  compiles := fun _ => true
  denies := fun d => .ok (d.content = action)

theorem isHistory_sampleStates : IsHistory sampleStates sampleChange := by
  refine ⟨by unfold Table.Keyed; decide, fun t h => ?_, fun t c h => ?_⟩
  · rcases t with _ | _ | _ | t
    · cases h
    · cases h
    · cases h
    · rfl
  · rcases t with _ | _ | _ | t <;> cases h <;> decide

/-- **A permit that no instant allows.**  Every state of the history denies the request. -/
theorem permit_never_right : IsHistory sampleStates sampleChange ∧
    decide (sampleRequest "read") [7] (fun _ => none) (fun _ => none) (sampleStates 0)
      (sampleStates 2) (sampleStates 2) = .ok (.permit []) ∧
    ∀ t, ∃ d, InForce (sampleStates t) [7] (sampleRequest "read") d ∧
      (sampleRequest "read").denies d = .ok true := by
  refine ⟨isHistory_sampleStates, by decide, fun t => ?_⟩
  rcases t with _ | _ | _ | t
  · exact ⟨sampleDocument 11 "read", by decide, rfl⟩
  · exact ⟨sampleDocument 11 "read", by decide, rfl⟩
  · exact ⟨sampleDocument 23 "read", by decide, rfl⟩
  · change ∃ d, InForce (sampleStates 3) [7] (sampleRequest "read") d ∧ _
    exact ⟨sampleDocument 23 "read", by decide, rfl⟩

/-- An activation and then an assignment between the reads. -/
theorem permit_right_of_settled_sample : ∃ t, 1 ≤ t ∧ t ≤ 3 ∧ ∀ d,
    InForce (sampleStates t) [7] (sampleRequest "list") d →
      (sampleRequest "list").denies d = .ok false := by
  have hpermit : decide (sampleRequest "list") [7] (fun _ => none) (fun _ => none) (sampleStates 1)
      (sampleStates 3) (sampleStates 3) = .ok (.permit []) := by decide
  refine permit_right_of_settled isHistory_sampleStates (by decide) le_rfl (fun _ _ h => by cases h)
    (fun _ _ h => by cases h) (fun t t' h₁ h₂ h₃ => ?_) hpermit
  obtain ⟨rfl, rfl⟩ : t = 1 ∧ t' = 2 := by omega
  decide

end Permit

end Gears.Policy
