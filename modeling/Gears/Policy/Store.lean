import Gears.Lib.Table
import Gears.Lib.Except
import Gears.Lib.Uuid
import Mathlib

/-!
# Policy content and its assignments

Versions of policy bundles with their documents, and the assignments of bundles to tenants.  Each
write is one transaction: a draft can be rewritten and deleted, an activation makes it the one
active version of its bundle, and from then on its documents stay.

* `Change`, `Store.commit` : the committed changes.
* `IsPublished.commitVersions` : the documents of a version that was active stay.
-/

namespace Gears.Policy

open Except Table

/-- Where a version stands. -/
inductive VersionState
  | draft
  | active
  | superseded
  deriving DecidableEq, Repr

/-- One policy document. -/
structure Document where
  id : Uuid
  name : String
  resourceTypes : List String
  actions : List String
  content : String
  deriving DecidableEq, Repr

/-- A version of a bundle with its documents, by name. -/
structure BundleVersion where
  id : Uuid
  bundleId : Uuid
  state : VersionState
  documents : List Document
  deriving DecidableEq, Repr

/-- A bundle that an owner assigns to a tenant. -/
structure Assignment where
  id : Uuid
  bundleId : Uuid
  tenantId : Uuid
  ownerTenantId : Uuid
  enforce : Bool
  deriving DecidableEq, Repr

/-- The errors of a transaction. -/
inductive RepoError
  | notFound
  | conflict (code : String)
  deriving DecidableEq, Repr

/-- One committed transaction of the management service. -/
inductive Change
  | insertDraft (version : BundleVersion)
  | replaceDraftContent (id : Uuid) (documents : List Document)
  | deleteDraft (id : Uuid)
  | activate (id : Uuid)
  | insertAssignment (assignment : Assignment)
  | setEnforce (id : Uuid) (enforce : Bool)
  | deleteAssignment (id : Uuid)
  deriving DecidableEq, Repr

variable {change : Change} {documents : List Document}

/-! ### Versions -/

section Versions

variable {versions versions' : List BundleVersion} {id : Uuid} {v : BundleVersion}

/-- The version row, required to be a draft. -/
def draftRow (versions : List BundleVersion) (id : Uuid) : Except RepoError BundleVersion := do
  let row ← okOr (lookup (·.id) versions id) .notFound
  rejectIf (row.state ≠ .draft) (.conflict "VERSION_NOT_DRAFT")
  pure row

/-- The active version of a bundle. -/
def activeOf (versions : List BundleVersion) (bundleId : Uuid) : Option BundleVersion :=
  versions.find? fun v => v.bundleId = bundleId ∧ v.state = .active

/-- A new draft; a bundle has one at most. -/
def insertDraft (version : BundleVersion) (versions : List BundleVersion) :
    Except RepoError (List BundleVersion) := do
  rejectIf (version.state ≠ .draft) (.conflict "VERSION_NOT_DRAFT")
  rejectIf (∃ v ∈ versions, v.bundleId = version.bundleId ∧ v.state = .draft)
    (.conflict "DRAFT_EXISTS")
  okOr (insert (·.id) version versions) (.conflict "DRAFT_EXISTS")

/-- Rewrite the documents of a draft. -/
def replaceDraftContent (id : Uuid) (documents : List Document) (versions : List BundleVersion) :
    Except RepoError (List BundleVersion) := do
  let _ ← draftRow versions id
  pure (updateWhere (·.id = id) ({ · with documents }) versions)

/-- Delete a draft. -/
def deleteDraft (id : Uuid) (versions : List BundleVersion) :
    Except RepoError (List BundleVersion) := do
  let _ ← draftRow versions id
  pure (deleteWhere (·.id = id) versions)

/-- Supersede the active version of the bundle, if there is one. -/
def supersede (bundleId : Uuid) (versions : List BundleVersion) : List BundleVersion :=
  match activeOf versions bundleId with
  | some previous =>
      updateWhere (·.id = previous.id) ({ · with state := .superseded }) versions
  | none => versions

/-- Make a draft the active version of its bundle. -/
def activate (id : Uuid) (versions : List BundleVersion) :
    Except RepoError (List BundleVersion) := do
  let row ← draftRow versions id
  let versions := supersede row.bundleId versions
  -- the partial unique index on the active version of a bundle
  rejectIf (∃ v ∈ versions, v.bundleId = row.bundleId ∧ v.state = .active)
    (.conflict "CONCURRENT_ACTIVATION")
  pure (updateWhere (·.id = id) ({ · with state := .active }) versions)

/-- What a change does to the versions. -/
def commitVersions (change : Change) (versions : List BundleVersion) :
    Except RepoError (List BundleVersion) :=
  match change with
  | .insertDraft version => insertDraft version versions
  | .replaceDraftContent id documents => replaceDraftContent id documents versions
  | .deleteDraft id => deleteDraft id versions
  | .activate id => activate id versions
  | _ => .ok versions

theorem draftRow_eq_ok_iff : draftRow versions id = .ok v ↔
    lookup (·.id) versions id = some v ∧ v.state = .draft := by
  simp only [draftRow, ok_iffs, not_not, exists_const]
  constructor
  · rintro ⟨row, hrow, hstate, rfl⟩
    exact ⟨hrow, hstate⟩
  · rintro ⟨hrow, hstate⟩
    exact ⟨v, hrow, hstate, rfl⟩

theorem keyed_supersede (h : Keyed (·.id) versions) (bundleId : Uuid) :
    Keyed (·.id) (supersede bundleId versions) := by
  unfold supersede
  split
  · exact h.updateWhere fun _ => rfl
  · exact h

theorem keyed_commitVersions (hkeyed : Keyed (·.id) versions)
    (h : commitVersions change versions = .ok versions') : Keyed (·.id) versions' := by
  cases change with
  | insertDraft row =>
    simp only [commitVersions, insertDraft, ok_iffs, insert_eq_some_iff] at h
    obtain ⟨-, -, -, -, hfree, rfl⟩ := h
    exact hkeyed.append_singleton hfree
  | replaceDraftContent id documents =>
    simp only [commitVersions, replaceDraftContent, ok_iffs] at h
    obtain ⟨_, -, rfl⟩ := h
    exact hkeyed.updateWhere fun _ => rfl
  | deleteDraft id =>
    simp only [commitVersions, deleteDraft, ok_iffs] at h
    obtain ⟨_, -, rfl⟩ := h
    exact hkeyed.deleteWhere
  | activate id =>
    simp only [commitVersions, activate, ok_iffs] at h
    obtain ⟨row, -, -, -, rfl⟩ := h
    exact (keyed_supersede hkeyed _).updateWhere fun _ => rfl
  | insertAssignment _ | setEnforce _ _ | deleteAssignment _ =>
    cases h
    exact hkeyed

/-- A version that was active, with the documents it has. -/
def IsPublished (versions : List BundleVersion) (id : Uuid) (documents : List Document) : Prop :=
  ∃ v, lookup (·.id) versions id = some v ∧ v.state ≠ .draft ∧ v.documents = documents

theorem IsPublished.updateWhere {id₀ : Uuid} {f : BundleVersion → BundleVersion}
    (h : IsPublished versions id documents) (hid : ∀ v, (f v).id = v.id)
    (hf : ∀ v, lookup (·.id) versions id₀ = some v → v.state ≠ .draft →
      (f v).state ≠ .draft ∧ (f v).documents = v.documents) :
    IsPublished (updateWhere (·.id = id₀) f versions) id documents := by
  obtain ⟨v, hv, hstate, rfl⟩ := h
  rw [IsPublished, lookup_updateWhere_key hid, hv]
  split
  · next heq =>
    obtain ⟨hstate', hdocuments⟩ := hf v (heq ▸ hv) hstate
    exact ⟨f v, rfl, hstate', hdocuments⟩
  · exact ⟨v, rfl, hstate, rfl⟩

/-- **Published content stays.**  No change touches the documents of a version that was active. -/
theorem IsPublished.commitVersions (hv : IsPublished versions id documents)
    (h : commitVersions change versions = .ok versions') : IsPublished versions' id documents := by
  cases change with
  | insertDraft row =>
    simp only [commitVersions, insertDraft, ok_iffs, insert_eq_some_iff] at h
    obtain ⟨-, -, -, -, hfree, rfl⟩ := h
    obtain ⟨v, hlookup, hv⟩ := hv
    refine ⟨v, ?_, hv⟩
    rw [lookup_append_singleton hfree, if_neg, hlookup]
    rintro rfl
    cases hfree.symm.trans hlookup
  | replaceDraftContent id₀ documents =>
    simp only [commitVersions, replaceDraftContent, ok_iffs, draftRow_eq_ok_iff] at h
    obtain ⟨row, ⟨hrow, hdraft⟩, rfl⟩ := h
    refine hv.updateWhere (fun _ => rfl) fun v hlookup hne => absurd ?_ hne
    rwa [Option.some.inj (hlookup.symm.trans hrow)]
  | deleteDraft id₀ =>
    simp only [commitVersions, deleteDraft, ok_iffs, draftRow_eq_ok_iff] at h
    obtain ⟨row, ⟨hrow, hdraft⟩, rfl⟩ := h
    obtain ⟨v, hlookup, hne, hdocuments⟩ := hv
    refine ⟨v, ?_, hne, hdocuments⟩
    rw [lookup_deleteWhere_key, if_neg, hlookup]
    rintro rfl
    exact hne (Option.some.inj (hlookup.symm.trans hrow) ▸ hdraft)
  | activate id₀ =>
    simp only [commitVersions, activate, ok_iffs] at h
    obtain ⟨row, -, -, -, rfl⟩ := h
    refine IsPublished.updateWhere ?_ (fun _ => rfl) fun v _ _ => ⟨by simp, rfl⟩
    unfold supersede
    split
    · exact hv.updateWhere (fun _ => rfl) fun v _ _ => ⟨by simp, rfl⟩
    · exact hv
  | insertAssignment _ | setEnforce _ _ | deleteAssignment _ =>
    cases h
    exact hv

/-- The change activates a version. -/
def Change.activates : Change → Bool
  | .activate _ => true
  | _ => false

theorem activeOf_commitVersions (hkeyed : Keyed (·.id) versions)
    (h : commitVersions change versions = .ok versions') (hnot : change.activates = false)
    (bundleId : Uuid) : activeOf versions' bundleId = activeOf versions bundleId := by
  -- what a change of a draft selects is not active
  have hdraft {id₀ : Uuid} {row v : BundleVersion}
      (hrow : lookup (·.id) versions id₀ = some row ∧ row.state = .draft) (hv : v ∈ versions)
      (heq : v.id = id₀) : v.state ≠ .active := by
    have hlookup := hkeyed.lookup_of_mem hv
    rw [heq, hrow.1] at hlookup
    rw [← Option.some.inj hlookup, hrow.2]
    simp
  cases change with
  | insertDraft row =>
    simp only [commitVersions, insertDraft, ok_iffs, insert_eq_some_iff, not_not] at h
    obtain ⟨-, hstate, -, -, -, rfl⟩ := h
    simp [activeOf, List.find?_append, hstate]
  | replaceDraftContent id₀ documents =>
    simp only [commitVersions, replaceDraftContent, ok_iffs, draftRow_eq_ok_iff] at h
    obtain ⟨row, hrow, rfl⟩ := h
    refine find?_updateWhere fun v hv heq => ?_
    simp [hdraft hrow hv (of_decide_eq_true heq)]
  | deleteDraft id₀ =>
    simp only [commitVersions, deleteDraft, ok_iffs, draftRow_eq_ok_iff] at h
    obtain ⟨row, hrow, rfl⟩ := h
    rw [activeOf, deleteWhere, List.find?_filter]
    refine List.find?_congr fun v hv => ?_
    by_cases heq : v.id = id₀
    · simp [heq, hdraft hrow hv heq]
    · simp [heq]
  | activate _ => cases hnot
  | insertAssignment _ | setEnforce _ _ | deleteAssignment _ =>
    cases h
    rfl

end Versions

/-- What a change does to the assignments. -/
def commitAssignments (change : Change) (assignments : List Assignment) :
    Except RepoError (List Assignment) :=
  match change with
  | .insertAssignment new => do
    rejectIf (∃ a ∈ assignments, a.bundleId = new.bundleId ∧ a.tenantId = new.tenantId)
      (.conflict "ASSIGNMENT_EXISTS")
    okOr (insert (·.id) new assignments) (.conflict "ASSIGNMENT_EXISTS")
  | .setEnforce id enforce => do
    let _ ← okOr (lookup (·.id) assignments id) RepoError.notFound
    pure (updateWhere (·.id = id) ({ · with enforce }) assignments)
  | .deleteAssignment id => do
    let _ ← okOr (lookup (·.id) assignments id) RepoError.notFound
    pure (deleteWhere (·.id = id) assignments)
  | _ => .ok assignments

/-- The committed state. -/
structure Store where
  versions : List BundleVersion
  assignments : List Assignment
  deriving DecidableEq, Repr

/-- One transaction. -/
def Store.commit (s : Store) (change : Change) : Except RepoError Store := do
  let versions ← commitVersions change s.versions
  let assignments ← commitAssignments change s.assignments
  pure ⟨versions, assignments⟩

/-- The change puts an assignment under enforcement. -/
def Change.enforces : Change → Bool
  | .insertAssignment new => new.enforce
  | .setEnforce _ enforce => enforce
  | _ => false

theorem mem_of_commitAssignments {assignments assignments' : List Assignment}
    (h : commitAssignments change assignments = .ok assignments') (hnot : change.enforces = false)
    {a : Assignment} (ha : a ∈ assignments') (henforce : a.enforce = true) : a ∈ assignments := by
  cases change with
  | insertAssignment new =>
    simp only [commitAssignments, ok_iffs, insert_eq_some_iff] at h
    obtain ⟨-, -, -, rfl⟩ := h
    rcases List.mem_append.1 ha with ha | ha
    · exact ha
    · cases List.mem_singleton.1 ha
      cases hnot.symm.trans henforce
  | setEnforce id enforce =>
    simp only [commitAssignments, ok_iffs] at h
    obtain ⟨_, -, rfl⟩ := h
    obtain ⟨b, hb, rfl⟩ := mem_updateWhere.1 ha
    split at henforce
    · cases hnot.symm.trans henforce
    · next hne =>
      rw [if_neg hne]
      exact hb
  | deleteAssignment id =>
    simp only [commitAssignments, ok_iffs] at h
    obtain ⟨_, -, rfl⟩ := h
    exact (mem_deleteWhere.1 ha).1
  | insertDraft _ | replaceDraftContent _ _ | deleteDraft _ | activate _ =>
    cases h
    exact ha

end Gears.Policy
