import Gears.Lib.Uuid
import Gears.Lib.Date
import Gears.Lib.Keyed
import Gears.Lib.Except
import Mathlib.Data.String.Basic
import Mathlib.Data.Prod.Lex

/-!
# Approval units

A unit is a reviewed change: its items with the content proposed for each, its state and quorum,
and the votes cast on its current generation.

* `Json`, `Json.canonical` : proposed content and its canonical form.
* `snapshotHash` : the fingerprint of what the reviewers approve.
* `ApprovalUnit`, `Decision` : the stored rows.
* `approveEligibility`, `evaluateApprove` : the quorum and separation-of-duties rules.
-/

namespace Gears.Approval

/-! ### Content and fingerprints -/

/-- A JSON value; a number is its text. -/
inductive Json
  | null
  | bool (value : Bool)
  | number (text : String)
  | string (text : String)
  | array (items : List Json)
  | object (fields : List (String × Json))
  deriving Repr

mutual

/-- The value with the keys of every object sorted. -/
def Json.canonical : Json → Json
  | .array items => .array (canonicalItems items)
  | .object fields => .object ((canonicalFields fields).sortByKey Prod.fst)
  | other => other

/-- The canonical elements of an array. -/
def canonicalItems : List Json → List Json
  | [] => []
  | item :: items => item.canonical :: canonicalItems items

/-- The canonical values of an object's fields. -/
def canonicalFields : List (String × Json) → List (String × Json)
  | [] => []
  | (key, value) :: fields => (key, value.canonical) :: canonicalFields fields

end

/-- One element of a unit with the diff the reviewer sees. -/
structure ItemRef where
  itemType : String
  itemId : Uuid
  /-- Who authored the element. -/
  createdBy : Uuid
  before : Option Json
  /-- The proposed business content only. -/
  after : Json
  deriving Repr

/-- What the fingerprint is taken of: the common date and the proposed content of every item, by
type and id. -/
structure Canonical where
  commonEffectiveDate : Option Date
  items : List (String × Uuid × Json)

/-- The canonical content of a unit. -/
def canonicalContent (items : List ItemRef) (commonEffectiveDate : Option Date) : Canonical where
  commonEffectiveDate := commonEffectiveDate
  items := (items.sortByKey fun i => toLex (i.itemType, i.itemId.toNat)).map fun i =>
    (i.itemType, i.itemId, i.after.canonical)

/-- The fingerprint; `digest` is the digest of the canonical text. -/
def snapshotHash {δ : Type} (digest : Canonical → δ) (items : List ItemRef)
    (commonEffectiveDate : Option Date) : δ :=
  digest (canonicalContent items commonEffectiveDate)

/-- The state of a unit; all but `pending` are terminal. -/
inductive UnitState
  | pending
  | approved
  | rejected
  | withdrawn
  deriving DecidableEq, Repr

/-- A reviewer's vote. -/
inductive Verdict
  | approve
  | reject
  deriving DecidableEq, Repr

/-- Quorum policy of a tenant: a default, and overrides by kind. -/
structure Policy where
  defaultQuorum : ℕ
  overrides : List (String × ℕ)

/-- The override of the kind, else the default. -/
def Policy.quorumFor (policy : Policy) (kind : String) : ℕ :=
  (policy.overrides.lookup kind).getD policy.defaultQuorum

/-- Nanoseconds since the Unix epoch. -/
abbrev Timestamp := ℤ

/-- One approval unit. -/
structure ApprovalUnit (δ : Type) where
  id : Uuid
  tenantId : Uuid
  kind : String
  refType : String
  refId : Uuid
  state : UnitState
  commonEffectiveDate : Option Date
  quorumRequired : ℕ
  /-- Bumped on every refresh; votes belong to a generation. -/
  generation : ℤ
  submittedBy : Uuid
  submittedAt : Timestamp
  submitNote : Option String
  decidedAt : Option Timestamp
  decidedNote : Option String
  snapshot : Json
  snapshotHash : δ
  /-- Every write is conditional on this value. -/
  version : ℤ

/-- One reviewer's vote on a unit in one generation. -/
structure Decision where
  actor : Uuid
  generation : ℤ
  verdict : Verdict
  note : Option String
  time : Timestamp
  stale : Bool
  deriving DecidableEq, Repr

/-! ### Quorum and separation of duties -/

section Rules

variable {δ : Type} (unit : ApprovalUnit δ) (decisions : List Decision) (actor : Uuid)

/-- The actor already voted in the unit's current generation. -/
def AlreadyVoted : Prop :=
  ∃ d ∈ decisions, d.actor = actor ∧ d.generation = unit.generation

instance : Decidable (AlreadyVoted unit decisions actor) :=
  inferInstanceAs (Decidable (∃ _ ∈ _, _))

/-- The votes the quorum counts: approvals of the current generation that are not stale. -/
def countedVotes : List Decision :=
  decisions.filter fun d => d.verdict = .approve ∧ d.stale = false ∧ d.generation = unit.generation

/-- Their number, in 32 bits. -/
def countedApprovals : ℕ := min (countedVotes unit decisions).length (2 ^ 32 - 1)

/-- Why an actor may not approve a unit now. -/
inductive ApproveRefusal
  | alreadyDecided
  | sodViolation
  | duplicateVote
  deriving DecidableEq, Repr

/-- Whether one actor may approve a unit, and the votes the quorum counts. -/
structure ApproveEligibility where
  approvals : ℕ
  refusal : Option ApproveRefusal
  deriving DecidableEq, Repr

/-- The approve eligibility of an actor, from the unit, the authors of its stored items and its
decisions of every generation. -/
def approveEligibility (authors : List Uuid) : ApproveEligibility where
  approvals := countedApprovals unit decisions
  refusal :=
    if unit.state ≠ .pending then some .alreadyDecided
    else if actor = unit.submittedBy ∨ actor ∈ authors then some .sodViolation
    else if AlreadyVoted unit decisions actor then some .duplicateVote
    else none

/-- What an eligible approve vote does. -/
inductive ApproveStep
  | needMore (have_ need : ℕ)
  | apply
  deriving DecidableEq, Repr

/-- What an approve vote does, given the votes cast so far. -/
def evaluateApprove (items : List ItemRef) : Except ApproveRefusal ApproveStep := do
  let judged := approveEligibility unit decisions actor (items.map (·.createdBy))
  Except.refuse judged.refusal
  let have_ := min (judged.approvals + 1) (2 ^ 32 - 1)
  pure (if unit.quorumRequired ≤ have_ then .apply else .needMore have_ unit.quorumRequired)

end Rules

end Gears.Approval
