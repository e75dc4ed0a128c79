import Gears.Approval.Model
import Gears.Lib.Text
import Gears.Lib.Machine

/-!
# The approval engine

Submit, approve, reject and withdraw over the stored units and the content of a subject.  Every
call is one transaction: a refused call leaves everything as it was.

* `Subject` : what a gear implements for one kind of change.
* `Desk` : the content, the stored units, and a journal of the votes, refreshes and applications
  (the engine never reads the journal).
* `Desk.submit`, `Desk.approve`, `Desk.reject`, `Desk.withdraw` : the calls.
* `Desk.step` : one call, or an edit of the content.
-/

namespace Gears.Approval

open Except

/-! ### Subjects, stores and errors -/

/-- A kind of reviewed change over content `κ`, with its own refusals `ε`. -/
structure Subject (κ δ ε : Type) where
  kind : String
  refType : String
  /-- The items with the content proposed now. -/
  collect : κ → List Uuid → Except ε (List ItemRef)
  validateSubmit : κ → List ItemRef → Except ε Unit
  lock : κ → Uuid → List ItemRef → Except ε κ
  snapshot : List ItemRef → Option Date → Json
  apply : κ → ApprovalUnit δ → List ItemRef → Except ε κ
  unlock : κ → ApprovalUnit δ → List ItemRef → Bool → Except ε κ

/-- Every refusal of the engine. -/
inductive ApprovalError (ε : Type)
  | refused (refusal : ApproveRefusal)
  | contended
  | notSubmitter
  | noteRequired
  | noteTooLong
  | unitNotFound (unitId : Uuid)
  | empty
  | generationMismatch (seen current : ℤ)
  | store (detail : String)
  | subject (error : ε)
  deriving DecidableEq, Repr

/-- A stored unit with its items and votes. -/
structure UnitRow (δ : Type) where
  unit : ApprovalUnit δ
  items : List ItemRef
  decisions : List Decision

/-- What happened to a unit, for the record. -/
inductive JournalEntry
  /-- A vote, with the content the engine read when it took it. -/
  | vote (unit actor : Uuid) (generation : ℤ) (verdict : Verdict) (content : List ItemRef)
  /-- The subject was applied with the stored items. -/
  | applied (unit : Uuid) (generation : ℤ) (items : List ItemRef)
  | refreshed (unit : Uuid)

/-- The content, the stored units and the journal. -/
structure Desk (κ δ : Type) where
  content : κ
  rows : Uuid → Option (UnitRow δ)
  journal : List JournalEntry

variable {κ δ ε : Type} [DecidableEq δ] (digest : Canonical → δ)

namespace Desk

/-- A desk without units. -/
def init (content : κ) : Desk κ δ := ⟨content, fun _ => none, []⟩

/-- Store a row under its unit's id. -/
def put (d : Desk κ δ) (row : UnitRow δ) : Desk κ δ :=
  { d with rows := Function.update d.rows row.unit.id (some row) }

/-- Note what happened. -/
def note (d : Desk κ δ) (entry : JournalEntry) : Desk κ δ :=
  { d with journal := d.journal ++ [entry] }

/-- Insert a unit with its items under a new id. -/
def insertUnit (d : Desk κ δ) (unit : ApprovalUnit δ) (items : List ItemRef) :
    Except (ApprovalError ε) (Desk κ δ) := do
  rejectIf (d.rows unit.id).isSome (.store "duplicate key")
  pure (d.put ⟨unit, items, []⟩)

/-- Add one to the version of a row, when it is still the expected one. -/
def bumpVersion (row : UnitRow δ) (expected : ℤ) : Option (UnitRow δ) :=
  if row.unit.version = expected then
    some { row with unit := { row.unit with version := row.unit.version + 1 } }
  else none

/-- The unit as of now, still pending, with its version bumped. -/
def loadPending (d : Desk κ δ) (unitId : Uuid) : Except (ApprovalError ε) (UnitRow δ) :=
  match d.rows unitId with
  | none => throw (.unitNotFound unitId)
  | some row =>
    if row.unit.state ≠ .pending then throw (.refused .alreadyDecided)
    else match bumpVersion row row.unit.version with
      | none => throw .contended
      | some bumped => pure bumped

end Desk

/-- The row with a vote. -/
def UnitRow.withDecision (row : UnitRow δ) (decision : Decision) : UnitRow δ :=
  { row with decisions := row.decisions ++ [decision] }

/-- Record a terminal state. -/
def UnitRow.withState (row : UnitRow δ) (state : UnitState) (decidedAt : Timestamp)
    (note : Option String) : UnitRow δ :=
  { row with unit := { row.unit with
      state := state, decidedAt := some decidedAt, decidedNote := note } }

/-- Rewrite items, snapshot and fingerprint at a generation; the votes of earlier generations are
stale. -/
def UnitRow.refresh (row : UnitRow δ) (items : List ItemRef) (snapshot : Json) (hash : δ)
    (generation : ℤ) : UnitRow δ where
  unit := { row.unit with snapshot := snapshot, snapshotHash := hash, generation := generation }
  items := items
  decisions := row.decisions.map fun d =>
    if d.generation < generation then { d with stale := true } else d

/-! ### The calls -/

/-- One submission. -/
structure SubmitRequest where
  unitId : Uuid
  tenantId : Uuid
  refId : Uuid
  itemIds : List Uuid
  actor : Uuid
  policy : Policy
  commonEffectiveDate : Option Date
  note : Option String
  now : Timestamp

/-- What an approval did. -/
inductive ApproveOutcome
  | pending (have_ need : ℕ)
  | applied
  | refreshed (generation : ℤ)
  deriving DecidableEq, Repr

/-- What a rejection did. -/
inductive RejectOutcome
  | rejected
  | refreshed (generation : ℤ)
  deriving DecidableEq, Repr

/-- The longest note of a vote, in characters. -/
def noteMaxChars : ℕ := 2000

/-- The largest generation. -/
def maxGeneration : ℤ := 2 ^ 31 - 1

/-- A vote's note is not too long. -/
def checkNoteLength (note : Option String) : Except (ApprovalError ε) Unit :=
  rejectIf (note.any fun n => noteMaxChars < n.length) .noteTooLong

/-- The vote names the unit's current generation. -/
def checkGeneration (unit : ApprovalUnit δ) (seen : ℤ) : Except (ApprovalError ε) Unit :=
  rejectIf (unit.generation ≠ seen) (.generationMismatch seen unit.generation)

/-- A unit as it is submitted. -/
def SubmitRequest.unit (req : SubmitRequest) (S : Subject κ δ ε) (items : List ItemRef) :
    ApprovalUnit δ where
  id := req.unitId
  tenantId := req.tenantId
  kind := S.kind
  refType := S.refType
  refId := req.refId
  state := .pending
  commonEffectiveDate := req.commonEffectiveDate
  quorumRequired := req.policy.quorumFor S.kind
  generation := 1
  submittedBy := req.actor
  submittedAt := req.now
  submitNote := req.note
  decidedAt := none
  decidedNote := none
  snapshot := S.snapshot items req.commonEffectiveDate
  snapshotHash := snapshotHash digest items req.commonEffectiveDate
  version := 1

namespace Desk

variable (d : Desk κ δ) (S : Subject κ δ ε)

/-- Apply the subject, turn its locks into an approval and record the state. -/
def applyUnit (row : UnitRow δ) (now : Timestamp) : Except (ApprovalError ε) (Desk κ δ) := do
  let content ← (S.apply d.content row.unit row.items).mapError .subject
  let content ← (S.unlock content row.unit row.items true).mapError .subject
  pure (({ d with content := content }.put (row.withState .approved now none)).note
    (.applied row.unit.id row.unit.generation row.items))

/-- Submit: validate, insert, lock, and with a quorum of zero apply at once. -/
def submit (req : SubmitRequest) : Except (ApprovalError ε) (Desk κ δ) := do
  rejectIf (req.itemIds = []) .empty
  let items ← (S.collect d.content req.itemIds).mapError .subject
  (S.validateSubmit d.content items).mapError .subject
  let unit := req.unit digest S items
  let d ← d.insertUnit unit items
  let content ← (S.lock d.content unit.id items).mapError .subject
  let d := { d with content := content }
  if unit.quorumRequired = 0 then d.applyUnit S ⟨unit, items, []⟩ req.now else pure d

/-- The content of the unit's items now, and the refreshed row when its fingerprint is not the
unit's any more. -/
def refreshIfStale (row : UnitRow δ) :
    Except (ApprovalError ε) (List ItemRef × Option (UnitRow δ)) := do
  let fresh ← (S.collect d.content (row.items.map (·.itemId))).mapError .subject
  let hash := snapshotHash digest fresh row.unit.commonEffectiveDate
  if hash = row.unit.snapshotHash then pure (fresh, none) else
    pure (fresh, some (row.refresh fresh (S.snapshot fresh row.unit.commonEffectiveDate) hash
      (min (row.unit.generation + 1) maxGeneration)))

/-- Record an approval of the content read, and apply the unit when it meets the quorum. -/
def castApproval (row : UnitRow δ) (content : List ItemRef)
    (step : ApproveStep) (actor : Uuid) (note : Option String) (now : Timestamp) :
    Except (ApprovalError ε) (ApproveOutcome × Desk κ δ) := do
  let voted := row.withDecision ⟨actor, row.unit.generation, .approve, note, now, false⟩
  let d := (d.put voted).note (.vote row.unit.id actor row.unit.generation .approve content)
  match step with
  | .needMore have_ need => pure (.pending have_ need, d)
  | .apply => pure (.applied, ← d.applyUnit S voted now)

/-- Approve a unit at the generation the reviewer saw. -/
def approve (unitId actor : Uuid) (seen : ℤ) (note : Option String) (now : Timestamp) :
    Except (ApprovalError ε) (ApproveOutcome × Desk κ δ) := do
  checkNoteLength note
  let row ← d.loadPending unitId
  checkGeneration row.unit seen
  let step ← (evaluateApprove row.unit row.decisions actor row.items).mapError .refused
  match ← d.refreshIfStale digest S row with
  | (_, some refreshed) =>
    pure (.refreshed refreshed.unit.generation, (d.put refreshed).note (.refreshed unitId))
  | (content, none) => d.castApproval S row content step actor note now

/-- Record a rejection of the content read and close the unit. -/
def castRejection (row : UnitRow δ) (content : List ItemRef)
    (actor : Uuid) (note : String) (now : Timestamp) :
    Except (ApprovalError ε) (RejectOutcome × Desk κ δ) := do
  rejectIf (AlreadyVoted row.unit row.decisions actor) (.refused .duplicateVote)
  let voted := row.withDecision ⟨actor, row.unit.generation, .reject, some note, now, false⟩
  let unlocked ← (S.unlock d.content row.unit row.items false).mapError .subject
  pure (.rejected, ({ d with content := unlocked }.put
    (voted.withState .rejected now (some note))).note
      (.vote row.unit.id actor row.unit.generation .reject content))

/-- Reject a unit at the generation the reviewer saw. -/
def reject (unitId actor : Uuid) (seen : ℤ) (note : String)
    (now : Timestamp) : Except (ApprovalError ε) (RejectOutcome × Desk κ δ) := do
  rejectIf (isBlank (some note)) .noteRequired
  checkNoteLength (some note)
  let row ← d.loadPending unitId
  checkGeneration row.unit seen
  match ← d.refreshIfStale digest S row with
  | (_, some refreshed) =>
    pure (.refreshed refreshed.unit.generation, (d.put refreshed).note (.refreshed unitId))
  | (content, none) => d.castRejection S row content actor note now

/-- The submitter closes a pending unit. -/
def withdraw (unitId actor : Uuid) (now : Timestamp) : Except (ApprovalError ε) (Desk κ δ) := do
  let row ← d.loadPending unitId
  rejectIf (row.unit.submittedBy ≠ actor) .notSubmitter
  let unlocked ← (S.unlock d.content row.unit row.items false).mapError .subject
  pure ({ d with content := unlocked }.put (row.withState .withdrawn now none))

end Desk

/-! ### Runs -/

/-- A call of the engine with the subject it is made for, or an edit of the content. -/
inductive Call (κ δ ε : Type)
  | submit (S : Subject κ δ ε) (req : SubmitRequest)
  | approve (S : Subject κ δ ε) (unitId actor : Uuid) (seen : ℤ) (note : Option String)
      (now : Timestamp)
  | reject (S : Subject κ δ ε) (unitId actor : Uuid) (seen : ℤ) (note : String)
      (now : Timestamp)
  | withdraw (S : Subject κ δ ε) (unitId actor : Uuid) (now : Timestamp)
  | edit (change : κ → κ)

/-- One call. -/
def Desk.step (d : Desk κ δ) : Call κ δ ε → Except (ApprovalError ε) (Desk κ δ)
  | .submit S req => d.submit digest S req
  | .approve S unitId actor seen note now =>
    (d.approve digest S unitId actor seen note now).map Prod.snd
  | .reject S unitId actor seen note now =>
    (d.reject digest S unitId actor seen note now).map Prod.snd
  | .withdraw S unitId actor now => d.withdraw S unitId actor now
  | .edit change => .ok { d with content := change d.content }

end Gears.Approval
