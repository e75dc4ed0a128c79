import Gears.Approval.Engine
import Mathlib

/-!
# Votes over runs of the engine

What any sequence of calls and content edits leaves of a unit.

* `RowStep` : everything one call can do to one unit; `step_eq_ok` says that nothing else happens.
* `Kept` : the invariant of a stored unit and its journal.
* `approved_by_quorum` : a unit is applied at most once, by a quorum of independent votes on the
  content that is applied, and stays decided; and the eligibility rule is the engine's own.
-/

namespace Gears.Approval

open Except List Function

variable {κ δ ε : Type} {digest : Canonical → δ}

/-! ### What one call does -/

/-- The row with its version bumped. -/
def UnitRow.bumped (row : UnitRow δ) : UnitRow δ :=
  { row with unit := { row.unit with version := row.unit.version + 1 } }

/-- What a call does to the unit `id`: its row before and after, and what is noted. -/
inductive RowStep (digest : Canonical → δ) (id : Uuid) :
    Option (UnitRow δ) → UnitRow δ → List JournalEntry → Prop
  | submitted {unit : ApprovalUnit δ} {items : List ItemRef} (hid : unit.id = id)
      (hstate : unit.state = .pending) (hgeneration : unit.generation = 1)
      (hhash : unit.snapshotHash = snapshotHash digest items unit.commonEffectiveDate)
      (hquorum : unit.quorumRequired ≠ 0) : RowStep digest id none ⟨unit, items, []⟩ []
  | appliedAtOnce {unit : ApprovalUnit δ} {items : List ItemRef} (now : Timestamp)
      (hid : unit.id = id) (hgeneration : unit.generation = 1)
      (hhash : unit.snapshotHash = snapshotHash digest items unit.commonEffectiveDate)
      (hquorum : unit.quorumRequired = 0) :
      RowStep digest id none (UnitRow.withState ⟨unit, items, []⟩ .approved now none)
        [.applied id 1 items]
  | refreshed {row : UnitRow δ} (fresh : List ItemRef) (snapshot : Json)
      (hstate : row.unit.state = .pending) :
      RowStep digest id (some row) (row.bumped.refresh fresh snapshot
        (snapshotHash digest fresh row.unit.commonEffectiveDate)
        (min (row.unit.generation + 1) maxGeneration)) [.refreshed id]
  | voted {row : UnitRow δ} {content : List ItemRef} {actor : Uuid} (note : Option String)
      (now : Timestamp) {have_ need : ℕ} (hstate : row.unit.state = .pending)
      (hstep : evaluateApprove row.unit row.decisions actor row.items = .ok (.needMore have_ need))
      (hhash : snapshotHash digest content row.unit.commonEffectiveDate = row.unit.snapshotHash) :
      RowStep digest id (some row)
        (row.bumped.withDecision ⟨actor, row.unit.generation, .approve, note, now, false⟩)
        [.vote id actor row.unit.generation .approve content]
  | applied {row : UnitRow δ} {content : List ItemRef} {actor : Uuid} (note : Option String)
      (now : Timestamp) (hstate : row.unit.state = .pending)
      (hstep : evaluateApprove row.unit row.decisions actor row.items = .ok .apply)
      (hhash : snapshotHash digest content row.unit.commonEffectiveDate = row.unit.snapshotHash) :
      RowStep digest id (some row)
        ((row.bumped.withDecision
          ⟨actor, row.unit.generation, .approve, note, now, false⟩).withState .approved now none)
        [.vote id actor row.unit.generation .approve content,
          .applied id row.unit.generation row.items]
  | rejected {row : UnitRow δ} (content : List ItemRef) {actor : Uuid} (note : String)
      (now : Timestamp) (hstate : row.unit.state = .pending)
      (hvoted : ¬ AlreadyVoted row.unit row.decisions actor) :
      RowStep digest id (some row)
        ((row.bumped.withDecision ⟨actor, row.unit.generation, .reject, some note, now,
          false⟩).withState .rejected now (some note))
        [.vote id actor row.unit.generation .reject content]
  | withdrawn {row : UnitRow δ} (now : Timestamp) (hstate : row.unit.state = .pending) :
      RowStep digest id (some row) (row.bumped.withState .withdrawn now none) []

/-- Every row is stored under its unit's id. -/
def Desk.Keyed (d : Desk κ δ) : Prop := ∀ id row, d.rows id = some row → row.unit.id = id

variable {d d' : Desk κ δ} {S : Subject κ δ ε} {call : Call κ δ ε} {id actor : Uuid}
  {row row' : UnitRow δ} {items content : List ItemRef} {entries : List JournalEntry}

theorem loadPending_eq_ok (h : d.loadPending (ε := ε) id = .ok row') :
    ∃ row, d.rows id = some row ∧ row.unit.state = .pending ∧ row' = row.bumped := by
  unfold Desk.loadPending at h
  split at h
  · cases h
  · rename_i row hrow
    split at h
    · cases h
    · rename_i hstate
      simp only [Desk.bumpVersion] at h
      cases h
      exact ⟨row, hrow, not_not.1 hstate, rfl⟩

variable {now : Timestamp} {note : Option String} {step : ApproveStep} {r : ApproveRefusal}

theorem applyUnit_eq_ok (h : d.applyUnit S row now = .ok d') :
    d'.rows = update d.rows row.unit.id (some (row.withState .approved now none)) ∧
      d'.journal = d.journal ++ [.applied row.unit.id row.unit.generation row.items] := by
  simp only [Desk.applyUnit, ok_iffs] at h
  obtain ⟨-, -, -, -, rfl⟩ := h
  exact ⟨rfl, rfl⟩

/-- What a call does to a desk: at most one unit's row changes, by a `RowStep`. -/
def Desk.Moves (digest : Canonical → δ) (d d' : Desk κ δ) : Prop :=
  (d'.rows = d.rows ∧ d'.journal = d.journal) ∨
    ∃ id row entries, RowStep digest id (d.rows id) row entries ∧
      d'.rows = update d.rows id (some row) ∧ d'.journal = d.journal ++ entries

variable {prior : Option (UnitRow δ)}

theorem Desk.Moves.ofRow (hprior : d.rows id = prior) (hstep : RowStep digest id prior row entries)
    (hrows : d'.rows = update d.rows id (some row))
    (hjournal : d'.journal = d.journal ++ entries) : d.Moves digest d' :=
  .inr ⟨id, row, entries, hprior ▸ hstep, hrows, hjournal⟩

variable {o : Option (UnitRow δ)}

theorem refreshIfStale_eq_ok [DecidableEq δ] (h : d.refreshIfStale digest S row = .ok (content, o))
    : (o = none ∧
        snapshotHash digest content row.unit.commonEffectiveDate = row.unit.snapshotHash) ∨
      ∃ snapshot, o = some (row.refresh content snapshot
        (snapshotHash digest content row.unit.commonEffectiveDate)
        (min (row.unit.generation + 1) maxGeneration)) := by
  simp only [Desk.refreshIfStale, ok_iffs] at h
  obtain ⟨fresh, -, h⟩ := h
  split at h
  · rename_i hhash
    cases h
    exact .inl ⟨rfl, hhash⟩
  · cases h
    exact .inr ⟨_, rfl⟩

theorem moves_submit {req : SubmitRequest} (h : d.submit digest S req = .ok d') :
    d.Moves digest d' := by
  simp only [Desk.submit, Desk.insertUnit, ok_iffs, exists_const] at h
  obtain ⟨-, items, -, -, -, d₁, ⟨hfree, rfl⟩, content, -, h⟩ := h
  have hnone : d.rows req.unitId = none := by simpa [SubmitRequest.unit] using hfree
  split at h
  · rename_i hquorum
    obtain ⟨hrows, hjournal⟩ := applyUnit_eq_ok h
    refine .ofRow hnone (.appliedAtOnce req.now rfl rfl rfl hquorum) ?_ hjournal
    rw [hrows]
    exact update_idem _ _ _
  · rename_i hquorum
    cases h
    exact .ofRow hnone (.submitted rfl rfl rfl rfl hquorum) rfl (append_nil _).symm

theorem moves_approve [DecidableEq δ] {seen : ℤ} {o : ApproveOutcome}
    (hkeyed : d.Keyed) (h : d.approve digest S id actor seen note now = .ok (o, d')) :
    d.Moves digest d' := by
  simp only [Desk.approve, ok_iffs] at h
  obtain ⟨-, -, _, hload, -, -, step, hstep, ⟨content, fresh⟩, hstale, h⟩ := h
  obtain ⟨row, hrow, hstate, rfl⟩ := loadPending_eq_ok hload
  obtain rfl : row.unit.id = id := hkeyed id row hrow
  rcases refreshIfStale_eq_ok hstale with ⟨rfl, hhash⟩ | ⟨snapshot, rfl⟩
  · simp only [Desk.castApproval] at h
    cases step with
    | needMore have_ need =>
      cases h
      exact .ofRow hrow (.voted note now hstate hstep hhash) rfl rfl
    | apply =>
      simp only [ok_iffs] at h
      obtain ⟨d₁, happly, -, rfl⟩ := h
      obtain ⟨hrows, hjournal⟩ := applyUnit_eq_ok happly
      refine .ofRow hrow (.applied note now hstate hstep hhash) ?_ ?_
      · rw [hrows]
        exact update_idem _ _ _
      · rw [hjournal]
        exact append_assoc _ _ _
  · cases h
    exact .ofRow hrow (.refreshed content snapshot hstate) rfl rfl

theorem moves_reject [DecidableEq δ] {seen : ℤ} {note : String} {o : RejectOutcome}
    (hkeyed : d.Keyed) (h : d.reject digest S id actor seen note now = .ok (o, d')) :
    d.Moves digest d' := by
  simp only [Desk.reject, bind_eq_ok_iff] at h
  obtain ⟨-, -, -, -, _, hload, -, -, ⟨content, fresh⟩, hstale, h⟩ := h
  obtain ⟨row, hrow, hstate, rfl⟩ := loadPending_eq_ok hload
  obtain rfl : row.unit.id = id := hkeyed id row hrow
  rcases refreshIfStale_eq_ok hstale with ⟨rfl, -⟩ | ⟨snapshot, rfl⟩
  · simp only [Desk.castRejection, ok_iffs, exists_const] at h
    obtain ⟨hvoted, -, -, -, rfl⟩ := h
    exact .ofRow hrow (.rejected content note now hstate hvoted) rfl rfl
  · cases h
    exact .ofRow hrow (.refreshed content snapshot hstate) rfl rfl

theorem moves_withdraw (hkeyed : d.Keyed)
    (h : d.withdraw S id actor now = .ok d') : d.Moves digest d' := by
  simp only [Desk.withdraw, ok_iffs] at h
  obtain ⟨_, hload, -, -, -, -, rfl⟩ := h
  obtain ⟨row, hrow, hstate, rfl⟩ := loadPending_eq_ok hload
  obtain rfl : row.unit.id = id := hkeyed id row hrow
  exact .ofRow hrow (.withdrawn now hstate) rfl (append_nil _).symm

/-- **Everything a call can do.** -/
theorem step_eq_ok [DecidableEq δ] (hkeyed : d.Keyed) (h : d.step digest call = .ok d') :
    d.Moves digest d' := by
  cases call with
  | submit S req => exact moves_submit h
  | approve S id actor seen note now =>
    obtain ⟨⟨o, d₁⟩, hcall, rfl⟩ := map_eq_ok_iff.1 h
    exact moves_approve hkeyed hcall
  | reject S id actor seen note now =>
    obtain ⟨⟨o, d₁⟩, hcall, rfl⟩ := map_eq_ok_iff.1 h
    exact moves_reject hkeyed hcall
  | withdraw S id actor now => exact moves_withdraw hkeyed h
  | edit change =>
    cases h
    exact .inl ⟨rfl, rfl⟩

/-! ### What the journal says of a unit -/

/-- The generation and the items of an application of the unit. -/
def JournalEntry.applicationOf (id : Uuid) : JournalEntry → Option (ℤ × List ItemRef)
  | .applied unit generation items => if unit = id then some (generation, items) else none
  | _ => none

/-- Every application of the unit, in order. -/
def applications (journal : List JournalEntry) (id : Uuid) : List (ℤ × List ItemRef) :=
  journal.filterMap (JournalEntry.applicationOf id)

/-- The entry is a refresh of the unit. -/
def JournalEntry.isRefreshOf (id : Uuid) : JournalEntry → Bool
  | .refreshed unit => unit = id
  | _ => false

/-- How often the unit was refreshed. -/
def refreshes (journal : List JournalEntry) (id : Uuid) : ℕ :=
  journal.countP (JournalEntry.isRefreshOf id)

/-- The unit an entry is about. -/
def JournalEntry.unit : JournalEntry → Uuid
  | .vote unit _ _ _ _ => unit
  | .applied unit _ _ => unit
  | .refreshed unit => unit

variable {journal : List JournalEntry}

theorem applications_append :
    applications (journal ++ entries) id = applications journal id ++ applications entries id :=
  filterMap_append

theorem refreshes_append :
    refreshes (journal ++ entries) id = refreshes journal id + refreshes entries id :=
  countP_append

theorem applications_of_others (h : ∀ e ∈ entries, e.unit ≠ id) : applications entries id = [] := by
  refine filterMap_eq_nil_iff.2 fun e he => ?_
  cases e with
  | applied unit generation items => exact if_neg (h _ he)
  | vote => rfl
  | refreshed => rfl

theorem refreshes_of_others (h : ∀ e ∈ entries, e.unit ≠ id) : refreshes entries id = 0 := by
  refine countP_eq_zero.2 fun e he => ?_
  cases e with
  | refreshed unit => exact fun hr => h _ he (of_decide_eq_true hr)
  | vote => simp [JournalEntry.isRefreshOf]
  | applied => simp [JournalEntry.isRefreshOf]

/-! ### What is kept of a unit -/

/-- The actor is neither the unit's submitter nor an author of an item stored with it. -/
def UnitRow.Independent (row : UnitRow δ) (actor : Uuid) : Prop :=
  actor ≠ row.unit.submittedBy ∧ actor ∉ row.items.map (·.createdBy)

/-- The actor approved the unit in its generation, when its content had its fingerprint. -/
def ApprovedAsStored (digest : Canonical → δ) (id : Uuid) (journal : List JournalEntry)
    (row : UnitRow δ) (actor : Uuid) : Prop :=
  ∃ content, JournalEntry.vote id actor row.unit.generation .approve content ∈ journal ∧
    snapshotHash digest content row.unit.commonEffectiveDate = row.unit.snapshotHash

/-- The votes of a row: its generation counts the refreshes, its fingerprint is that of its items,
and every vote it counts is one independent actor's, on content with that fingerprint. -/
structure Ballot (digest : Canonical → δ) (id : Uuid) (journal : List JournalEntry)
    (row : UnitRow δ) : Prop where
  generation_eq : row.unit.generation = 1 + refreshes journal id
  hash_eq : row.unit.snapshotHash = snapshotHash digest row.items row.unit.commonEffectiveDate
  past : ∀ v ∈ row.decisions, v.generation ≤ row.unit.generation
  once : ((row.decisions.filter (·.generation = row.unit.generation)).map (·.actor)).Nodup
  counted : ∀ v ∈ countedVotes row.unit row.decisions,
    row.Independent v.actor ∧ ApprovedAsStored digest id journal row v.actor

/-- The votes of a row and what they decided. -/
structure Kept (digest : Canonical → δ) (id : Uuid) (journal : List JournalEntry)
    (row : UnitRow δ) : Prop extends Ballot digest id journal row where
  applications_eq : applications journal id =
    if row.unit.state = .approved then [(row.unit.generation, row.items)] else []
  quorum : row.unit.state = .approved →
    row.unit.quorumRequired ≤ (countedVotes row.unit row.decisions).length

/-- From this many refreshes on the generation stays at its largest value. -/
def maxRefreshes : ℕ := 2 ^ 31 - 1

/-- What a run keeps of the unit `id`. -/
def Tracked (digest : Canonical → δ) (id : Uuid) (journal : List JournalEntry) :
    Option (UnitRow δ) → Prop
  | none => applications journal id = [] ∧ refreshes journal id = 0
  | some row => row.unit.id = id ∧
      (refreshes journal id < maxRefreshes → Kept digest id journal row)

theorem ApprovedAsStored.append (h : ApprovedAsStored digest id journal row actor) :
    ApprovedAsStored digest id (journal ++ entries) row actor := by
  obtain ⟨content, hvote, hhash⟩ := h
  exact ⟨content, mem_append_left _ hvote, hhash⟩

section

variable (h : Ballot digest id journal row)
include h

theorem Ballot.append (hnone : refreshes entries id = 0) :
    Ballot digest id (journal ++ entries) row where
  generation_eq := by rw [refreshes_append, hnone, add_zero, h.generation_eq]
  hash_eq := h.hash_eq
  past := h.past
  once := h.once
  counted v hv := ⟨(h.counted v hv).1, (h.counted v hv).2.append⟩

theorem Ballot.withState {state : UnitState} :
    Ballot digest id journal (row.withState state now note) := { h with }

theorem Ballot.bumped : Ballot digest id journal row.bumped :=
  { h with }

/-- A vote by an actor who did not vote yet, which if it approves is independent and journaled. -/
theorem Ballot.withDecision {v : Decision} (hgeneration : v.generation = row.unit.generation)
    (hvoted : ¬ AlreadyVoted row.unit row.decisions v.actor)
    (happrove : v.verdict = .approve → row.Independent v.actor ∧
      ApprovedAsStored digest id journal row v.actor) :
    Ballot digest id journal (row.withDecision v) where
  generation_eq := h.generation_eq
  hash_eq := h.hash_eq
  past w hw := by
    rcases mem_concat_iff.1 hw with hw | rfl
    · exact h.past w hw
    · exact hgeneration.le
  once := by
    show (((row.decisions ++ [v]).filter (·.generation = row.unit.generation)).map
      (·.actor)).Nodup
    rw [filter_append, map_append, nodup_append]
    -- no vote of this generation is the actor's yet
    refine ⟨h.once, by simp [hgeneration], ?_⟩
    rintro a ha b hb rfl
    obtain ⟨w, hw, rfl⟩ := mem_map.1 ha
    obtain ⟨hmem, hgen⟩ := mem_filter.1 hw
    obtain ⟨x, hx, hactor⟩ := mem_map.1 hb
    rw [mem_singleton.1 (mem_filter.1 hx).1] at hactor
    exact hvoted ⟨w, hmem, hactor.symm, of_decide_eq_true hgen⟩
  counted w hw := by
    have hw : w ∈ countedVotes row.unit (row.decisions ++ [v]) := hw
    rw [countedVotes, filter_append, mem_append] at hw
    rcases hw with hw | hw
    · exact h.counted w hw
    · obtain ⟨hmem, hcounted⟩ := mem_filter.1 hw
      cases mem_singleton.1 hmem
      exact happrove (of_decide_eq_true hcounted).1

theorem Ballot.refresh {snapshot : Json} (hcount : refreshes journal id + 1 < maxRefreshes) :
    Ballot digest id (journal ++ [.refreshed id]) (row.refresh content snapshot
      (snapshotHash digest content row.unit.commonEffectiveDate)
      (min (row.unit.generation + 1) maxGeneration)) := by
  have hone : refreshes [.refreshed id] id = 1 := by simp [refreshes, JournalEntry.isRefreshOf]
  have hgen : min (row.unit.generation + 1) maxGeneration = row.unit.generation + 1 := by
    have := h.generation_eq
    simp only [maxRefreshes, maxGeneration] at *
    omega
  have hpast : ∀ v ∈ row.decisions, v.generation < row.unit.generation + 1 := fun v hv =>
    Int.lt_add_one_of_le (h.past v hv)
  rw [hgen]
  -- the votes there are belong to earlier generations, so none of them counts any more
  have hold : ∀ v ∈ (row.refresh content snapshot
      (snapshotHash digest content row.unit.commonEffectiveDate)
        (row.unit.generation + 1)).decisions,
      v.generation < row.unit.generation + 1 := by
    intro v hv
    obtain ⟨w, hw, rfl⟩ := mem_map.1 hv
    rw [if_pos (hpast w hw)]
    exact hpast w hw
  refine ⟨?_, rfl, fun v hv => (hold v hv).le, ?_, fun v hv => ?_⟩
  · rw [refreshes_append]
    have := h.generation_eq
    simp only [UnitRow.refresh]
    omega
  · rw [filter_eq_nil_iff.2 fun v hv => ?_]
    · exact nodup_nil
    · exact fun hnow => (hold v hv).ne (of_decide_eq_true hnow)
  · obtain ⟨hmem, hcounted⟩ := mem_filter.1 hv
    exact absurd (of_decide_eq_true hcounted).2.2 (hold v hmem).ne

end

theorem approveEligibility_refusal_eq_none {unit : ApprovalUnit δ} {decisions : List Decision}
    {authors : List Uuid} :
    (approveEligibility unit decisions actor authors).refusal = none ↔ unit.state = .pending ∧
      actor ≠ unit.submittedBy ∧ actor ∉ authors ∧ ¬ AlreadyVoted unit decisions actor := by
  simp only [approveEligibility]
  split_ifs <;> grind

theorem evaluateApprove_eq_ok
    (h : evaluateApprove row.unit row.decisions actor row.items = .ok step) :
    row.Independent actor ∧ ¬ AlreadyVoted row.unit row.decisions actor ∧ (step = .apply →
        row.unit.quorumRequired ≤ (countedVotes row.unit row.decisions).length + 1) := by
  simp only [evaluateApprove, ok_iffs, refuse_eq_ok_iff, exists_const] at h
  obtain ⟨hnone, rfl⟩ := h
  obtain ⟨-, hsubmitter, hauthor, hvoted⟩ := approveEligibility_refusal_eq_none.1 hnone
  refine ⟨⟨hsubmitter, hauthor⟩, hvoted, fun happly => ?_⟩
  split at happly
  · rename_i hquorum
    simp only [approveEligibility, countedApprovals] at hquorum
    omega
  · cases happly

theorem countedVotes_withDecision {v : Decision} (hverdict : v.verdict = .approve)
    (hstale : v.stale = false) (hgeneration : v.generation = row.unit.generation) :
    (countedVotes row.unit (row.withDecision v).decisions).length =
      (countedVotes row.unit row.decisions).length + 1 := by
  simp [countedVotes, UnitRow.withDecision, hverdict, hstale, hgeneration]

theorem Ballot.approve (h : Ballot digest id journal row)
    (hstep : evaluateApprove row.unit row.decisions actor row.items = .ok step)
    (hhash : snapshotHash digest content row.unit.commonEffectiveDate = row.unit.snapshotHash)
    (hvote : .vote id actor row.unit.generation .approve content ∈ entries)
    (hnone : refreshes entries id = 0) :
    Ballot digest id (journal ++ entries) (row.bumped.withDecision
      ⟨actor, row.unit.generation, .approve, note, now, false⟩) := by
  obtain ⟨hindependent, hvoted, -⟩ := evaluateApprove_eq_ok hstep
  refine (h.append hnone).bumped.withDecision rfl hvoted fun _ => ⟨hindependent, content, ?_, hhash⟩
  exact mem_append_right _ hvote

/-- The applications of a unit that stays undecided, or is closed without approval. -/
theorem Kept.not_approved (h : Kept digest id journal row) (hstate : row.unit.state = .pending)
    (hballot : Ballot digest id (journal ++ entries) row') (hnone : applications entries id = [])
    (hstate' : row'.unit.state ≠ .approved) : Kept digest id (journal ++ entries) row' where
  toBallot := hballot
  applications_eq := by
    rw [applications_append, hnone, h.applications_eq, if_neg hstate', hstate]
    rfl
  quorum happroved := absurd happroved hstate'

theorem Tracked.kept (h : Tracked digest id journal (some row))
    (hcount : refreshes (journal ++ entries) id < maxRefreshes) : Kept digest id journal row := by
  rw [refreshes_append] at hcount
  exact h.2 (lt_of_le_of_lt (Nat.le_add_right _ _) hcount)

/-- **One step of a unit.** -/
theorem RowStep.tracked (h : RowStep digest id prior row entries)
    (hprior : Tracked digest id journal prior) :
    Tracked digest id (journal ++ entries) (some row) := by
  cases h
  case submitted hid hstate hgeneration hhash hquorum =>
    obtain ⟨happlied, hrefreshed⟩ := hprior
    refine ⟨hid, fun _ => ⟨⟨?_, hhash, by simp, by simp, by simp [countedVotes]⟩, ?_, ?_⟩⟩
    · simp [hgeneration, hrefreshed]
    · simp [happlied, hstate]
    · simp [hstate]
  case appliedAtOnce now hid hgeneration hhash hquorum =>
    obtain ⟨happlied, hrefreshed⟩ := hprior
    refine ⟨hid, fun _ => ⟨⟨?_, hhash, by simp [UnitRow.withState], by simp [UnitRow.withState],
      by simp [UnitRow.withState, countedVotes]⟩, ?_, fun _ => ?_⟩⟩
    · rw [refreshes_append, hrefreshed]
      exact hgeneration
    · rw [applications_append, happlied]
      simp [applications, JournalEntry.applicationOf, UnitRow.withState, hgeneration]
    · exact hquorum.le.trans (Nat.zero_le _)
  -- the other steps start from a row
  all_goals
    refine ⟨hprior.1, fun hcount => ?_⟩
    have hkept := hprior.kept hcount
  case refreshed fresh snapshot hstate =>
    have hone : refreshes [.refreshed id] id = 1 := by simp [refreshes, JournalEntry.isRefreshOf]
    rw [refreshes_append, hone] at hcount
    refine hkept.not_approved hstate (hkept.bumped.refresh hcount) rfl ?_
    simp [UnitRow.refresh, UnitRow.bumped, hstate]
  case voted note now _ _ hstate hstep hhash =>
    refine hkept.not_approved hstate (hkept.approve hstep hhash (mem_singleton_self _) rfl)
      rfl ?_
    simp [UnitRow.withDecision, UnitRow.bumped, hstate]
  case applied note now hstate hstep hhash =>
    refine ⟨(hkept.approve hstep hhash (mem_cons_self ..) rfl).withState, ?_, fun _ => ?_⟩
    · rw [applications_append, hkept.applications_eq, hstate]
      simp [applications, JournalEntry.applicationOf, UnitRow.withState, UnitRow.withDecision,
        UnitRow.bumped, filterMap_cons]
    · exact ((evaluateApprove_eq_ok hstep).2.2 rfl).trans
        (countedVotes_withDecision rfl rfl rfl).ge
  case rejected _ note now hstate hvoted =>
    refine hkept.not_approved hstate (Ballot.withState ?_) rfl (by simp [UnitRow.withState])
    refine (hkept.append rfl).bumped.withDecision rfl hvoted ?_
    intro happrove
    cases happrove
  case withdrawn now hstate =>
    exact hkept.not_approved hstate (hkept.append rfl).bumped.withState rfl
      (by simp [UnitRow.withState])

theorem RowStep.unit_eq (h : RowStep digest id prior row entries) : ∀ e ∈ entries, e.unit = id := by
  cases h <;> simp [JournalEntry.unit]

theorem RowStep.pending (h : RowStep digest id (some row) row' entries) :
    row.unit.state = .pending := by
  cases h <;> assumption

theorem Tracked.append_others (h : Tracked digest id journal o)
    (hothers : ∀ e ∈ entries, e.unit ≠ id) : Tracked digest id (journal ++ entries) o := by
  have happlied := applications_of_others hothers
  have hrefreshed := refreshes_of_others hothers
  cases o with
  | none => exact ⟨by rw [applications_append, h.1, happlied]; rfl, by
      rw [refreshes_append, h.2, hrefreshed]⟩
  | some row =>
    refine ⟨h.1, fun hcount => ?_⟩
    have hkept := h.kept hcount
    refine ⟨hkept.append hrefreshed, ?_, hkept.quorum⟩
    rw [applications_append, happlied, append_nil, hkept.applications_eq]

/-! ### Runs -/

/-- Every unit is tracked. -/
def Desk.Sound (digest : Canonical → δ) (d : Desk κ δ) : Prop :=
  ∀ id, Tracked digest id d.journal (d.rows id)

theorem Desk.Sound.keyed (h : d.Sound digest) : d.Keyed := by
  intro id row hrow
  have := h id
  rw [hrow] at this
  exact this.1

theorem Desk.Moves.sound (hmoves : d.Moves digest d') (h : d.Sound digest) : d'.Sound digest := by
  intro id
  rcases hmoves with ⟨hrows, hjournal⟩ | ⟨id', row, entries, hstep, hrows, hjournal⟩
  · rw [hrows, hjournal]
    exact h id
  · rw [hrows, hjournal]
    by_cases hid : id = id'
    · subst hid
      rw [update_self]
      exact hstep.tracked (h id)
    · rw [update_of_ne hid]
      refine (h id).append_others fun e he => ?_
      rw [hstep.unit_eq e he]
      exact Ne.symm hid

theorem Desk.Moves.decided (hmoves : d.Moves digest d') (hrow : d.rows id = some row)
    (hstate : row.unit.state ≠ .pending) : d'.rows id = some row := by
  rcases hmoves with ⟨hrows, -⟩ | ⟨id', row', entries, hstep, hrows, -⟩
  · rw [hrows, hrow]
  · rw [hrows]
    by_cases hid : id = id'
    · subst hid
      rw [hrow] at hstep
      exact absurd hstep.pending hstate
    · rw [update_of_ne hid, hrow]

theorem Kept.voters (h : Kept digest id journal row) (happroved : row.unit.state = .approved) :
    ∃ voters : List Uuid, voters.Nodup ∧ voters.length = row.unit.quorumRequired ∧
      ∀ actor ∈ voters, row.Independent actor ∧ ApprovedAsStored digest id journal row actor := by
  have honce : ((countedVotes row.unit row.decisions).map (·.actor)).Nodup := by
    refine h.once.sublist (Sublist.map _ ?_)
    have hsub : ∀ v : Decision, decide (v.verdict = .approve ∧ v.stale = false ∧
        v.generation = row.unit.generation) = true →
        decide (v.generation = row.unit.generation) = true := by
      intro v hv
      exact decide_eq_true (of_decide_eq_true hv).2.2
    exact monotone_filter_right _ hsub
  refine ⟨((countedVotes row.unit row.decisions).map (·.actor)).take row.unit.quorumRequired,
    honce.sublist (take_sublist _ _), ?_, fun actor hactor => ?_⟩
  · rw [length_take, length_map]
    exact min_eq_left (h.quorum happroved)
  · obtain ⟨v, hv, rfl⟩ := mem_map.1 (mem_of_mem_take hactor)
    exact h.counted v hv

theorem loadPending_of_pending (hrow : d.rows id = some row) (hstate : row.unit.state = .pending) :
    d.loadPending (ε := ε) id = .ok row.bumped := by
  simp [Desk.loadPending, hrow, hstate, Desk.bumpVersion, UnitRow.bumped]

theorem loadPending_of_decided (hrow : d.rows id = some row) (hstate : row.unit.state ≠ .pending) :
    d.loadPending (ε := ε) id = .error (.refused .alreadyDecided) := by
  unfold Desk.loadPending
  rw [hrow]
  exact if_pos hstate

theorem evaluateApprove_eq_error_iff :
    evaluateApprove row.unit row.decisions actor row.items = .error r ↔
      (approveEligibility row.unit row.decisions actor (row.items.map (·.createdBy))).refusal =
        some r := by
  simp [evaluateApprove, bind_eq_error_iff]

theorem applyUnit_ne_refused : d.applyUnit S row now ≠ .error (.refused r) := by
  simp [Desk.applyUnit, bind_eq_error_iff]

theorem castApproval_ne_refused
    : d.castApproval S row content step actor note now ≠ .error (.refused r) := by
  cases step with
  | needMore have_ need => exact fun h => nomatch h
  | apply => simp [Desk.castApproval, bind_eq_error_iff, applyUnit_ne_refused]

section Runs

variable [DecidableEq δ] {calls : List (Call κ δ ε)}

theorem run_sound {start : κ}
    (hrun : Machine.run (Desk.step digest) (Desk.init start) calls = .ok d) :
    d.Sound digest := by
  refine Machine.run_invariant (fun d call d' hsound hstep => ?_) hrun fun id => ⟨rfl, rfl⟩
  exact (step_eq_ok hsound.keyed hstep).sound hsound

theorem run_decided (hsound : d.Sound digest) (hrow : d.rows id = some row)
    (hstate : row.unit.state ≠ .pending) (hrun : Machine.run (Desk.step digest) d calls = .ok d') :
    d'.rows id = some row := by
  have hstep : ∀ (d : Desk κ δ) (call : Call κ δ ε) (d' : Desk κ δ),
      d.Sound digest ∧ d.rows id = some row → d.step digest call = .ok d' →
        d'.Sound digest ∧ d'.rows id = some row := by
    intro d call d' ⟨hd, hkept⟩ hcall
    have hmoves := step_eq_ok hd.keyed hcall
    exact ⟨hmoves.sound hd, hmoves.decided hkept hstate⟩
  exact (Machine.run_invariant hstep hrun ⟨hsound, hrow⟩).2

theorem refreshIfStale_ne_refused : d.refreshIfStale digest S row ≠ .error (.refused r) := by
  intro h
  simp only [Desk.refreshIfStale, bind_eq_error_iff, mapError_eq_error_iff] at h
  rcases h with ⟨e, -, h⟩ | ⟨fresh, -, h⟩
  · cases h
  · split at h <;> cases h

/-- **When an approval is refused.** A call that neither its note nor its generation stops is
refused for exactly the reason that the eligibility gives. -/
theorem approve_refused_iff (hrow : d.rows id = some row)
    (hnote : ¬ note.any fun n => noteMaxChars < n.length) :
    d.approve digest S id actor row.unit.generation note now = .error (.refused r) ↔
      (approveEligibility row.unit row.decisions actor (row.items.map (·.createdBy))).refusal =
        some r := by
  by_cases hstate : row.unit.state = .pending
  · have hgeneration : row.bumped.unit.generation = row.unit.generation := rfl
    unfold Desk.approve
    rw [checkNoteLength, rejectIf_of_not hnote, loadPending_of_pending hrow hstate]
    simp only [ok_bind]
    rw [checkGeneration, rejectIf_of_not (not_not.2 hgeneration), ok_bind, bind_eq_error_iff]
    constructor
    · rintro (h | ⟨step, -, h⟩)
      · obtain ⟨_, h, hr⟩ := mapError_eq_error_iff.1 h
        cases hr
        exact evaluateApprove_eq_error_iff.1 h
      · rcases bind_eq_error_iff.1 h with h | ⟨⟨content, o⟩, -, h⟩
        · exact absurd h refreshIfStale_ne_refused
        · cases o with
          | none => exact absurd h castApproval_ne_refused
          | some refreshed => cases h
    · intro h
      exact .inl (mapError_eq_error_iff.2 ⟨r, evaluateApprove_eq_error_iff.2 h, rfl⟩)
  · have happrove : d.approve digest S id actor row.unit.generation note now =
        .error (.refused .alreadyDecided) := by
      unfold Desk.approve
      rw [checkNoteLength, rejectIf_of_not hnote, loadPending_of_decided hrow hstate]
      rfl
    rw [happrove, approveEligibility, if_pos hstate]
    simp

/-- **Nothing is applied without fresh independent votes.** After any run, a unit that was
refreshed fewer than `maxRefreshes` times has been applied once if it is approved and never
otherwise; it was then approved by as many different actors as its quorum asks for, none of them
its submitter or an author of its items, each in its final generation and on content with the
fingerprint of the items applied.  A decided unit is never touched again, and the eligibility rule
says whether an approval of the current generation is refused. -/
theorem approved_by_quorum {start : κ}
    (hrun : Machine.run (Desk.step digest) (Desk.init start) calls = .ok d)
    (hrow : d.rows id = some row) (hfew : refreshes d.journal id < 2 ^ 31 - 1) :
    (applications d.journal id =
      if row.unit.state = .approved then [(row.unit.generation, row.items)] else []) ∧
    (row.unit.state = .approved → ∃ voters : List Uuid, voters.Nodup ∧
      voters.length = row.unit.quorumRequired ∧ ∀ actor ∈ voters,
        actor ≠ row.unit.submittedBy ∧ (∀ item ∈ row.items, actor ≠ item.createdBy) ∧
        ∃ content, .vote id actor row.unit.generation .approve content ∈ d.journal ∧
          snapshotHash digest content row.unit.commonEffectiveDate =
            snapshotHash digest row.items row.unit.commonEffectiveDate ∧
          (Injective digest → canonicalContent content row.unit.commonEffectiveDate =
            canonicalContent row.items row.unit.commonEffectiveDate)) ∧
    (row.unit.state ≠ .pending → ∀ (more : List (Call κ δ ε)) (d' : Desk κ δ),
      Machine.run (Desk.step digest) d more = .ok d' → d'.rows id = some row) ∧
    ∀ (S : Subject κ δ ε) (actor : Uuid) (note : Option String) (now : Timestamp),
      (∀ text ∈ note, text.length ≤ noteMaxChars) →
      ((approveEligibility row.unit row.decisions actor (row.items.map (·.createdBy))).refusal =
          none ↔
        ∀ r, d.approve digest S id actor row.unit.generation note now ≠ .error (.refused r)) := by
  have hsound := run_sound hrun
  have hkept : Kept digest id d.journal row := by
    have := hsound id
    rw [hrow] at this
    exact this.2 hfew
  refine ⟨hkept.applications_eq, fun happroved => ?_, fun hstate more d' hmore => ?_,
    fun S actor note now hnote => ?_⟩
  · obtain ⟨voters, hnodup, hlength, hvotes⟩ := hkept.voters happroved
    refine ⟨voters, hnodup, hlength, fun actor hactor => ?_⟩
    obtain ⟨⟨hsubmitter, hauthor⟩, content, hvote, hhash⟩ := hvotes actor hactor
    rw [hkept.hash_eq] at hhash
    refine ⟨hsubmitter, fun item hitem heq => ?_, content, hvote, hhash, fun hdigest => ?_⟩
    · exact hauthor (mem_map.2 ⟨item, hitem, heq.symm⟩)
    · exact hdigest hhash
  · exact run_decided hsound hrow hstate hmore
  · have hshort : ¬ note.any fun n => noteMaxChars < n.length := by
      cases note with
      | none => simp
      | some text => simpa using hnote text rfl
    simp only [ne_eq, approve_refused_iff hrow hshort, Option.eq_none_iff_forall_ne_some]

end Runs

/-! ### A sample run -/

/-- Items that are changed in place. -/
def sampleSubject : Subject (List ItemRef) (List (ℕ × String)) Empty where
  kind := "price"
  refType := "entry"
  collect content ids := .ok (content.filter (·.itemId ∈ ids))
  validateSubmit _ _ := .ok ()
  lock content _ _ := .ok content
  snapshot _ _ := .null
  apply content _ _ := .ok content
  unlock content _ _ _ := .ok content

/-- The ids and the texts of the items. -/
def sampleDigest (c : Canonical) : List (ℕ × String) :=
  c.items.map fun (_, id, after) => (id.toNat, match after with | .string text => text | _ => "")

/-- An item of author 2. -/
def sampleItem (text : String) : ItemRef := ⟨"price", 10, 2, none, .string text⟩

/-- A unit with a quorum of two; its content is edited after the first vote. -/
def sampleCalls : List (Call (List ItemRef) (List (ℕ × String)) Empty) :=
  [.submit sampleSubject ⟨7, 1, 9, [10], 1, ⟨2, []⟩, none, none, 0⟩,
    .approve sampleSubject 7 3 1 none 1, .edit fun _ => [sampleItem "20"],
    .approve sampleSubject 7 4 1 none 2, .approve sampleSubject 7 3 2 none 3,
    .approve sampleSubject 7 4 2 none 4]

theorem approved_by_quorum_sample :
    ∃ d row, Machine.run (Desk.step sampleDigest) (Desk.init [sampleItem "10"]) sampleCalls =
        .ok d ∧ d.rows 7 = some row ∧ row.unit.state = .approved ∧ row.unit.generation = 2 ∧
      ∃ voters : List Uuid, voters.Nodup ∧ voters.length = 2 ∧ ∀ actor ∈ voters, actor ≠ 1 := by
  simp only [exists_and_left]
  refine exists_ok_of (P := fun d => refreshes d.journal 7 = 1 ∧ ∃ row, d.rows 7 = some row ∧
    row.unit.state = .approved ∧ row.unit.generation = 2 ∧ row.unit.quorumRequired = 2 ∧
      row.unit.submittedBy = 1) (by decide +kernel) ?_
  rintro d hd ⟨hrefreshes, row, hrow, hstate, hgeneration, hquorum, hsubmitter⟩
  obtain ⟨-, hvotes, -, -⟩ := approved_by_quorum hd hrow (by rw [hrefreshes]; norm_num)
  obtain ⟨voters, hnodup, hlength, hvoters⟩ := hvotes hstate
  rw [hsubmitter] at hvoters
  exact ⟨row, hrow, hstate, hgeneration, voters, hnodup, hlength.trans hquorum,
    fun actor hactor => (hvoters actor hactor).1⟩

end Gears.Approval
