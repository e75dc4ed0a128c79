import Gears.Ledger.Counters

/-!
# The dispute state machine and its row

A dispute goes through cycles: it is opened, and the open cycle is won or lost; a resolved dispute
of the same payment may be opened again at the next cycle.

* `checkTransition` : whether a phase may follow the observed state.
* `DisputeState` : the persisted row.
* `disputeUpsert`, `disputeAdvance` : the two writes of the row, with their checks.
-/

namespace Gears.Ledger

open Money Except

/-! ### Phases -/

/-- A dispute phase. -/
inductive DisputePhase
  | opened
  | won
  | lost
  | partialOutcome
  deriving DecidableEq, Repr

/-- The variant that the opening records. -/
inductive DisputeVariant
  | cashHold
  | arReclass
  deriving DecidableEq, Repr

/-- The token of a phase. -/
def DisputePhase.asStr : DisputePhase → String
  | .opened => "OPENED"
  | .won => "WON"
  | .lost => "LOST"
  | .partialOutcome => "PARTIAL"

/-- The persisted state that a transition is checked against. -/
structure ObservedDispute where
  paymentId : String
  lastPhase : DisputePhase
  cycle : ℤ
  deriving DecidableEq, Repr

/-- Why a phase cannot follow the observed state. -/
inductive DisputeTransitionError
  | firstCycle (disputeId : String) (cycle : ℤ)
  | foreignPayment (disputeId observed requested : String)
  | reopen (disputeId : String) (cycle cycleBefore : ℤ) (observedPhase : DisputePhase)
      (observedCycle : ℤ)
  | noOpenedCycle (disputeId : String)
  | notAnOutcome (disputeId : String) (phase : DisputePhase)
  | outcomeNotOpen (disputeId : String) (phase : DisputePhase) (cycle : ℤ)
      (observedPhase : DisputePhase) (observedCycle : ℤ)
  deriving DecidableEq, Repr

/-- The text of a refused transition. -/
def DisputeTransitionError.text : DisputeTransitionError → String
  | .firstCycle d c => "dispute " ++ d ++ ": first opening must be cycle 1, not " ++ toString c
  | .foreignPayment d o r =>
    "dispute " ++ d ++ " belongs to payment " ++ o ++ ", not " ++ r
  | .reopen d c b p o => "dispute " ++ d ++ ": reopen at cycle " ++ toString c ++
      " requires WON/LOST at cycle " ++ toString b ++ "; observed " ++ p.asStr ++ " at cycle " ++
      toString o
  | .noOpenedCycle d => "dispute " ++ d ++ " has no opened cycle to resolve"
  | .notAnOutcome d p => "dispute " ++ d ++ ": " ++ p.asStr ++ " is not an outcome"
  | .outcomeNotOpen d p c q o => "dispute " ++ d ++ ": outcome " ++ p.asStr ++
      " requires OPENED at cycle " ++ toString c ++ "; observed " ++ q.asStr ++ " at cycle " ++
      toString o

/-- The successor of a cycle: `i32::checked_add`. -/
def nextCycle (cycle : ℤ) : Option ℤ := if cycle + 1 < 2 ^ 31 then some (cycle + 1) else none

/-- An opening starts cycle 1 of a new dispute, or the next cycle of a resolved dispute of the same
payment. -/
def checkOpen (disputeId : String) (observed : Option ObservedDispute) (paymentId : String)
    (cycle : ℤ) : Except DisputeTransitionError Unit :=
  match observed with
  | none => rejectIf (cycle ≠ 1) (.firstCycle disputeId cycle)
  | some observed => do
    rejectIf (observed.paymentId ≠ paymentId)
      (.foreignPayment disputeId observed.paymentId paymentId)
    rejectIf (¬((observed.lastPhase = .won ∨ observed.lastPhase = .lost) ∧
        nextCycle observed.cycle = some cycle))
      (.reopen disputeId cycle (max (cycle - 1) (-2 ^ 31)) observed.lastPhase observed.cycle)

/-- An outcome resolves the open cycle that it names. -/
def checkOutcome (disputeId : String) (observed : Option ObservedDispute) (phase : DisputePhase)
    (cycle : ℤ) : Except DisputeTransitionError Unit := do
  rejectIf (phase = .opened) (.notAnOutcome disputeId phase)
  match observed with
  | none => .error (.noOpenedCycle disputeId)
  | some observed =>
    rejectIf (¬(observed.lastPhase = .opened ∧ observed.cycle = cycle))
      (.outcomeNotOpen disputeId phase cycle observed.lastPhase observed.cycle)

/-- Whether the phase may follow the observed state. -/
def checkTransition (disputeId : String) (observed : Option ObservedDispute) (paymentId : String)
    (phase : DisputePhase) (cycle : ℤ) : Except DisputeTransitionError Unit :=
  match phase with
  | .opened => checkOpen disputeId observed paymentId cycle
  | outcome => checkOutcome disputeId observed outcome cycle

/-- The persisted row of a dispute. -/
structure DisputeState where
  tenantId : Uuid
  disputeId : String
  paymentId : String
  variant : DisputeVariant
  lastPhase : DisputePhase
  cycle : ℤ
  disputedAmount : PostedMoney
  cashHold : PostedMoney
  version : ℤ
  deriving DecidableEq, Repr

/-- What a transition observes of a row. -/
def DisputeState.observed (s : DisputeState) : ObservedDispute :=
  ⟨s.paymentId, s.lastPhase, s.cycle⟩

/-- The hold is not negative and within the disputed amount. -/
def validateAmounts (amount hold : PostedMoney) : Except RepoError Unit :=
  rejectIf (amount.amount < Decimal.zero ∨ hold.amount < Decimal.zero ∨
      amount.amount < hold.amount)
    (.moneyOutCapExceeded "dispute requires 0 <= cash_hold <= disputed_amount")

/-- The next version of the row. -/
def nextDisputeVersion (version : ℤ) : Except RepoError ℤ :=
  if version + 1 < 2 ^ 63 then .ok (version + 1) else .error (.db "dispute version exhausted")

/-- Open cycle one, or reopen a resolved row at the next cycle. -/
def disputeUpsert (previous : Option DisputeState) (tenant : Uuid) (disputeId paymentId : String)
    (variant : DisputeVariant) (cycle : ℤ) (disputed hold : PostedMoney) :
    Except RepoError DisputeState := do
  (checkOpen disputeId (previous.map DisputeState.observed) paymentId cycle).mapError
    fun e => .disputeNotOpen e.text
  let next : DisputeState := ⟨tenant, disputeId, paymentId, variant, .opened, cycle, disputed,
    hold, 0⟩
  match previous with
  | some previous => do
    -- a dispute is reopened in the currency it was opened in
    matching previous.disputedAmount disputed
    matching disputed hold
    validateAmounts disputed hold
    let version ← nextDisputeVersion previous.version
    return { next with version }
  | none => do
    matching disputed hold
    validateAmounts disputed hold
    return next

/-- Resolve the open cycle; the stored hold stays. -/
def disputeAdvance (previous : Option DisputeState) (disputeId : String) (phase : DisputePhase)
    (cycle : ℤ) (disputed : PostedMoney) : Except RepoError DisputeState := do
  (checkOutcome disputeId (previous.map DisputeState.observed) phase cycle).mapError
    fun e => .disputeNotOpen e.text
  match previous with
  | none => .error (.disputeNotOpen ("dispute " ++ disputeId ++ " is missing"))
  | some previous => do
    matching previous.disputedAmount disputed
    validateAmounts disputed previous.cashHold
    let version ← nextDisputeVersion previous.version
    return { previous with lastPhase := phase, disputedAmount := disputed, version }

variable {c : ℤ} {d : String} {previous : Option DisputeState} {o : Option ObservedDispute}
  {disputed : PostedMoney} {phase : DisputePhase} {u : Unit} {row : DisputeState}

theorem nextCycle_eq_some_iff {d : ℤ} : nextCycle c = some d ↔ d = c + 1 ∧ d < 2 ^ 31 := by
  unfold nextCycle
  split <;> simp <;> omega

theorem checkOpen_eq_ok_iff {p : String} :
    checkOpen d o p c = .ok u ↔ (o = none ∧ c = 1) ∨ ∃ r, o = some r ∧ r.paymentId = p ∧
      (r.lastPhase = .won ∨ r.lastPhase = .lost) ∧ c = r.cycle + 1 ∧ c < 2 ^ 31 := by
  cases o with
  | none => simp [checkOpen]
  | some r =>
    simp only [checkOpen, ok_iffs, not_not, nextCycle_eq_some_iff, exists_const,
      reduceCtorEq, false_and, false_or, Option.some.injEq, exists_eq_left']

theorem checkOutcome_eq_ok_iff : checkOutcome d o phase c = .ok u ↔ phase ≠ .opened ∧
      ∃ r, o = some r ∧ r.lastPhase = .opened ∧ r.cycle = c := by
  cases o <;> simp [checkOutcome]

theorem validateAmounts_eq_ok_iff {a h : PostedMoney} :
    validateAmounts a h = .ok u ↔ 0 ≤ a.value ∧ 0 ≤ h.value ∧ h.value ≤ a.value := by
  rw [validateAmounts, rejectIf_eq_ok_iff, Decimal.lt_iff, Decimal.lt_iff, Decimal.lt_iff,
    Decimal.toRat_zero, not_or, not_or, not_lt, not_lt, not_lt]
  rfl

theorem disputeUpsert_spec {tenant : Uuid} {p : String} {variant : DisputeVariant}
    {hold : PostedMoney} (h : disputeUpsert previous tenant d p variant c disputed hold = .ok row) :
    ((previous = none ∧ c = 1) ∨ ∃ r, previous = some r ∧ r.paymentId = p ∧
        (r.lastPhase = .won ∨ r.lastPhase = .lost) ∧ c = r.cycle + 1 ∧
        r.disputedAmount.currency = disputed.currency) ∧
      (hold.currency = disputed.currency ∧ 0 ≤ hold.value ∧ hold.value ≤ disputed.value) ∧
      ∃ v, row = ⟨tenant, d, p, variant, .opened, c, disputed, hold, v⟩ := by
  cases previous with
  | none =>
    simp only [disputeUpsert, Option.map_none, ok_iffs, checkOpen_eq_ok_iff,
      matching_eq_ok_iff, validateAmounts_eq_ok_iff, exists_const, true_and, reduceCtorEq,
      false_and, exists_false, or_false] at h
    obtain ⟨hc, hcur, ⟨-, h₀, hle⟩, rfl⟩ := h
    exact ⟨.inl ⟨rfl, hc⟩, ⟨hcur.symm, h₀, hle⟩, 0, rfl⟩
  | some r =>
    simp only [disputeUpsert, Option.map_some, ok_iffs, checkOpen_eq_ok_iff,
      matching_eq_ok_iff, validateAmounts_eq_ok_iff, exists_const, reduceCtorEq, false_and,
      false_or, Option.some.injEq, exists_eq_left'] at h
    obtain ⟨⟨hp, hphase, hc, -⟩, hprev, hcur, ⟨-, h₀, hle⟩, v, -, rfl⟩ := h
    exact ⟨.inr ⟨r, rfl, hp, hphase, hc, hprev⟩, ⟨hcur.symm, h₀, hle⟩, v, rfl⟩

/-- What an accepted outcome wrote: the hold stays, and is within the amount of the outcome. -/
theorem disputeAdvance_spec (h : disputeAdvance previous d phase c disputed = .ok row) :
    phase ≠ .opened ∧ ∃ r, previous = some r ∧ r.lastPhase = .opened ∧ r.cycle = c ∧
      r.disputedAmount.currency = disputed.currency ∧
      (0 ≤ r.cashHold.value ∧ r.cashHold.value ≤ disputed.value) ∧
      ∃ v, row = { r with lastPhase := phase, disputedAmount := disputed, version := v } := by
  cases previous with
  | none => simp [disputeAdvance] at h
  | some r =>
    simp only [disputeAdvance, Option.map_some, ok_iffs, checkOutcome_eq_ok_iff,
      matching_eq_ok_iff, validateAmounts_eq_ok_iff, exists_const, Option.some.injEq,
      exists_eq_left'] at h
    obtain ⟨⟨hphase, hopen, hcycle⟩, hcur, ⟨-, h₀, hle⟩, v, -, rfl⟩ := h
    exact ⟨hphase, r, rfl, hopen, hcycle, hcur, ⟨h₀, hle⟩, v, rfl⟩

end Gears.Ledger
