import Gears.Lib.Except
import Gears.Lib.Keyed
import Gears.Lib.Uuid
import Gears.Quotas.Period

/-!
# Quotas, decisions and engines

* `Quota`, `QuotaSnapshot` : a quota record and what an evaluation sees of it.
* `thresholdCrossings` : which notification thresholds a move of a counter crosses.
* `Decision`, `DebitPlan` : a verdict and the counters it moves.
* `EvaluationOutcome.validate` : the checks every engine's decision passes before it is applied.
* `mostRestrictive` : the built-in engine; `mostRestrictive_allowed` says what it charges.
-/

namespace Gears.Quotas

/-- The subject a quota is bound to. -/
structure SubjectRef where
  projectionType : String
  subjectId : String
  deriving DecidableEq, Repr

/-- The accounting model of a quota. -/
inductive QuotaType
  | consumption
  | allocation
  deriving DecidableEq, Repr

/-- Optional validity bounds, both inclusive. -/
structure ValidityWindow where
  start : Option ℤ
  «end» : Option ℤ
  deriving DecidableEq, Repr

/-- The instant lies within the bounds that are set. -/
def ValidityWindow.Contains (w : ValidityWindow) (at' : ℤ) : Prop :=
  (∀ s ∈ w.start, s ≤ at') ∧ ∀ e ∈ w.end, at' ≤ e

instance (w : ValidityWindow) (at' : ℤ) : Decidable (w.Contains at') :=
  inferInstanceAs (Decidable (_ ∧ _))

/-- A stored quota record. -/
structure Quota where
  id : Uuid
  tenantId : Uuid
  subject : SubjectRef
  metric : String
  quotaType : QuotaType
  period : Option PeriodType
  cap : Option ℕ
  notificationThresholds : List ℕ
  validityWindow : Option ValidityWindow
  active : Bool
  deriving DecidableEq, Repr

/-- The thresholds one move crossed. -/
structure ThresholdCrossing where
  quotaId : Uuid
  crossedThresholds : List ℕ
  highestCrossedThreshold : ℕ
  deriving DecidableEq, Repr

/-- The threshold lies above what was already reported. -/
def aboveMarker (marker : Option ℕ) (threshold : ℕ) : Bool :=
  match marker with
  | some seen => seen < threshold
  | none => true

/-- Which of `thresholds` the move from `pre` to `post` crossed. -/
def thresholdCrossings (quotaId : Uuid) (pre post : ℕ) (cap : Option ℕ) (thresholds : List ℕ)
    (marker : Option ℕ) : Option ThresholdCrossing := do
  let cap ← cap
  if cap = 0 ∨ post ≤ pre ∨ thresholds = [] then none
  let crossed := (thresholds.dedup.sortByKey id).filter fun threshold =>
    aboveMarker marker threshold ∧ pre * 100 < threshold * cap ∧ threshold * cap ≤ post * 100
  let highest ← crossed.getLast?
  return ⟨quotaId, crossed, highest⟩

/-! ### Decisions -/

/-- What one evaluation sees of a quota. -/
structure QuotaSnapshot where
  quotaId : Uuid
  subject : SubjectRef
  quotaType : QuotaType
  cap : Option ℕ
  consumed : ℕ
  validityWindow : Option ValidityWindow
  deriving DecidableEq, Repr

/-- What is left under the cap; none when unbounded. -/
def QuotaSnapshot.remaining (snapshot : QuotaSnapshot) : Option ℕ :=
  snapshot.cap.map (· - snapshot.consumed)

/-- Resolved subject specificity; a user quota goes before a tenant quota. -/
inductive QuotaScopeTier
  | tenant
  | user
  deriving DecidableEq, Repr

/-- One applicable quota with its tier. -/
structure EvaluationQuota where
  snapshot : QuotaSnapshot
  tier : QuotaScopeTier
  deriving DecidableEq, Repr

/-- What an engine decides on. -/
structure EvaluationContext where
  engineId : String
  amount : ℕ
  time : ℤ
  quotas : List EvaluationQuota
  deriving DecidableEq, Repr

/-- An engine's verdict. -/
inductive DecisionResult
  | allowed
  | denied (violatedQuotaIds : List Uuid) (reason : String)
  deriving DecidableEq, Repr

/-- The amounts a decision charges, one for each quota, ascending by quota. -/
structure DebitPlan where
  entries : List (Uuid × ℕ)
  sorted : (entries.map Prod.fst).Pairwise (· < ·)
  deriving DecidableEq

/-- A verdict with the counters it moves. -/
structure Decision where
  result : DecisionResult
  debitPlan : DebitPlan
  deriving DecidableEq

namespace DebitPlan

/-- The plan that moves nothing. -/
def empty : DebitPlan := ⟨[], List.Pairwise.nil⟩

/-- The plan that charges one quota. -/
def single (id : Uuid) (amount : ℕ) : DebitPlan := ⟨[(id, amount)], List.pairwise_singleton _ _⟩

theorem nodup (plan : DebitPlan) : (plan.entries.map Prod.fst).Nodup :=
  plan.sorted.imp fun h heq => by
    rw [heq] at h
    exact absurd h (BitVec.lt_irrefl _)

end DebitPlan

/-- The reason of the one denial that is not recorded. -/
def noApplicableQuota : String := "NO_APPLICABLE_QUOTA"

/-- The reason a decision was denied for. -/
def Decision.deniedReason (decision : Decision) : Option String :=
  match decision.result with
  | .allowed => none
  | .denied _ reason => some reason

/-- The invariant a debit plan breaks. -/
inductive DebitPlanInvariant
  | quotaIdOutsideApplicableSet
  | amountExceedsRequestAmount
  | resultPlanInconsistency
  deriving DecidableEq, Repr

/-- The identifier of the built-in engine. -/
def mostRestrictiveId : String := "most-restrictive-wins"

/-- A planned debit names an applicable quota and stays within the request. -/
def EvaluationOutcome.checkEntry (context : EvaluationContext) (entry : Uuid × ℕ) :
    Except DebitPlanInvariant Unit := do
  .rejectIf (entry.1 ∉ context.quotas.map (·.snapshot.quotaId)) .quotaIdOutsideApplicableSet
  .rejectIf (context.amount < entry.2) .amountExceedsRequestAmount

/-- The verdict and the plan agree. -/
def EvaluationOutcome.checkResult (decision : Decision) (context : EvaluationContext) :
    Except DebitPlanInvariant Unit :=
  match decision.result with
  | .denied _ _ => .rejectIf (decision.debitPlan.entries ≠ []) .resultPlanInconsistency
  | .allowed => do
    .rejectIf (decision.debitPlan.entries = [] ∧ context.amount ≠ 0) .resultPlanInconsistency
    .rejectIf (context.engineId = mostRestrictiveId ∧
      (decision.debitPlan.entries.length ≠ 1 ∨
        ∃ entry ∈ decision.debitPlan.entries, entry.2 ≠ context.amount)) .resultPlanInconsistency

/-- Check an engine's decision before storage may act on it. -/
def EvaluationOutcome.validate (decision : Decision) (context : EvaluationContext) :
    Except DebitPlanInvariant Decision := do
  decision.debitPlan.entries.forM (checkEntry context)
  checkResult decision context
  return decision

/-! ### The most-restrictive-wins engine -/

/-- The order in which satisfiable quotas are preferred. -/
def mostRestrictiveRank (quota : EvaluationQuota) : ℕ ×ₗ ℕ ×ₗ ℕ ×ₗ ℕ :=
  let remaining := quota.snapshot.remaining
  toLex (if quota.tier = .user then 0 else 1, toLex (if remaining.isNone then 1 else 0,
      toLex (remaining.getD 0, quota.snapshot.quotaId.toNat)))

/-- What the engine has seen so far. -/
structure MostRestrictive where
  binding : Option EvaluationQuota
  applicable : ℕ
  violated : List Uuid
  deriving DecidableEq, Repr

/-- The quota can take the whole amount. -/
def Satisfiable (amount : ℕ) (snapshot : QuotaSnapshot) : Prop :=
  ∀ value ∈ snapshot.remaining, amount ≤ value

instance (amount : ℕ) (snapshot : QuotaSnapshot) : Decidable (Satisfiable amount snapshot) :=
  inferInstanceAs (Decidable (∀ value ∈ snapshot.remaining, amount ≤ value))

/-- Take one quota into account. -/
def MostRestrictive.visit (context : EvaluationContext) (seen : MostRestrictive)
    (quota : EvaluationQuota) : MostRestrictive :=
  -- a quota outside its validity window does not count as applicable
  if ∃ window ∈ quota.snapshot.validityWindow, ¬ window.Contains context.time then seen
  else if Satisfiable context.amount quota.snapshot then
    { seen with
      applicable := seen.applicable + 1
      binding :=
        match seen.binding with
        | some previous =>
          if mostRestrictiveRank quota < mostRestrictiveRank previous then some quota
          else some previous
        | none => some quota }
  else
    { seen with
      applicable := seen.applicable + 1
      violated := seen.violated ++ [quota.snapshot.quotaId] }

/-- Charge the whole amount to the tightest quota that can take it. -/
def mostRestrictive (context : EvaluationContext) : Decision :=
  let seen := context.quotas.foldl (MostRestrictive.visit context) ⟨none, 0, []⟩
  match seen.binding with
  | some quota => ⟨.allowed, .single quota.snapshot.quotaId context.amount⟩
  | none =>
    ⟨.denied (seen.violated.sortByKey BitVec.toNat)
      (if seen.applicable = 0 then noApplicableQuota else "QUOTA_EXCEEDED"), .empty⟩

variable {context : EvaluationContext} {seen : MostRestrictive} {q quota : EvaluationQuota}

theorem MostRestrictive.visit_binding (h : (visit context seen quota).binding = some q) :
    seen.binding = some q ∨ q = quota ∧ Satisfiable context.amount quota.snapshot := by
  unfold visit at h
  split at h
  · exact .inl h
  · split at h
    · rename_i hsat
      cases hb : seen.binding with
      | none =>
        rw [hb] at h
        cases h
        exact .inr ⟨rfl, hsat⟩
      | some previous =>
        simp only [hb] at h
        split at h
        · cases h
          exact .inr ⟨rfl, hsat⟩
        · exact .inl h
    · exact .inl h

theorem MostRestrictive.foldl_binding {quotas : List EvaluationQuota}
    (h : (quotas.foldl (visit context) seen).binding = some q) :
    seen.binding = some q ∨ q ∈ quotas ∧ Satisfiable context.amount q.snapshot := by
  induction quotas generalizing seen with
  | nil => exact .inl h
  | cons quota quotas ih =>
    rcases ih h with h | ⟨hq, hsat⟩
    · rcases visit_binding h with h | ⟨rfl, hsat⟩
      · exact .inl h
      · exact .inr ⟨List.mem_cons_self, hsat⟩
    · exact .inr ⟨List.mem_cons_of_mem _ hq, hsat⟩

/-- An allowed decision charges the whole amount to one quota that can take it. -/
theorem mostRestrictive_allowed (h : (mostRestrictive context).result = .allowed) :
    ∃ q ∈ context.quotas, Satisfiable context.amount q.snapshot ∧
      (mostRestrictive context).debitPlan = .single q.snapshot.quotaId context.amount := by
  unfold mostRestrictive at h ⊢
  cases hb : (context.quotas.foldl (MostRestrictive.visit context) ⟨none, 0, []⟩).binding with
  | none => simp [hb] at h
  | some q =>
    simp only [hb]
    rcases MostRestrictive.foldl_binding hb with h | ⟨hq, hsat⟩
    · cases h
    · exact ⟨q, hq, hsat, rfl⟩

end Gears.Quotas
