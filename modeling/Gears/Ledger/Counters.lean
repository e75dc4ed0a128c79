import Gears.Ledger.Engine

/-!
# Payment counters

Each settled payment has a row of six correlated counters, and each invoice a payment was allocated
to a row of two.  A change is computed exactly, checked against all caps of the row, and only then
narrowed and written under the next version.

* `SettlementState`, `addSettlementDeltas` : the counters of a payment.
* `AllocationRefundState`, `updateAllocationRefund` : the counters of an invoice.
* `validateSettlement`, `validateAllocationRefund` : the caps.
-/

namespace Gears.Ledger

open Money List ExactAmount
open Except hiding error

/-! ### Rows -/

/-- The six correlated settlement counters. -/
inductive SettlementCounter
  | settled
  | fee
  | allocated
  | refunded
  | refundedUnallocated
  | clawedBack
  deriving DecidableEq, Repr

/-- The counters of a settled payment. -/
structure SettlementState where
  tenantId : Uuid
  paymentId : String
  version : ℤ
  settled : PostedMoney
  fee : PostedMoney
  allocated : PostedMoney
  refunded : PostedMoney
  refundedUnallocated : PostedMoney
  clawedBack : PostedMoney
  deriving DecidableEq, Repr

/-- The counters as exact values. -/
structure SettlementTotals where
  settled : ExactAmount
  fee : ExactAmount
  allocated : ExactAmount
  refunded : ExactAmount
  refundedUnallocated : ExactAmount
  clawedBack : ExactAmount
  deriving DecidableEq, Repr

/-- The value of a counter. -/
def SettlementTotals.get (v : SettlementTotals) : SettlementCounter → ExactAmount
  | .settled => v.settled
  | .fee => v.fee
  | .allocated => v.allocated
  | .refunded => v.refunded
  | .refundedUnallocated => v.refundedUnallocated
  | .clawedBack => v.clawedBack

/-- Set the value of a counter. -/
def SettlementTotals.set (v : SettlementTotals) (x : ExactAmount) :
    SettlementCounter → SettlementTotals
  | .settled => { v with settled := x }
  | .fee => { v with fee := x }
  | .allocated => { v with allocated := x }
  | .refunded => { v with refunded := x }
  | .refundedUnallocated => { v with refundedUnallocated := x }
  | .clawedBack => { v with clawedBack := x }

variable (s : SettlementState)

/-- The amount of a counter. -/
def SettlementState.get : SettlementCounter → PostedMoney
  | .settled => s.settled
  | .fee => s.fee
  | .allocated => s.allocated
  | .refunded => s.refunded
  | .refundedUnallocated => s.refundedUnallocated
  | .clawedBack => s.clawedBack

/-- Set the amount of a counter. -/
def SettlementState.set (m : PostedMoney) : SettlementCounter → SettlementState
  | .settled => { s with settled := m }
  | .fee => { s with fee := m }
  | .allocated => { s with allocated := m }
  | .refunded => { s with refunded := m }
  | .refundedUnallocated => { s with refundedUnallocated := m }
  | .clawedBack => { s with clawedBack := m }

/-- Lift all counters without narrowing. -/
def SettlementState.exact : SettlementTotals where
  settled := .fromDecimal s.settled.amount
  fee := .fromDecimal s.fee.amount
  allocated := .fromDecimal s.allocated.amount
  refunded := .fromDecimal s.refunded.amount
  refundedUnallocated := .fromDecimal s.refundedUnallocated.amount
  clawedBack := .fromDecimal s.clawedBack.amount

/-- The counters of an invoice that a payment was allocated to. -/
structure AllocationRefundState where
  tenantId : Uuid
  paymentId : String
  invoiceId : String
  version : ℤ
  allocated : PostedMoney
  refunded : PostedMoney
  deriving DecidableEq, Repr

/-! ### Changes -/

/-- Validate metadata before exact arithmetic, also of a zero delta. -/
def matching (left right : PostedMoney) : Except RepoError Unit :=
  (left.currency.ensureSame right.currency).mapError .money

@[simp] theorem matching_eq_ok_iff {l r : PostedMoney} {u : Unit} :
    matching l r = .ok u ↔ l.currency = r.currency := by
  simp [matching]

/-- Numeric contract failures are not cap failures. -/
def RepoError.ofExact : ExactError → RepoError
  | .money error => .money error
  | other => .db (exactErrorText other)

/-- The error of a breached settlement cap. -/
def settlementCap : RepoError :=
  .moneyOutCapExceeded "payment_settlement counter cap or underflow"

/-- The gross allocation and the two independent cash-out caps. -/
def validateSettlement (v : SettlementTotals) : Except RepoError Unit := do
  rejectIf (v.settled.isNegative ∨ v.fee.isNegative ∨ v.allocated.isNegative ∨
      v.refunded.isNegative ∨ v.refundedUnallocated.isNegative ∨ v.clawedBack.isNegative ∨
      v.settled < v.allocated ∨ v.settled < v.fee ∨ v.settled < v.refunded) settlementCap
  let gross ← (v.allocated.checkedAdd v.refundedUnallocated).mapError .ofExact
  rejectIf (v.settled < gross) settlementCap
  let out ← (v.refunded.checkedAdd v.clawedBack).mapError .ofExact
  rejectIf (v.settled < out) settlementCap

/-- The next version of a counter row. -/
def nextCounterVersion (version : ℤ) : Except RepoError ℤ := do
  rejectIf (version < 0) (.invalidStoredMoney "negative payment counter version")
  if version + 1 < 2 ^ 63 then return version + 1
  else .error (.db "payment counter version exhausted")

/-- Add one delta to the exact counters. -/
def addDelta (state : SettlementState) (values : SettlementTotals)
    (delta : SettlementCounter × PostedMoney) : Except RepoError SettlementTotals := do
  matching state.settled delta.2
  let value ← ((values.get delta.1).checkedAdd (.fromDecimal delta.2.amount)).mapError .ofExact
  return values.set value delta.1

/-- Narrow a changed counter and write it. -/
def writeCounter (values : SettlementTotals) (state : SettlementState)
    (counter : SettlementCounter) : Except RepoError SettlementState := do
  let value ← ((values.get counter).intoPostedExact state.settled.currency).mapError .ofExact
  return state.set value counter

variable (row : Option SettlementState) (tenant : Uuid) (payment : String)

/-- Apply counter deltas: the caps are validated once, on the combined post-state, and only the
changed counters are written. -/
def addSettlementDeltas (deltas : List (SettlementCounter × PostedMoney)) :
    Except RepoError (Option SettlementState) :=
  if deltas.isEmpty then .ok row
  else
    match row with
    | none => .error (.db ("payment_settlement absent for (" ++ tenant.text ++ ", " ++ payment ++
        "): payment not settled"))
    | some state => do
      let values ← deltas.foldlM (addDelta state) state.exact
      validateSettlement values
      let written ← (deltas.map Prod.fst).dedup.foldlM (writeCounter values) state
      let version ← nextCounterVersion state.version
      return some { written with version }

/-- Apply the delta of one counter. -/
def addSettlementCounter (counter : SettlementCounter) (delta : PostedMoney) :
    Except RepoError (Option SettlementState) :=
  addSettlementDeltas row tenant payment [(counter, delta)]

/-- A fresh row: the settled amount and its fee, and nothing taken out yet. -/
def seedSettlement (settled fee : PostedMoney) : Except RepoError SettlementState := do
  matching settled fee
  let zero ← (PostedMoney.tryNew .zero settled.currency).mapError .money
  let state : SettlementState := {
    tenantId := tenant
    paymentId := payment
    version := 0
    settled := settled
    fee := fee
    allocated := zero
    refunded := zero
    refundedUnallocated := zero
    clawedBack := zero }
  validateSettlement state.exact
  return state

/-- Count what a dispute claws back. -/
def addClawedBack (delta : PostedMoney) : Except RepoError (Option SettlementState) :=
  addSettlementCounter row tenant payment .clawedBack delta

/-- Count what is refunded. -/
def addRefunded (delta : PostedMoney) : Except RepoError (Option SettlementState) :=
  addSettlementCounter row tenant payment .refunded delta

/-- Count what is refunded of the unallocated part. -/
def addRefundedUnallocated (delta : PostedMoney) : Except RepoError (Option SettlementState) :=
  addSettlementCounter row tenant payment .refundedUnallocated delta

/-- The refunds of an invoice stay within its allocation. -/
def validateAllocationRefund (allocated refunded : ExactAmount) : Except RepoError Unit :=
  rejectIf (allocated.isNegative ∨ refunded.isNegative ∨ allocated < refunded)
    (.moneyOutCapExceeded "allocation_refund counter cap or underflow")

/-- The two correlated counters of an invoice. -/
inductive AllocationRefundCounter
  | allocated
  | refunded
  deriving DecidableEq, Repr

/-- Add to one counter of an invoice; both are checked. -/
def updateAllocationRefund (state : AllocationRefundState) (counter : AllocationRefundCounter)
    (delta : PostedMoney) : Except RepoError AllocationRefundState := do
  matching state.allocated delta
  let allocated := ExactAmount.fromDecimal state.allocated.amount
  let refunded := ExactAmount.fromDecimal state.refunded.amount
  match counter with
  | .allocated =>
    let allocated ← (allocated.checkedAdd (.fromDecimal delta.amount)).mapError .ofExact
    validateAllocationRefund allocated refunded
    let value ← (allocated.intoPostedExact state.allocated.currency).mapError .ofExact
    let version ← nextCounterVersion state.version
    return { state with allocated := value, version }
  | .refunded =>
    let refunded ← (refunded.checkedAdd (.fromDecimal delta.amount)).mapError .ofExact
    validateAllocationRefund allocated refunded
    let value ← (refunded.intoPostedExact state.allocated.currency).mapError .ofExact
    let version ← nextCounterVersion state.version
    return { state with refunded := value, version }

/-- Reserve or release a refund of an invoice. -/
def addAllocationRefundRefunded (row : Option AllocationRefundState) (tenant : Uuid)
    (payment invoice : String) (delta : PostedMoney) : Except RepoError AllocationRefundState :=
  match row with
  | none => .error (.db ("payment_allocation_refund absent for (" ++ tenant.text ++ ", " ++
      payment ++ ", " ++ invoice ++ "): invoice never allocated"))
  | some state => updateAllocationRefund state .refunded delta

/-- Add to what a payment was allocated to an invoice, starting its row when there is none. -/
def bumpAllocationRefund (row : Option AllocationRefundState) (tenant : Uuid)
    (payment invoice : String) (delta : PostedMoney) : Except RepoError AllocationRefundState :=
  match row with
  | none => do
    validateAllocationRefund (.fromDecimal delta.amount) (.fromDecimal .zero)
    return ⟨tenant, payment, invoice, 0, delta, .zero delta.currency⟩
  | some state => updateAllocationRefund state .allocated delta

/-! ### What a change did -/

@[simp] theorem SettlementState.get_set_self (m : PostedMoney)
    (c : SettlementCounter) : (s.set m c).get c = m := by
  cases c <;> rfl

theorem SettlementState.get_set_of_ne (m : PostedMoney)
    {c d : SettlementCounter} (h : d ≠ c) : (s.set m c).get d = s.get d := by
  cases c <;> cases d <;> first | rfl | exact absurd rfl h

@[simp] theorem SettlementTotals.get_set_self (v : SettlementTotals) (x : ExactAmount)
    (c : SettlementCounter) : (v.set x c).get c = x := by
  cases c <;> rfl

theorem SettlementTotals.get_set_of_ne (v : SettlementTotals) (x : ExactAmount)
    {c d : SettlementCounter} (h : d ≠ c) : (v.set x c).get d = v.get d := by
  cases c <;> cases d <;> first | rfl | exact absurd rfl h

theorem SettlementState.exact_get (c : SettlementCounter) :
    s.exact.get c = .fromDecimal (s.get c).amount := by
  cases c <;> rfl

variable {values : SettlementTotals} {deltas : List (SettlementCounter × PostedMoney)}

/-- No counter is negative, and what left the payment either way is within what settled. -/
structure WithinCaps (v : SettlementCounter → ℚ) : Prop where
  nonneg : ∀ c, 0 ≤ v c
  gross : v .allocated + v .refundedUnallocated ≤ v .settled
  out : v .refunded + v .clawedBack ≤ v .settled

/-- The counters of a row are within its caps. -/
abbrev SettlementState.Capped (s : SettlementState) : Prop := WithinCaps fun c => (s.get c).value

theorem withinCaps_of_validate {v : SettlementTotals} {u : Unit}
    (h : validateSettlement v = .ok u) : WithinCaps fun c => (v.get c).toRat := by
  simp only [validateSettlement, ok_iffs, exists_const, checkedAdd_eq_ok_iff, isNegative_iff,
    not_or, not_lt_iff, not_lt] at h
  obtain ⟨⟨hs, hf, ha, hr, hu, hc, -⟩, gross, ⟨-, -, -, hgross⟩, hcap, out, ⟨-, -, -, hout⟩,
    hcash⟩ := h
  refine ⟨fun c => ?_, hgross ▸ hcap, hout ▸ hcash⟩
  cases c <;> assumption

/-- What the deltas add to a counter. -/
def deltaOf (deltas : List (SettlementCounter × PostedMoney)) (c : SettlementCounter) : ℚ :=
  (deltas.map fun delta => if delta.1 = c then delta.2.value else 0).sum

theorem deltaOf_eq_zero {c : SettlementCounter} (h : c ∉ deltas.map Prod.fst) :
    deltaOf deltas c = 0 := by
  refine sum_eq_zero fun x hx => ?_
  obtain ⟨delta, hdelta, rfl⟩ := mem_map.1 hx
  exact if_neg fun (hc : delta.1 = c) => h (hc ▸ mem_map_of_mem hdelta)

theorem addDeltas_value {state : SettlementState} {v : SettlementTotals}
    (h : deltas.foldlM (addDelta state) v = .ok values) (c : SettlementCounter) :
    (values.get c).toRat = (v.get c).toRat + deltaOf deltas c := by
  induction deltas generalizing v with
  | nil =>
    cases h
    exact (add_zero _).symm
  | cons delta deltas ih =>
    rw [foldlM_cons, bind_eq_ok_iff] at h
    obtain ⟨next, hnext, hrest⟩ := h
    simp only [addDelta, ok_iffs, checkedAdd_eq_ok_iff, toRat_fromDecimal_amount] at hnext
    obtain ⟨-, -, value, ⟨-, -, -, hvalue⟩, rfl⟩ := hnext
    rw [ih hrest, deltaOf, deltaOf, map_cons, sum_cons, ← add_assoc]
    by_cases hc : delta.1 = c
    · rw [if_pos hc, ← hc, v.get_set_self, hvalue]
    · rw [if_neg hc, v.get_set_of_ne value (Ne.symm hc), add_zero]

theorem writeCounters_value {counters : List SettlementCounter} {state written : SettlementState}
    (h : counters.foldlM (writeCounter values) state = .ok written)
    (hstate : ∀ c ∉ counters, (state.get c).value = (values.get c).toRat) (c : SettlementCounter) :
    (written.get c).value = (values.get c).toRat := by
  induction counters generalizing state with
  | nil =>
    cases h
    exact hstate c not_mem_nil
  | cons counter counters ih =>
    rw [foldlM_cons, bind_eq_ok_iff] at h
    obtain ⟨next, hnext, hrest⟩ := h
    simp only [writeCounter, ok_iffs, intoPostedExact_eq_ok_iff] at hnext
    obtain ⟨value, ⟨-, hvalue⟩, rfl⟩ := hnext
    refine ih hrest fun d hd => ?_
    by_cases hdc : d = counter
    · rw [hdc, state.get_set_self, hvalue]
    · rw [state.get_set_of_ne value hdc, hstate d (by simp [hd, hdc])]

/-- **What a change did**: it had no deltas, or it added them to a row and met its caps. -/
theorem addSettlementDeltas_spec {row row' : Option SettlementState} {tenant : Uuid}
    {payment : String} (h : addSettlementDeltas row tenant payment deltas = .ok row') :
    deltas = [] ∧ row' = row ∨ ∃ state state', row = some state ∧ row' = some state' ∧
      state'.Capped ∧ ∀ c, (state'.get c).value = (state.get c).value + deltaOf deltas c := by
  unfold addSettlementDeltas at h
  split at h
  case isTrue hnil =>
    cases h
    exact .inl ⟨isEmpty_iff.1 hnil, rfl⟩
  case isFalse =>
    cases row with
    | none => cases h
    | some state =>
      simp only [ok_iffs] at h
      obtain ⟨values, hvalues, _, hvalid, written, hwritten, version, -, rfl⟩ := h
      have hsum (c : SettlementCounter) :
          (values.get c).toRat = (state.get c).value + deltaOf deltas c := by
        rw [addDeltas_value hvalues, state.exact_get, toRat_fromDecimal_amount]
      -- a counter without a delta keeps the value that was checked
      have hvalue := writeCounters_value hwritten fun c hc => by
        rw [hsum, deltaOf_eq_zero (by rwa [mem_dedup] at hc), add_zero]
      have hcaps := withinCaps_of_validate hvalid
      rw [← funext hvalue] at hcaps
      exact .inr ⟨state, _, rfl, rfl, hcaps, fun c => (hvalue c).trans (hsum c)⟩

end Gears.Ledger
