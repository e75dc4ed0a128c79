import Gears.Ledger.DisputeLedger

/-!
# No dispute strands the cash it holds

* `hold_eq`, `disputedAt_eq` : what a phase moves into the hold, and into a disputed receivable.
* `VersionsAgree` : a stale row that is open at the current cycle is the current row.
* `cash_hold_never_stranded` : the hold of every dispute, over any history.
-/

namespace Gears.Ledger

open Money Except List Function

variable {accounts : Accounts} {built lines : List NewLine} {L L' : DisputeLedger}
  {settlement : Option SettlementState} {k : BusinessKey} {existing : Option DisputeState}
  {input : ChargebackInput} {req : ChargebackRequest} {reads : PhaseReads} {plan : PhasePlan}
  {net : PostedMoney} {next seen : DisputeState}

/-- A posted line and the built line that it comes from. -/
def BoundFrom (accounts : Accounts) (tenant : Uuid) (l l' : NewLine) : Prop :=
  ∃ account functional, accounts.resolve tenant l.accountClass l.money.currency.code
      l.revenueStream = some account ∧
    l' = { l with accountId := account, functionalMoney := functional }

theorem applyFxCarryForward_spec {carried : Option (PostedMoney × Option PostedMoney)}
    {entry entry' : PostEntry} (h : applyFxCarryForward carried entry = .ok entry') :
    ∃ lines, entry' = { entry with lines } ∧
      Forall₂ (fun l l' => ∃ f, l' = { l with functionalMoney := f }) entry.lines lines := by
  have hsame : ∃ lines, entry = { entry with lines } ∧ Forall₂
      (fun l l' => ∃ f, l' = { l with functionalMoney := f }) entry.lines lines :=
    ⟨entry.lines, rfl, forall₂_same.2 fun l _ => ⟨l.functionalMoney, rfl⟩⟩
  unfold applyFxCarryForward at h
  split at h
  · simp only [bind_eq_ok_iff] at h
    obtain ⟨-, -, h⟩ := h
    split at h
    · cases h
      exact hsame
    · simp only [ok_iffs, mapM_eq_ok_iff] at h
      obtain ⟨lines, hlines, rfl⟩ := h
      refine ⟨lines, rfl, hlines.imp fun l l' hl => ?_⟩
      obtain ⟨f, -, rfl⟩ := hl
      exact ⟨some f, rfl⟩
  · cases h
    exact hsame

theorem boundFrom_of_bind {tenant : Uuid} {bound : List NewLine}
    (hb : Forall₂ (fun l l' => bindLine accounts tenant l = .ok l') built bound)
    (hf : Forall₂ (fun l l' => ∃ f, l' = { l with functionalMoney := f }) bound lines) :
    Forall₂ (BoundFrom accounts tenant) built lines := by
  induction hb generalizing lines with
  | nil =>
    cases hf
    exact .nil
  | cons hl _ ih =>
    cases hf with
    | cons hf hrest =>
      obtain ⟨account, ha, rfl⟩ := bindLine_eq_ok_iff.1 hl
      obtain ⟨f, rfl⟩ := hf
      exact .cons ⟨account, f, ha, rfl⟩ (ih hrest)

theorem heldCash_value (input : ChargebackInput) (supplied : PostedMoney) :
    (heldCash input supplied).value = min supplied.value input.disputedAmount.value := by
  unfold heldCash
  split
  · rename_i h
    exact (min_eq_left (Decimal.lt_iff.1 h).le).symm
  · rename_i h
    rw [Decimal.lt_iff, not_lt] at h
    exact (min_eq_right h).symm

theorem minPosted_eq_ok {a b m : PostedMoney} (h : minPosted a b = .ok m) :
    a.currency = b.currency ∧ m.value = min a.value b.value := by
  simp only [minPosted, ok_iffs, matchingSpec_eq_ok_iff, exists_const] at h
  obtain ⟨hc, rfl⟩ := h
  refine ⟨hc, ?_⟩
  split
  · rename_i h
    exact (min_eq_right (Decimal.lt_iff.1 h).le).symm
  · rename_i h
    rw [Decimal.lt_iff, not_lt] at h
    exact (min_eq_left h).symm

/-- What an accepted plan was made from. -/
structure PlanOf (accounts : Accounts) (existing : Option DisputeState) (req : ChargebackRequest)
    (reads : PhaseReads) (plan : PhasePlan) (net : PostedMoney) (built : List NewLine) : Prop where
  input : ∃ variant, phaseVariant existing req = .ok variant ∧ plan.input = req.input variant
  supplied : suppliedCash existing reads.netSettlement plan.input = .ok net
  currency : net.currency = req.disputedAmount.currency
  cashHold : plan.cashHold.value = min net.value req.disputedAmount.value
  clawedBack : clawedBackOnPost plan.input net = .ok plan.clawedBack
  disputed_pos : 0 < req.disputedAmount.value
  lines : chargebackLines reads.fresh plan.input (heldCash plan.input net) = .ok built
  tenant : plan.entry.tenantId = req.tenantId
  bound : Forall₂ (BoundFrom accounts req.tenantId) built plan.entry.lines

theorem planPhase_spec (h : planPhase accounts existing req reads = .ok plan) :
    ∃ net built, PlanOf accounts existing req reads plan net built := by
  simp only [planPhase, ok_iffs, bindLines_eq_ok_iff, buildChargebackEntry,
    matchingSpec_eq_ok_iff, exists_const] at h
  obtain ⟨variant, hvariant, net, hnet, hold, hhold, clawed, hclawed, -, -, entry, ⟨-, hpos, -,
    built, hbuilt, rfl⟩, bound, ⟨lines, hbound, rfl⟩, entry', hfx, rfl⟩ := h
  obtain ⟨hcur, hmin⟩ := minPosted_eq_ok hhold
  obtain ⟨lines', rfl, hstamped⟩ := applyFxCarryForward_spec hfx
  rw [Decimal.le_iff, Decimal.toRat_zero, not_le] at hpos
  exact ⟨net, built,
    { input := ⟨variant, hvariant, rfl⟩
      supplied := hnet
      currency := hcur
      cashHold := hmin
      clawedBack := hclawed
      disputed_pos := hpos
      lines := hbuilt
      tenant := rfl
      bound := boundFrom_of_bind hbound hstamped }⟩

/-! ### What a phase moves -/

/-- The sign of a phase: an opening moves in, an outcome moves out. -/
def DisputePhase.sign : DisputePhase → ℚ
  | .opened => 1
  | _ => -1

/-- The row of the receivable that a phase names. -/
def receivable (accounts : Accounts) (input : ChargebackInput) : Option BusinessKey :=
  match input.invoiceId,
    accounts.resolve input.tenantId .ar input.disputedAmount.currency.code none with
  | some invoice, some account =>
    some (.arInvoice input.tenantId input.payerTenantId account invoice)
  | _, _ => none

theorem requireInvoiceId_eq_ok_iff {invoice : String} :
    requireInvoiceId input = .ok invoice ↔ input.invoiceId = some invoice := by
  unfold requireInvoiceId
  cases input.invoiceId <;> simp

theorem chargebackLines_cases {fresh : ℕ → Uuid} {held : PostedMoney}
    (h : chargebackLines fresh input held = .ok built) : (input.variant = .cashHold ∧
      (input.phase = .opened ∧ holdLines fresh input .disputeHold .cashClearing held = built ∨
        input.phase = .won ∧ holdLines fresh input .cashClearing .disputeHold held = built ∨
        input.phase = .lost ∧
          holdLines fresh input .disputeLossExpense .disputeHold held = built)) ∨
    (input.variant = .arReclass ∧ ∃ invoice, input.invoiceId = some invoice ∧
      (input.phase = .opened ∧ [arLine input (fresh 1) invoice .debit arStatusDisputed,
          arLine input (fresh 2) invoice .credit arStatusActive] = built ∨
        input.phase = .won ∧ [arLine input (fresh 1) invoice .debit arStatusActive,
          arLine input (fresh 2) invoice .credit arStatusDisputed] = built ∨
        input.phase = .lost ∧ [cashLine input (fresh 1) .disputeLossExpense .debit
          input.disputedAmount, arLine input (fresh 2) invoice .credit arStatusDisputed] =
            built)) := by
  cases hp : input.phase with
  | partialOutcome => simp [chargebackLines, hp] at h
  | opened | won | lost =>
    cases hv : input.variant with
    | cashHold =>
      exact .inl ⟨rfl, by simpa [chargebackLines, hv, hp, openedCashHoldLines, wonCashHoldLines,
        lostCashHoldLines] using h⟩
    | arReclass =>
      exact .inr ⟨rfl, by simpa [chargebackLines, hv, hp, openedArReclassLines, wonArReclassLines,
        lostArReclassLines, arReclassLines, requireInvoiceId_eq_ok_iff]
        using h⟩

theorem boundFrom_pair {tenant : Uuid} {first second : NewLine}
    (h : Forall₂ (BoundFrom accounts tenant) [first, second] lines) :
    ∃ first' second', lines = [first', second'] ∧ BoundFrom accounts tenant first first' ∧
      BoundFrom accounts tenant second second' := by
  simp only [forall₂_cons_left_iff, forall₂_nil_left_iff] at h
  obtain ⟨first', _, h₁, ⟨second', _, h₂, rfl, rfl⟩, rfl⟩ := h
  exact ⟨first', second', rfl, h₁, h₂⟩

theorem disputedAt_cashLine {lineId : Uuid} {accountClass : AccountClass} {side : Side}
    {amount : PostedMoney} {l : NewLine}
    (hl : BoundFrom accounts input.tenantId (cashLine input lineId accountClass side amount) l) :
    l.disputedAt input.tenantId k = 0 := by
  obtain ⟨account, f, -, rfl⟩ := hl
  simp [NewLine.disputedAt, cashLine, paymentLine, NewLine.plain]

/-- A posted line on the receivable lies in the row that the phase names, and in no other. -/
theorem disputedAt_arLine {lineId : Uuid} {invoice status : String} {side : Side} {l : NewLine}
    (hl : BoundFrom accounts input.tenantId (arLine input lineId invoice side status) l)
    (hi : input.invoiceId = some invoice) (hk : k.table = .arInvoice) :
    l.disputedAt input.tenantId k =
      if receivable accounts input = some k ∧ status = arStatusDisputed then match side with
        | .debit => input.disputedAmount.value | .credit => -input.disputedAmount.value else 0 := by
  obtain ⟨account, f, ha, rfl⟩ := hl
  have hrec : receivable accounts input =
      some (.arInvoice input.tenantId input.payerTenantId account invoice) := by
    simp only [arLine, cashLine, paymentLine, NewLine.plain] at ha
    simp only [receivable, hi, ha]
  rw [hrec]
  cases k with
  | arInvoice t p a i =>
    cases side <;>
      simp [NewLine.disputedAt, Covers, arLine, cashLine, paymentLine, NewLine.plain,
        NewLine.debitValue, eq_comm]
  | _ => cases hk

section Moves

variable (h : PlanOf accounts existing req reads plan net built)

include h

theorem PlanOf.disputedAmount : plan.input.disputedAmount = req.disputedAmount := by
  obtain ⟨variant, -, hin⟩ := h.input
  rw [hin]
  rfl

/-- **What a phase moves into the hold**: the sized cash, in or out. -/
theorem hold_eq : plan.hold = match plan.input.variant with
    | .cashHold => plan.input.phase.sign * min net.value req.disputedAmount.value
    | .arReclass => 0 := by
  have hval := heldCash_value plan.input net
  rw [h.disputedAmount] at hval
  have hbound := h.bound
  rw [← hval]
  -- every phase has two legs, and at most one of them is on the hold
  rcases chargebackLines_cases h.lines with ⟨hv, hcases⟩ | ⟨hv, invoice, hi, hcases⟩
  all_goals
    rcases hcases with ⟨hp, rfl⟩ | ⟨hp, rfl⟩ | ⟨hp, rfl⟩ <;>
    obtain ⟨_, _, hlines, ⟨a, f, ha, rfl⟩, b, g, hb, rfl⟩ := boundFrom_pair hbound <;>
    simp [PhasePlan.hold, NewLine.hold, hlines, hv, hp, cashLine, arLine, paymentLine,
      NewLine.plain,
      NewLine.debitValue, DisputePhase.sign]

/-- **What a phase moves into the disputed part of a row**: the whole disputed amount, in or out of
the receivable that the phase names. -/
theorem disputedAt_eq (hk : k.table = .arInvoice) :
    plan.disputedAt k = match plan.input.variant with
      | .cashHold => 0
      | .arReclass => if receivable accounts plan.input = some k
          then plan.input.phase.sign * req.disputedAmount.value else 0 := by
  obtain ⟨variant, -, hin⟩ := h.input
  have htenant : req.tenantId = plan.input.tenantId := by rw [hin]; rfl
  have hbound := h.bound
  rw [htenant] at hbound
  rw [← h.disputedAmount, PhasePlan.disputedAt, h.tenant, htenant]
  rcases chargebackLines_cases h.lines with ⟨hv, hcases⟩ | ⟨hv, invoice, hi, hcases⟩
  · rw [hv]
    rcases hcases with ⟨hp, rfl⟩ | ⟨hp, rfl⟩ | ⟨hp, rfl⟩
    all_goals
      obtain ⟨l₁, l₂, hlines, h₁, h₂⟩ := boundFrom_pair hbound
      simp [hlines, disputedAt_cashLine h₁, disputedAt_cashLine h₂]
  · rw [hv]
    have hne : arStatusActive ≠ arStatusDisputed := by decide
    rcases hcases with ⟨hp, rfl⟩ | ⟨hp, rfl⟩ | ⟨hp, rfl⟩ <;>
      obtain ⟨l₁, l₂, hlines, h₁, h₂⟩ := boundFrom_pair hbound
    · simp [hlines, hp, disputedAt_arLine h₁ hi hk, disputedAt_arLine h₂ hi hk, hne,
        DisputePhase.sign]
    · simp [hlines, hp, disputedAt_arLine h₁ hi hk, disputedAt_arLine h₂ hi hk, hne,
        DisputePhase.sign]
    · simp [hlines, hp, disputedAt_cashLine h₁, disputedAt_arLine h₂ hi hk, DisputePhase.sign]

end Moves

/-- The row that a request reads outside its transaction. -/
def seenRow (L : DisputeLedger) (req : ChargebackRequest) (reads : PhaseReads) :
    Option DisputeState :=
  ((L.disputes (req.tenantId, req.disputeId)).drop reads.disputeAge).head?

/-- The dispute that a request names. -/
abbrev ChargebackRequest.dispute (req : ChargebackRequest) : Uuid × String :=
  (req.tenantId, req.disputeId)

/-- What an accepted request did: the plan that was posted and the row that was written. -/
structure Recorded (accounts : Accounts) (L : DisputeLedger) (req : ChargebackRequest)
    (reads : PhaseReads) (L' : DisputeLedger) (plan : PhasePlan) (next : DisputeState) : Prop where
  planned : ∃ net built, PlanOf accounts (seenRow L req reads) req reads plan net built
  disputes : L'.disputes = Function.update L.disputes req.dispute
    (next :: L.disputes req.dispute)
  phases : L'.phases = L.phases ++ [plan]
  dispute : plan.dispute = req.dispute
  write : writeDispute (L.row req.dispute) plan = .ok next

theorem recordPhase_spec (h : recordPhase accounts L req reads = .ok L') :
    ∃ plan next, Recorded accounts L req reads L' plan next := by
  simp only [recordPhase, commitPhase, ok_iffs] at h
  obtain ⟨plan, hplan, -, -, caches, -, next, hnext, settlement, -, rfl⟩ := h
  obtain ⟨net, built, hspec⟩ := planPhase_spec hplan
  have hdispute : plan.dispute = req.dispute := by
    obtain ⟨variant, -, hin⟩ := hspec.input
    rw [PhasePlan.dispute, hin]
    rfl
  rw [hdispute] at hnext
  exact ⟨plan, next, ⟨net, built, hspec⟩, by rw [hdispute], rfl, hdispute, hnext⟩

/-- The variant is chosen at an opening; an outcome takes it from an open row of its cycle. -/
theorem phaseVariant_cases {variant : DisputeVariant}
    (h : phaseVariant existing req = .ok variant) :
    (req.phase = .opened ∧ variant = req.fundsAtOpen.variant) ∨
    ((req.phase = .won ∨ req.phase = .lost) ∧ ∃ seen, existing = some seen ∧
      seen.lastPhase = .opened ∧ seen.cycle = req.cycle ∧ variant = seen.variant) := by
  cases hp : req.phase with
  | opened =>
    simp only [phaseVariant, hp, ok_iffs] at h
    obtain ⟨-, -, rfl⟩ := h
    exact .inl ⟨rfl, rfl⟩
  | won | lost =>
    simp only [phaseVariant, hp, bind_eq_ok_iff, guardTransition, mapError_eq_ok_iff] at h
    obtain ⟨⟨⟩, hguard, h⟩ := h
    obtain ⟨-, r, hr, hopen, hcycle⟩ := checkOutcome_eq_ok_iff.1 hguard
    obtain ⟨seen, rfl, rfl⟩ := Option.map_eq_some_iff.1 hr
    cases h
    exact .inr ⟨by simp, seen, rfl, hopen, hcycle, rfl⟩
  | partialOutcome =>
    simp only [phaseVariant, hp, reduceCtorEq] at h

/-- **The two kinds of accepted requests.**  An opening writes a fresh open row after a resolved
one; an outcome resolves the current row, having read an open row of the same cycle. -/
theorem Recorded.cases (h : Recorded accounts L req reads L' plan next) :
    (req.phase = .opened ∧ plan.input = req.input req.fundsAtOpen.variant ∧
      disputeUpsert (L.row req.dispute) req.tenantId req.disputeId req.paymentId
        req.fundsAtOpen.variant req.cycle req.disputedAmount plan.cashHold = .ok next) ∨
    ((req.phase = .won ∨ req.phase = .lost) ∧ ∃ seen, seenRow L req reads = some seen ∧
      seen.lastPhase = .opened ∧ seen.cycle = req.cycle ∧ plan.input = req.input seen.variant ∧
      disputeAdvance (L.row req.dispute) req.disputeId req.phase req.cycle
        req.disputedAmount = .ok next) := by
  obtain ⟨net, built, hplan⟩ := h.planned
  obtain ⟨variant, hvariant, hin⟩ := hplan.input
  have hwrite := h.write
  rcases phaseVariant_cases hvariant with ⟨hp, rfl⟩ | ⟨hp, seen, hseen, hopen, hcycle, rfl⟩
  · refine .inl ⟨hp, hin, ?_⟩
    rw [writeDispute, hin] at hwrite
    simp only [ChargebackRequest.input, hp, mapError_eq_ok_iff] at hwrite
    exact hwrite
  · refine .inr ⟨hp, seen, hseen, hopen, hcycle, hin, ?_⟩
    rw [writeDispute, hin] at hwrite
    rcases hp with hp | hp <;>
      simpa only [ChargebackRequest.input, hp, mapError_eq_ok_iff] using hwrite

/-! ### The versions of a row -/

/-- No version of a row is ahead of the current one, and a version that is open at the cycle of an
open current row is that row. -/
def VersionsAgree (L : DisputeLedger) : Prop :=
  ∀ dispute row, L.row dispute = some row → ∀ v ∈ L.disputes dispute, v.cycle ≤ row.cycle ∧
    (v.cycle = row.cycle → v.lastPhase = .opened → row.lastPhase = .opened → v = row)

/-- A request that read an open row of the current cycle read the current row. -/
theorem VersionsAgree.current (hL : VersionsAgree L) {row : DisputeState}
    (hseen : seenRow L req reads = some seen) (hrow : L.row req.dispute = some row)
    (hopen : seen.lastPhase = .opened) (hopen' : row.lastPhase = .opened)
    (hcycle : seen.cycle = row.cycle) : seen = row := by
  have hmem : seen ∈ L.disputes req.dispute :=
    mem_of_mem_drop (mem_of_head? hseen)
  exact (hL _ row hrow seen hmem).2 hcycle hopen hopen'

section Step

variable (h : Recorded accounts L req reads L' plan next)

include h

theorem Recorded.row_self : L'.row req.dispute = some next := by
  rw [DisputeLedger.row, h.disputes, update_self, head?_cons]

theorem Recorded.row_of_ne {dispute : Uuid × String} (hne : dispute ≠ req.dispute) :
    L'.row dispute = L.row dispute := by
  rw [DisputeLedger.row, h.disputes, update_of_ne hne]
  rfl

theorem Recorded.versionsAgree (hL : VersionsAgree L) : VersionsAgree L' := by
  intro dispute row hrow v hv
  by_cases hd : dispute = req.dispute
  · subst hd
    rw [h.row_self] at hrow
    cases hrow
    rw [h.disputes, update_self] at hv
    rcases mem_cons.1 hv with rfl | hmem
    · exact ⟨le_rfl, fun _ _ _ => rfl⟩
    rcases h.cases with ⟨-, -, hwrite⟩ | ⟨-, -, -, -, -, -, hwrite⟩
    · obtain ⟨hprev, -, version, rfl⟩ := disputeUpsert_spec hwrite
      rcases hprev with ⟨hnone, -⟩ | ⟨r, hr, -, -, hcycle, -⟩
      · -- the first opening: there is no older version
        rw [head?_eq_none_iff.1 hnone] at hmem
        cases hmem
      · -- a reopening is a cycle ahead of every older version
        have hle := (hL _ r hr v hmem).1
        refine ⟨by simp only [hcycle]; omega, fun heq => ?_⟩
        simp only [hcycle] at heq
        omega
    · obtain ⟨hphase, r, hr, hopen, -, -, -, version, rfl⟩ := disputeAdvance_spec hwrite
      exact ⟨(hL _ r hr v hmem).1, fun _ _ hopen' => absurd hopen' hphase⟩
  · rw [h.row_of_ne hd] at hrow
    rw [h.disputes, update_of_ne hd] at hv
    exact hL dispute row hrow v hv

theorem Recorded.phasesOf_self : L'.phasesOf req.dispute = L.phasesOf req.dispute ++ [plan] := by
  rw [DisputeLedger.phasesOf, h.phases, filter_append, filter_singleton, h.dispute,
    decide_eq_true rfl]
  rfl

theorem Recorded.phasesOf_of_ne {dispute : Uuid × String}
    (hne : dispute ≠ req.dispute) : L'.phasesOf dispute = L.phasesOf dispute := by
  rw [DisputeLedger.phasesOf, h.phases, filter_append, filter_singleton, h.dispute,
    decide_eq_false hne.symm]
  exact append_nil _

theorem Recorded.holdOf_self : L'.holdOf req.dispute = L.holdOf req.dispute + plan.hold := by
  rw [DisputeLedger.holdOf, h.phasesOf_self]
  simp [DisputeLedger.holdOf]

end Step

/-! ### The hold -/

/-- What a dispute with this row has in the hold. -/
def expectedHold : Option DisputeState → ℚ
  | some row => if row.lastPhase = .opened then row.cashHold.value else 0
  | none => 0

/-- Every dispute has in the hold what its row says, and a receivable holds no cash. -/
structure HoldAgrees (L : DisputeLedger) : Prop where
  versions : VersionsAgree L
  hold : ∀ dispute, L.holdOf dispute = expectedHold (L.row dispute)
  reclass : ∀ dispute row, L.row dispute = some row → row.variant = .arReclass →
    row.cashHold.value = 0
  clawback : ∀ plan ∈ L.phases, plan.input.phase = .lost → plan.clawedBack.value = -plan.hold

theorem suppliedCash_arReclass (hv : input.variant = .arReclass)
    (h : suppliedCash existing settlement input = .ok net) : net.value = 0 := by
  simp only [suppliedCash, hv, zeroPosted_eq, Except.ok.injEq] at h
  rw [← h]
  exact Decimal.toRat_zero

/-- What a lost phase reports as clawed back is what it moves out of the hold. -/
theorem clawedBack_eq (h : PlanOf accounts existing req reads plan net built)
    (hlost : plan.input.phase = .lost) : plan.clawedBack.value = -plan.hold := by
  have hclaw := h.clawedBack
  rw [hold_eq h, hlost]
  cases hv : plan.input.variant with
  | cashHold =>
    simp only [clawedBackOnPost, hlost, hv, ok_iffs] at hclaw
    obtain ⟨-, -, -, -, hclaw⟩ := hclaw
    rw [← hclaw, heldCash_value, h.disputedAmount]
    simp [DisputePhase.sign]
  | arReclass =>
    simp only [clawedBackOnPost, hlost, hv, bind_eq_ok_iff, zeroPosted_eq, Except.ok.injEq] at hclaw
    obtain ⟨-, -, hclaw⟩ := hclaw
    rw [← hclaw]
    exact Decimal.toRat_zero

/-- The hold stored at an opening is the sized cash, or nothing for a receivable. -/
theorem cashHold_arReclass (h : PlanOf accounts existing req reads plan net built)
    (hv : plan.input.variant = .arReclass) : plan.cashHold.value = 0 := by
  rw [h.cashHold, suppliedCash_arReclass hv h.supplied]
  exact min_eq_left h.disputed_pos.le

theorem suppliedCash_outcome (hv : input.variant = .cashHold)
    (hp : input.phase = .won ∨ input.phase = .lost)
    (h : suppliedCash (some seen) settlement input = .ok net) : net = seen.cashHold := by
  rcases hp with hp | hp <;>
    simpa [suppliedCash, hv, hp, eq_comm] using h

/-- **One request keeps every hold in step with its row.** -/
theorem Recorded.holdAgrees (h : Recorded accounts L req reads L' plan next) (hL : HoldAgrees L) :
    HoldAgrees L' := by
  obtain ⟨net, built, hplan⟩ := h.planned
  have hsum := h.holdOf_self
  rw [hL.hold, hold_eq hplan] at hsum
  refine ⟨h.versionsAgree hL.versions, fun dispute => ?_, fun dispute row hrow hv => ?_,
    fun p hp hlost => ?_⟩
  · by_cases hd : dispute = req.dispute
    · subst hd
      rw [h.row_self, hsum]
      rcases h.cases with ⟨hphase, hin, hwrite⟩ | ⟨hphase, seen, hseen, hopen, hcycle, hin, hwrite⟩
      · -- an opening follows no row or a resolved one, so nothing was held
        obtain ⟨hprev, -, version, rfl⟩ := disputeUpsert_spec hwrite
        have hzero : expectedHold (L.row req.dispute) = 0 := by
          rcases hprev with ⟨hnone, -⟩ | ⟨r, hr, -, hresolved, -⟩
          · rw [hnone]
            rfl
          · rw [hr]
            rcases hresolved with hr' | hr' <;> simp [expectedHold, hr']
        have hp : plan.input.phase = .opened := by rw [hin]; exact hphase
        rw [hzero, zero_add]
        show _ = plan.cashHold.value
        cases hv : plan.input.variant with
        | cashHold => rw [hplan.cashHold, hp, DisputePhase.sign, one_mul]
        | arReclass => exact (cashHold_arReclass hplan hv).symm
      · -- an outcome read the current row, and releases its whole hold
        obtain ⟨hne, r, hr, hopen', hcycle', -, hle, version, rfl⟩ := disputeAdvance_spec hwrite
        obtain rfl := hL.versions.current hseen hr hopen hopen' (hcycle.trans hcycle'.symm)
        have hp : plan.input.phase = .won ∨ plan.input.phase = .lost := by rw [hin]; exact hphase
        have hsign : plan.input.phase.sign = -1 := by
          rcases hp with hp | hp <;> rw [hp] <;> rfl
        rw [hr]
        simp only [expectedHold, hopen, hne, if_true, if_false]
        cases hv : plan.input.variant with
        | cashHold =>
          have hnet := hplan.supplied
          rw [hseen] at hnet
          rw [suppliedCash_outcome hv hp hnet, min_eq_left hle.2, hsign]
          ring
        | arReclass =>
          have hv' : seen.variant = .arReclass := by
            rw [hin] at hv
            exact hv
          simp only [hL.reclass _ seen hr hv', add_zero]
    · rw [h.row_of_ne hd, DisputeLedger.holdOf, h.phasesOf_of_ne hd]
      exact hL.hold dispute
  · by_cases hd : dispute = req.dispute
    · subst hd
      rw [h.row_self] at hrow
      cases hrow
      rcases h.cases with ⟨-, hin, hwrite⟩ | ⟨-, -, -, -, -, -, hwrite⟩
      · obtain ⟨-, -, version, rfl⟩ := disputeUpsert_spec hwrite
        exact cashHold_arReclass hplan (by rw [hin]; exact hv)
      · obtain ⟨-, r, hr, -, -, -, -, version, rfl⟩ := disputeAdvance_spec hwrite
        exact hL.reclass _ r hr hv
    · rw [h.row_of_ne hd] at hrow
      exact hL.reclass dispute row hrow hv
  · rw [h.phases, mem_append, mem_singleton] at hp
    rcases hp with hp | rfl
    · exact hL.clawback p hp hlost
    · exact clawedBack_eq hplan hlost

theorem step_holdAgrees {event : LedgerEvent} (hL : HoldAgrees L)
    (h : L.step accounts event = .ok L') : HoldAgrees L' := by
  cases event with
  | phase req reads =>
    obtain ⟨plan, next, hrec⟩ := recordPhase_spec h
    exact hrec.holdAgrees hL
  | posting P =>
    simp only [DisputeLedger.step, ok_iffs] at h
    obtain ⟨caches, -, rfl⟩ := h
    exact { hL with }
  | settlement payment state =>
    cases h
    exact { hL with }

/-- **A cash hold is never stranded.**  After any history of accepted chargeback requests, stale
reads, other postings and other changes of the settlements, a dispute has its stored hold in the
hold exactly while it is open, and nothing once it is won or lost; and what a lost phase reports as
clawed back is what its entry moved out of the hold. -/
theorem cash_hold_never_stranded {accounts : Accounts}
    {settlements : Uuid × String → Option SettlementState} {caches : Caches}
    {events : List LedgerEvent} {L : DisputeLedger}
    (h : Machine.run (DisputeLedger.step accounts) (.start settlements caches) events = .ok L)
    (dispute : Uuid × String) : (L.row dispute = none → L.holdOf dispute = 0) ∧
      (∀ row, L.row dispute = some row →
        (row.lastPhase = .opened → L.holdOf dispute = row.cashHold.value) ∧
        (row.lastPhase = .won ∨ row.lastPhase = .lost → L.holdOf dispute = 0)) ∧
      ∀ plan ∈ L.phasesOf dispute, plan.input.phase = .lost →
        plan.clawedBack.value = -plan.hold := by
  have hstart : HoldAgrees (.start settlements caches) :=
    ⟨fun _ _ hrow => (by cases hrow), fun _ => rfl, fun _ _ hrow => (by cases hrow),
      fun _ hp => (by cases hp)⟩
  have hL := Machine.run_invariant (fun _ _ _ hL hs => step_holdAgrees hL hs) h hstart
  have hhold := hL.hold dispute
  refine ⟨fun hnone => ?_, fun row hrow => ?_, fun plan hp hlost => ?_⟩
  · rw [hhold, hnone]
    rfl
  · rw [hrow] at hhold
    refine ⟨fun hopen => ?_, fun hresolved => ?_⟩
    · rw [hhold, expectedHold, if_pos hopen]
    · rw [hhold, expectedHold]
      rcases hresolved with hr | hr <;> simp [hr]
  · exact hL.clawback plan (mem_of_mem_filter hp) hlost

/-- A chart with one account for each class, whatever the tenant and the currency. -/
def sampleAccounts : Accounts where
  byKey := fun _ accountClass _ _ => some (match accountClass with
    | .ar => 100
    | .cashClearing => 101
    | .disputeHold => 102
    | .disputeLossExpense => 103
    | .unallocated => 200
    | _ => 201)
  normalSides := fun account => if account.toNat < 200 then some .debit else some .credit

/-- Money of another flow: a debit and a credit of the sample payer. -/
def sampleTransfer (debit credit : NewLine) : Posting where
  entry := sampleEntry 1
  lines := [debit, credit]
  normalSides := sampleAccounts.normalSides
  createdSeq := 1

/-- The counters of a payment of so many cents, with a fee. -/
def sampleCounters (settled fee : PostedMoney) : SettlementState where
  tenantId := 9
  paymentId := "pay-1"
  version := 0
  settled := settled
  fee := fee
  allocated := .zero settled.currency
  refunded := .zero settled.currency
  refundedUnallocated := .zero settled.currency
  clawedBack := .zero settled.currency

/-- A request on a payment of the sample tenant. -/
def sampleChargeback (funds : FundsAtOpen) (cycle : ℤ) (phase : DisputePhase)
    (amount : PostedMoney) : ChargebackRequest where
  tenantId := 9
  payerTenantId := 7
  paymentId := "pay-1"
  disputeId := "dsp-1"
  invoiceId := some "inv-1"
  cycle := cycle
  phase := phase
  fundsAtOpen := funds
  disputedAmount := amount
  effectiveAt := none

/-- What a request reads beside the ledger. -/
def sampleReads (settlement : Option SettlementState) : PhaseReads where
  disputeAge := 0
  netSettlement := settlement
  refundSettlement := settlement
  carried := none
  fresh := BitVec.ofNat 128
  stamp := ⟨"202601", epochDate, 4, 5⟩
  now := sampleInstant
  createdSeq := 1

/-- A hundred dollars less a fee of three: opened, half returned, won, opened again and lost. -/
def sampleHoldEvents : List LedgerEvent :=
  let settled := sampleCounters (.cents 10000) (.cents 300)
  let returned := sampleCounters (.cents 5000) (.cents 150)
  let amount := .cents 10000
  [.posting (sampleTransfer
      (.plain 1 7 101 .cashClearing .debit (.cents 9700))
      (.plain 2 7 200 .unallocated .credit (.cents 9700))),
    .phase (sampleChargeback .withheld 1 .opened amount) (sampleReads (some settled)),
    .settlement (9, "pay-1") (some returned),
    .phase (sampleChargeback .withheld 1 .won amount) (sampleReads (some returned)),
    .phase (sampleChargeback .withheld 2 .opened (.cents 2000))
      (sampleReads (some returned)),
    .phase (sampleChargeback .withheld 2 .lost (.cents 2500))
      (sampleReads (some returned))]

theorem cash_hold_never_stranded_sample : ∃ L,
    Machine.run (DisputeLedger.step sampleAccounts) (.start (fun _ => none) .empty)
      sampleHoldEvents = .ok L ∧
    (∃ row, L.row (9, "dsp-1") = some row ∧ row.lastPhase = .lost ∧ row.cycle = 2) ∧
    L.holdOf (9, "dsp-1") = 0 := by
  refine exists_ok_of (by decide +kernel) fun L hL hlost => ⟨hlost, ?_⟩
  obtain ⟨row, hrow, hlost, -⟩ := hlost
  exact ((cash_hold_never_stranded hL (9, "dsp-1")).2.1 row hrow).2 (.inr hlost)

end Gears.Ledger
