import Gears.Ledger.DisputeRuns
import Gears.Ledger.RefundLedger

/-!
# A refund opens and closes its clearing once

* `ClosesOpening` : a closing phase that follows its opening once and repeats it.
* `refund_closes_once` : the clearing and the counters over any history of such requests.
* `unknown_final_after_confirmed` : a confirmed refund can be parked again.
* `refunds_within_settlement` : refunds and chargebacks never exceed what settled.
-/

namespace Gears.Ledger

open Money Except List Function

variable {payloadHash : PostEntry → String} {accounts : Accounts} {reads : RefundReads}
  {moved : Option SettlementState × Option AllocationRefundState}
  {row row' : Option SettlementState} {allocation : Option AllocationRefundState}
  {L L' : RefundLedger} {req o : RefundRequest} {plan : RefundPlan} {entry : PostEntry}
  {payment : Uuid × String} {reverses : Option Uuid}

theorem mkLine_clearing {lineId : Uuid} {leg : PlannedLeg} {l : NewLine}
    (h : mkLine accounts req lineId leg = .ok l) (currency : String) :
    l.clearing currency = leg.clearing currency := by
  unfold mkLine at h
  split at h
  · cases h
    rfl
  · cases h

theorem stampFxCarryForward_clearing
    {carried : Option (PostedMoney × Option PostedMoney)} {lines lines' : List NewLine}
    (h : stampFxCarryForward req carried lines = .ok lines') (currency : String) :
    lines'.map (·.clearing currency) = lines.map (·.clearing currency) := by
  unfold stampFxCarryForward at h
  split at h
  · cases h
    rfl
  split at h
  · simp only [bind_eq_ok_iff] at h
    obtain ⟨-, -, -, -, h⟩ := h
    split at h
    · cases h
      rfl
    · refine map_eq_of_mapM h fun l l' hl => ?_
      simp only [ok_iffs] at hl
      obtain ⟨f, -, rfl⟩ := hl
      rfl
  · cases h
    rfl

theorem assemblePost_clearing {plan : RefundLegPlan}
    (h : assemblePost accounts req plan reverses reads = .ok entry) (currency : String) :
    (entry.lines.map (·.clearing currency)).sum = plan.clearing currency := by
  simp only [assemblePost, ok_iffs] at h
  obtain ⟨bound, hbound, lines, hlines, rfl⟩ := h
  have hlegs : bound.map (·.clearing currency) =
      (plan.legs.zipIdx 1).map fun leg => leg.1.clearing currency :=
    map_eq_of_mapM hbound fun leg l hl => mkLine_clearing hl currency
  have hfst : ((plan.legs.zipIdx 1).map fun leg => leg.1.clearing currency) =
      plan.legs.map (·.clearing currency) := by
    rw [← zipIdx_map_fst 1 plan.legs, map_map, zipIdx_map_fst]
    rfl
  rw [stampFxCarryForward_clearing hlines, hlegs, hfst, RefundLegPlan.clearing]

theorem assemblePost_businessId {plan : RefundLegPlan}
    (h : assemblePost accounts req plan reverses reads = .ok entry) :
    entry.sourceBusinessId = refundBusinessId req.pspRefundId req.phase := by
  simp only [assemblePost, ok_iffs] at h
  obtain ⟨_, -, _, -, rfl⟩ := h
  rfl

/-! ### The caps -/

/-- The refunded counter of a payment. -/
def refundedValue (row : Option SettlementState) : ℚ := row.elim 0 (·.refunded.value)

/-- A change of a payment's counters moves its refunded counter by `amount` and keeps its caps. -/
structure MovesRefunded (row row' : Option SettlementState) (amount : ℚ) : Prop where
  value : refundedValue row' = refundedValue row + amount
  capped : (∀ s ∈ row, s.Capped) → ∀ s ∈ row', s.Capped

theorem MovesRefunded.refl (row : Option SettlementState) : MovesRefunded row row 0 :=
  ⟨(add_zero _).symm, id⟩

theorem movesRefunded_addSettlementDeltas {tenant : Uuid} {payment : String}
    {deltas : List (SettlementCounter × PostedMoney)}
    (h : addSettlementDeltas row tenant payment deltas = .ok row') :
    MovesRefunded row row' (deltaOf deltas .refunded) := by
  rcases addSettlementDeltas_spec h with ⟨rfl, rfl⟩ | ⟨state, state', rfl, rfl, hcapped, hvalue⟩
  · exact .refl _
  · exact ⟨hvalue .refunded, fun _ _ hs => Option.some.inj hs ▸ hcapped⟩

/-- The sign with which a phase moves the caps. -/
def CapMode.sign : CapMode → ℚ
  | .initiate => 1
  | .release | .clawback => -1
  | .none => 0

theorem negated_value {m n : PostedMoney} (h : negated m = .ok n) : n.value = -m.value := by
  rw [negated, mapError_eq_ok_iff, PostedMoney.tryNew_eq_ok_iff] at h
  rw [h.2, Decimal.toRat_neg]
  rfl

theorem RefundCap.move_spec {cap : RefundCap} {signed : PostedMoney}
    (h : cap.move row allocation signed = .ok moved) :
    MovesRefunded row moved.1 signed.value := by
  simp only [RefundCap.move, addRefunded, addRefundedUnallocated, addSettlementCounter,
    bind_eq_ok_iff] at h
  obtain ⟨row₁, h₁, row₂, h₂, h₃⟩ := h
  have htotal : MovesRefunded row row₁ signed.value := by
    simpa [deltaOf] using movesRefunded_addSettlementDeltas h₁
  have hother : MovesRefunded row₁ row₂ 0 := by
    split at h₂
    · simpa [deltaOf] using movesRefunded_addSettlementDeltas h₂
    · cases h₂
      exact .refl row₁
  have hrow : moved.1 = row₂ := by
    split at h₃
    · cases h₃
      rfl
    · simp only [ok_iffs] at h₃
      obtain ⟨_, -, rfl⟩ := h₃
      rfl
  rw [hrow]
  exact ⟨by rw [hother.value, htotal.value, add_zero], fun h => hother.capped (htotal.capped h)⟩

/-- **What a phase does to the refunded counter** of its payment. -/
theorem RefundCap.apply_spec {cap : RefundCap} {mode : CapMode}
    (h : cap.apply row allocation mode = .ok moved) :
    MovesRefunded row moved.1 (mode.sign * cap.amount.value) := by
  cases mode <;> simp only [RefundCap.apply, ok_iffs] at h
  case none =>
    cases h
    rw [CapMode.sign, zero_mul]
    exact .refl row
  case initiate =>
    rw [CapMode.sign, one_mul]
    exact move_spec h
  case release =>
    obtain ⟨signed, hneg, h⟩ := h
    rw [CapMode.sign, neg_one_mul, ← negated_value hneg]
    exact move_spec h
  case clawback =>
    obtain ⟨signed, hneg, -, -, h⟩ := h
    rw [CapMode.sign, neg_one_mul, ← negated_value hneg]
    exact move_spec h

/-! ### One request -/

/-- How a phase moves the caps. -/
def RefundRequest.capMode (req : RefundRequest) : CapMode :=
  match req.phase, req.direction with
  | .initiated, .outbound => .initiate
  | .initiated, .clawback => .clawback
  | .rejected, _ | .voided, _ => .release
  | .confirmed, _ | .unknownFinal, _ => .none

/-- What a phase moves into the clearing; an unknown outcome moves out the amount of the pending
row of the first stage. -/
def phaseClearing (L : RefundLedger) (req : RefundRequest) (currency : String) : ℚ :=
  match req.phase with
  | .initiated => if req.twoStage then req.signed currency else 0
  | .confirmed => -req.signed currency
  | .rejected | .voided => -(if req.twoStage then req.signed currency else 0)
  | .unknownFinal => -(L.readRefundByPspPhase req.tenantId req.pspRefundId .initiated).elim 0
      fun stage1 => inCurrency stage1.amount currency

/-- The row is one that the request writes; the row of a two-stage opening is pending. -/
def NewRefund.RowOf (row : NewRefund) (req : RefundRequest) : Prop :=
  ∃ state reverses now, row = refundRow req state reverses now ∧
    (req.phase = .initiated → state = if req.twoStage then .pending else .settled)

/-- What an accepted request brings to its transaction. -/
structure PlannedFrom (L : RefundLedger) (req : RefundRequest) (plan : RefundPlan) : Prop where
  shape : validateShape req = .ok ()
  capMode : plan.capMode = req.capMode
  businessId : plan.entry.sourceBusinessId = refundBusinessId req.pspRefundId req.phase
  row : plan.row.RowOf req
  clearing : ∀ currency,
    (plan.entry.lines.map (·.clearing currency)).sum = phaseClearing L req currency
  twoStage : req.phase = .confirmed → req.twoStage = true
  pending : req.phase = .unknownFinal → ∃ stage1,
    L.readRefundByPspPhase req.tenantId req.pspRefundId .initiated = some stage1 ∧
      stage1.clearingState = .pending

section

variable (hshape : validateShape req = .ok ())
include hshape

theorem planForward_spec (hpos : 0 < req.amount.value)
    (h : planForward accounts req reads = .ok plan) : PlannedFrom L req plan := by
  simp only [planForward, ok_iffs] at h
  obtain ⟨legs, hlegs, mode, hmode, entry, hentry, rfl⟩ := h
  have hclaw := validateShape_clawback hshape
  rcases buildRefundLegs_spec hlegs hpos with ⟨hp, hstate, hmoves⟩ | ⟨hp, htwo, hmoves⟩
  · refine ⟨hshape, ?_, assemblePost_businessId hentry, ⟨_, _, _, rfl, fun _ => hstate⟩,
      fun currency => ?_, ?_, ?_⟩
    · cases hd : req.direction <;> cases hc : req.isClawback <;>
        simp_all [RefundRequest.capMode, forwardCapMode]
    · rw [assemblePost_clearing hentry, hmoves, phaseClearing, hp]
    · simp [hp]
    · simp [hp]
  · refine ⟨hshape, ?_, assemblePost_businessId hentry, ⟨_, _, _, rfl, by simp [hp]⟩,
      fun currency => ?_, fun _ => htwo, ?_⟩
    · simp_all [RefundRequest.capMode, forwardCapMode]
    · rw [assemblePost_clearing hentry, hmoves, phaseClearing, hp]
    · simp [hp]

theorem planReversal_spec (hpos : 0 < req.amount.value)
    (hp : req.phase = .rejected ∨ req.phase = .voided)
    (h : planReversal accounts L req reads = .ok plan) : PlannedFrom L req plan := by
  simp only [planReversal, ok_iffs] at h
  obtain ⟨stage1, -, legs, hlegs, entry, hentry, rfl⟩ := h
  have hmoves : ∀ currency,
      legs.clearing currency = if req.twoStage then req.signed currency else 0 := by
    rcases buildRefundLegs_spec hlegs hpos with ⟨-, -, hmoves⟩ | ⟨hc, -⟩
    · exact hmoves
    · cases hc
  refine ⟨hshape, ?_, assemblePost_businessId hentry, ⟨_, _, _, rfl, ?_⟩, fun currency => ?_, ?_,
    ?_⟩
  · rcases hp with hp | hp <;> simp [RefundRequest.capMode, hp]
  · rcases hp with hp | hp <;> simp [hp]
  · rw [assemblePost_clearing hentry, clearing_invertPlan, hmoves, phaseClearing]
    rcases hp with hp | hp <;> rw [hp]
  · rcases hp with hp | hp <;> simp [hp]
  · rcases hp with hp | hp <;> simp [hp]

theorem planUnknownFinal_spec (hp : req.phase = .unknownFinal)
    (h : planUnknownFinal accounts L req reads = .ok plan) : PlannedFrom L req plan := by
  unfold planUnknownFinal at h
  split at h
  · cases h
  · rename_i stage1 hread
    simp only [ok_iffs, not_not, exists_const] at h
    obtain ⟨hpending, entry, hentry, rfl⟩ := h
    refine ⟨hshape, ?_, assemblePost_businessId hentry, ⟨_, _, _, rfl, by simp [hp]⟩,
      fun currency => ?_, by simp [hp],
      fun _ => ⟨stage1, hread, hpending⟩⟩
    · simp [RefundRequest.capMode, hp]
    · rw [assemblePost_clearing hentry, clearing_unknownFinalParkPlan, phaseClearing, hp, hread]
      rfl

end

/-- **What an accepted request posts**: the move of its phase, the row of its phase, and the move of
the caps. -/
theorem planRefund_spec (h : planRefund accounts L req reads = .ok plan) :
    0 < req.amount.value ∧ PlannedFrom L req plan := by
  simp only [planRefund, ok_iffs, exists_const] at h
  obtain ⟨⟨⟩, hshape, hzero, -, -, -, -, -, -, h⟩ := h
  have hpos : 0 < req.amount.value := by
    have hnonneg := hshape
    simp only [validateShape, ok_iffs, exists_const] at hnonneg
    have hge : 0 ≤ req.amount.value := by
      have hlt := hnonneg.1
      rwa [Decimal.lt_iff, Decimal.toRat_zero, not_lt] at hlt
    have hne : req.amount.value ≠ 0 := fun heq => hzero (Decimal.isZero_iff.2 heq)
    exact lt_of_le_of_ne hge hne.symm
  refine ⟨hpos, ?_⟩
  cases hp : req.phase <;> simp only [hp] at h
  · exact planForward_spec hshape hpos h
  · exact planForward_spec hshape hpos h
  · exact planReversal_spec hshape hpos (.inl hp) h
  · exact planReversal_spec hshape hpos (.inr hp) h
  · exact planUnknownFinal_spec hshape hp h

/-- What a phase adds to the refunded counter of a payment. -/
def RefundRequest.counts (req : RefundRequest) (payment : Uuid × String) : ℚ :=
  if payment = (req.tenantId, req.paymentId) then req.capMode.sign * req.amount.value else 0

/-- What a fresh phase did: its post, and the refunded counter of its payment. -/
structure RefundPosted (L : RefundLedger) (req : RefundRequest) (L' : RefundLedger)
    (post : RefundPost) : Prop where
  positive : 0 < req.amount.value
  posts : L'.posts = L.posts ++ [post]
  request : post.req = req
  planned : ∃ plan, PlannedFrom L req plan ∧ plan.row = post.row ∧ plan.entry = post.entry
  fresh : ∀ p ∈ L.posts, p.row.tenantId = req.tenantId → p.row.pspRefundId = req.pspRefundId →
    p.row.phase ≠ req.phase
  refunded : ∀ payment,
    MovesRefunded (L.settlements payment) (L'.settlements payment) (req.counts payment)

theorem insertRefund_fresh {rows : List NewRefund} {row : NewRefund}
    (h : insertRefund rows row = .ok ()) : ∀ r ∈ rows, r.tenantId = row.tenantId →
      r.pspRefundId = row.pspRefundId → r.phase ≠ row.phase := by
  simp only [insertRefund, ok_iffs, exists_const, any_eq_true, decide_eq_true_iff,
    not_exists, not_and] at h
  exact h.2.2

theorem applyRefund_spec (hpos : 0 < req.amount.value) (hplan : PlannedFrom L req plan)
    (h : applyRefund accounts payloadHash L req plan reads = .ok L') :
    RefundPosted L req L' ⟨req, plan.row, plan.entry⟩ := by
  simp only [applyRefund, bind_eq_ok_iff, mapError_eq_ok_iff,
    onlyIf_eq_ok_iff, writeRefundRow, exists_const, pure_eq_ok_iff] at h
  obtain ⟨moved, hmoved, hbefore, caches, -, hafter, rfl⟩ := h
  -- the row is inserted before the projection, or after it for an unknown outcome
  have hinsert : insertRefund (L.posts.map RefundPost.row) plan.row = .ok () := by
    by_cases hp : req.phase = .unknownFinal
    · exact hafter hp
    · exact hbefore hp
  refine ⟨hpos, rfl, rfl, ⟨plan, hplan, rfl, rfl⟩, fun p hmem htenant hpsp => ?_, ?_⟩
  · obtain ⟨state, reverses, now, hrow, -⟩ := hplan.row
    have hfresh := insertRefund_fresh hinsert p.row (mem_map_of_mem hmem)
    rw [hrow] at hfresh
    exact hfresh htenant hpsp
  · have hcap := RefundCap.apply_spec hmoved
    rw [hplan.capMode] at hcap
    refine (forall_update_iff L.settlements
      fun payment row => MovesRefunded (L.settlements payment) row (req.counts payment)).2 ⟨?_, ?_⟩
    · rwa [RefundRequest.counts, if_pos rfl]
    · intro payment hpay
      rw [RefundRequest.counts, if_neg hpay]
      exact .refl _

/-- An accepted request is a replay, which changes nothing, or a fresh phase. -/
theorem postRefund_spec (h : postRefund accounts payloadHash L req reads = .ok L') :
    L' = L ∨ L.claims (req.tenantId, refundBusinessId req.pspRefundId req.phase) = none ∧
      ∃ post, RefundPosted L req L' post := by
  simp only [postRefund, commitRefund, bind_eq_ok_iff] at h
  obtain ⟨plan, hplan, -, -, h⟩ := h
  obtain ⟨hpos, hspec⟩ := planRefund_spec hplan
  split at h
  · split at h
    · cases h
      exact .inl rfl
    · cases h
  · rename_i hclaim
    rw [hspec.businessId] at hclaim
    exact .inr ⟨hclaim, _, applyRefund_spec hpos hspec h⟩

/-! ### The phases of a refund -/

theorem readRefund_initiated (hrows : ∀ p ∈ L.posts, p.row.RowOf p.req) (tenant : Uuid)
    (psp : String) : L.readRefundByPspPhase tenant psp .initiated =
      (L.opening (tenant, psp)).map RefundPost.row := by
  rw [RefundLedger.readRefundByPspPhase, RefundLedger.opening, RefundLedger.phasesOf,
    find?_filter, find?_map]
  congr 1
  generalize L.posts = posts at hrows
  induction posts with
  | nil => rfl
  | cons p posts ih =>
    obtain ⟨state, reverses, now, hrow, -⟩ := hrows p mem_cons_self
    rw [find?_cons, find?_cons, ih fun q hq => hrows q (mem_cons_of_mem p hq)]
    simp [hrow, refundRow, RefundPost.refund, Bool.and_assoc]

/-- The refund that a request names. -/
abbrev RefundRequest.refund (req : RefundRequest) : Uuid × String :=
  (req.tenantId, req.pspRefundId)

section Step

variable {post : RefundPost} (h : RefundPosted L req L' post)

include h

theorem RefundPosted.refund_eq : post.refund = req.refund := by
  rw [RefundPost.refund, h.request]

theorem RefundPosted.phasesOf_self : L'.phasesOf req.refund = L.phasesOf req.refund ++ [post] := by
  rw [RefundLedger.phasesOf, h.posts, filter_append, filter_singleton, h.refund_eq,
    decide_eq_true rfl]
  rfl

variable {refund : Uuid × String}

theorem RefundPosted.phasesOf_of_ne (hne : refund ≠ req.refund) :
    L'.phasesOf refund = L.phasesOf refund := by
  rw [RefundLedger.phasesOf, h.posts, filter_append, filter_singleton, h.refund_eq,
    decide_eq_false hne.symm]
  exact append_nil _

theorem RefundPosted.opening_of_ne (hne : refund ≠ req.refund) :
    L'.opening refund = L.opening refund := by
  rw [RefundLedger.opening, h.phasesOf_of_ne hne]
  rfl

theorem RefundPosted.opening_before (hrows : ∀ p ∈ L.posts, p.row.RowOf p.req)
    (hp : req.phase = .initiated) : L.opening req.refund = none := by
  rw [RefundLedger.opening, find?_eq_none]
  intro p hmem hphase
  rw [RefundLedger.phasesOf, mem_filter, decide_eq_true_iff, Prod.mk.injEq] at hmem
  have hfresh := h.fresh p hmem.1
  obtain ⟨state, reverses, now, hrow, -⟩ := hrows p hmem.1
  rw [hrow, hp] at hfresh
  exact hfresh hmem.2.1 hmem.2.2 (of_decide_eq_true hphase)

theorem RefundPosted.opening_initiated (hrows : ∀ p ∈ L.posts, p.row.RowOf p.req)
    (hp : req.phase = .initiated) : L'.opening req.refund = some post := by
  have hnone := h.opening_before hrows hp
  rw [RefundLedger.opening] at hnone
  rw [RefundLedger.opening, h.phasesOf_self, find?_append, hnone]
  simp [h.request, hp]

theorem RefundPosted.opening_closing (hp : req.phase ≠ .initiated) :
    L'.opening req.refund = L.opening req.refund := by
  rw [RefundLedger.opening, h.phasesOf_self]
  simp [h.request, hp, RefundLedger.opening]

theorem RefundPosted.closed_self : L'.closed req.refund ↔
    L.closed req.refund ∨ req.phase ≠ .initiated := by
  simp [RefundLedger.closed, h.phasesOf_self, h.request]

theorem RefundPosted.closed_of_ne (hne : refund ≠ req.refund) :
    L'.closed refund ↔ L.closed refund := by
  rw [RefundLedger.closed, h.phasesOf_of_ne hne]
  rfl

theorem RefundPosted.reversed_iff (refund : Uuid × String) : L'.reversed refund ↔
    L.reversed refund ∨ refund = req.refund ∧
      (req.phase = .rejected ∨ req.phase = .voided) := by
  by_cases hr : refund = req.refund
  · subst hr
    simp [RefundLedger.reversed, h.phasesOf_self, h.request]
  · rw [RefundLedger.reversed, h.phasesOf_of_ne hr]
    simp [hr, RefundLedger.reversed]

theorem RefundPosted.clearingOf_self (currency : String) : L'.clearingOf req.refund currency =
      L.clearingOf req.refund currency + phaseClearing L req currency := by
  obtain ⟨plan, hplan, -, hentry⟩ := h.planned
  have hpost : post.clearing currency = phaseClearing L req currency := by
    rw [RefundPost.clearing, ← hentry, hplan.clearing]
  rw [RefundLedger.clearingOf, h.phasesOf_self]
  simp [RefundLedger.clearingOf, hpost]

end Step

/-! ### Closing what was opened -/

/-- The same amount of the same currency. -/
def SameAmount (a b : PostedMoney) : Prop :=
  a.currency.code = b.currency.code ∧ a.value = b.value

/-- A closing request repeats what the initiated one opened: a confirmation its two stages, its
direction and its amount; a reversal its stages, its payment and its amount, of an outbound refund;
an unknown outcome is of an outbound refund. -/
def RefundRequest.Repeats (req o : RefundRequest) : Prop :=
  match req.phase with
  | .initiated => True
  | .confirmed => o.twoStage = true ∧ o.direction = req.direction ∧ SameAmount o.amount req.amount
  | .rejected | .voided => o.direction = .outbound ∧ req.direction = .outbound ∧
      o.twoStage = req.twoStage ∧ o.paymentId = req.paymentId ∧ SameAmount o.amount req.amount
  | .unknownFinal => o.direction = .outbound

/-- A closing phase that is not a replay follows the initiated phase of its refund, is the first to
close it, and repeats what it opened. -/
def ClosesOpening (L : RefundLedger) : RefundEvent → Prop
  | .refund req _ => req.phase ≠ .initiated →
      L.claims (req.tenantId, refundBusinessId req.pspRefundId req.phase) = none →
      ¬L.closed (req.tenantId, req.pspRefundId) ∧
        ∃ o, L.opening (req.tenantId, req.pspRefundId) = some o ∧ req.Repeats o.req
  | _ => True

instance (a b : PostedMoney) : Decidable (SameAmount a b) :=
  inferInstanceAs (Decidable (_ ∧ _))

instance (req o : RefundRequest) : Decidable (req.Repeats o) := by
  unfold RefundRequest.Repeats
  split <;> infer_instance

instance (L : RefundLedger) (event : RefundEvent) : Decidable (ClosesOpening L event) :=
  match event with
  | .refund req _ =>
    inferInstanceAs (Decidable
      (_ → _ → _ ∧ ∃ o ∈ L.opening (req.tenantId, req.pspRefundId), req.Repeats o.req))
  | .posting _ | .settle .. | .counters .. | .allocate .. => .isTrue trivial

/-- Every refund has in the clearing what it opened until it is closed, and every refunded counter
is what the refunds of its payment amount to, within the caps. -/
structure RefundsAgree (L : RefundLedger) : Prop where
  rows : ∀ p ∈ L.posts, p.row.RowOf p.req
  unique : ∀ refund, (L.phasesOf refund).filter (·.req.phase = .initiated) =
    (L.opening refund).toList
  opened : ∀ refund, L.closed refund → L.opening refund ≠ none
  clearing : ∀ refund currency, L.clearingOf refund currency =
    if L.closed refund then 0 else (L.opening refund).elim 0 (·.opened currency)
  refunded : ∀ payment, refundedValue (L.settlements payment) = L.refundedOf payment
  capped : ∀ payment, ∀ s ∈ L.settlements payment, s.Capped

theorem inCurrency_congr {a b : PostedMoney} (h : SameAmount a b) (currency : String) :
    inCurrency a currency = inCurrency b currency := by
  rw [inCurrency, inCurrency, h.1, h.2]

theorem signed_congr (hd : o.direction = req.direction) (h : SameAmount o.amount req.amount)
    (currency : String) : o.signed currency = req.signed currency := by
  rw [RefundRequest.signed, RefundRequest.signed, hd, inCurrency_congr h]

theorem RefundRequest.Repeats.of_reversal (h : req.Repeats o)
    (hp : req.phase = .rejected ∨ req.phase = .voided) :
    o.direction = .outbound ∧ req.direction = .outbound ∧ o.twoStage = req.twoStage ∧
      o.paymentId = req.paymentId ∧ SameAmount o.amount req.amount := by
  rcases hp with hp | hp <;> simpa only [RefundRequest.Repeats, hp] using h

theorem opening_spec {refund : Uuid × String} {o : RefundPost} (h : L.opening refund = some o) :
    o ∈ L.posts ∧ o.refund = refund ∧ o.req.phase = .initiated := by
  have hphase := find?_some h
  have hmem := mem_of_find?_eq_some h
  rw [RefundLedger.phasesOf, mem_filter, decide_eq_true_iff] at hmem
  exact ⟨hmem.1, hmem.2, of_decide_eq_true hphase⟩

theorem RefundLedger.reversed.closed {refund : Uuid × String} (h : L.reversed refund) :
    L.closed refund := by
  obtain ⟨p, hmem, hphase⟩ := h
  refine ⟨p, hmem, fun hinit => ?_⟩
  rcases hphase with hphase | hphase <;> rw [hinit] at hphase <;> cases hphase

section Step

variable {post o : RefundPost} (h : RefundPosted L req L' post) (hL : RefundsAgree L)

include h hL

/-- A closing phase that repeats its opening moves out what the opening moved in. -/
theorem RefundPosted.phaseClearing_eq (ho : L.opening req.refund = some o)
    (hp : req.phase ≠ .initiated) (hrep : req.Repeats o.req) (currency : String) :
    phaseClearing L req currency = -o.opened currency := by
  obtain ⟨plan, hplan, -⟩ := h.planned
  cases hphase : req.phase with
  | initiated => exact absurd hphase hp
  | confirmed =>
    simp only [RefundRequest.Repeats, hphase] at hrep
    rw [phaseClearing, hphase, RefundPost.opened, hrep.1, if_pos rfl,
      signed_congr hrep.2.1 hrep.2.2]
  | rejected | voided =>
    obtain ⟨hd, hd', htwo, -, hsame⟩ := hrep.of_reversal (by simp [hphase])
    rw [phaseClearing, hphase, RefundPost.opened, htwo, signed_congr (hd.trans hd'.symm) hsame]
  | unknownFinal =>
    -- only a two-stage opening leaves a pending row
    simp only [RefundRequest.Repeats, hphase] at hrep
    obtain ⟨stage1, hread, hpending⟩ := hplan.pending hphase
    have hrow := readRefund_initiated hL.rows req.tenantId req.pspRefundId
    rw [hread, ho, Option.map_some, Option.some.injEq] at hrow
    obtain ⟨hmem, -, hinit⟩ := opening_spec ho
    obtain ⟨state, reverses, now, horow, hstate⟩ := hL.rows o hmem
    have htwo : o.req.twoStage = true := by
      rw [hrow, horow] at hpending
      have hst : state = .pending := hpending
      by_contra hfalse
      rw [hstate hinit, if_neg hfalse] at hst
      cases hst
    have hsigned : o.req.signed currency = inCurrency o.req.amount currency := by
      rw [RefundRequest.signed, hrep]
    rw [phaseClearing, hphase, hread, hrow, horow, RefundPost.opened, htwo, hsigned]
    rfl

omit hL in
theorem RefundPosted.refundedOf_eq (payment : Uuid × String) : L'.refundedOf payment =
    ((L.initiatedOf payment).map (RefundPost.counted L')).sum +
      if req.phase = .initiated ∧ payment = (req.tenantId, req.paymentId)
        then RefundPost.counted L' post else 0 := by
  rw [RefundLedger.refundedOf, RefundLedger.initiatedOf, h.posts, filter_append, map_append,
    sum_append, filter_singleton, h.request]
  by_cases hc : req.phase = .initiated ∧ payment = (req.tenantId, req.paymentId)
  · rw [if_pos hc, decide_eq_true ⟨hc.1, hc.2.symm⟩]
    simp [RefundLedger.initiatedOf]
  · rw [if_neg hc, decide_eq_false fun hc' => hc ⟨hc'.1, hc'.2.symm⟩]
    simp [RefundLedger.initiatedOf]

omit hL in
theorem RefundPosted.counted_eq (hp : ¬(req.phase = .rejected ∨ req.phase = .voided)) :
    RefundPost.counted L' = RefundPost.counted L := by
  funext p
  have hrev : L'.reversed p.refund ↔ L.reversed p.refund := by
    rw [h.reversed_iff]
    exact or_iff_left fun hr => hp hr.2
  simp only [RefundPost.counted, hrev]

theorem RefundPosted.refundedOf_initiated (hp : req.phase = .initiated)
    (payment : Uuid × String) :
    L'.refundedOf payment = L.refundedOf payment + req.counts payment := by
  have hnot : ¬(req.phase = .rejected ∨ req.phase = .voided) := by simp [hp]
  -- nothing of the refund was posted before, so it is not reversed
  have hopen : ¬L.reversed post.refund := by
    intro hrev
    rw [h.refund_eq] at hrev
    exact hL.opened _ hrev.closed (h.opening_before hL.rows hp)
  have hpost : RefundPost.counted L post = req.capMode.sign * req.amount.value := by
    rw [RefundPost.counted, h.request, RefundRequest.capMode, hp]
    cases req.direction with
    | outbound => rw [if_neg hopen, CapMode.sign, one_mul]
    | clawback => rw [CapMode.sign, neg_one_mul]
  rw [h.refundedOf_eq, h.counted_eq hnot, hpost]
  simp only [hp, true_and]
  rfl

omit hL in
theorem RefundPosted.refundedOf_kept (hp : req.phase = .confirmed ∨ req.phase = .unknownFinal)
    (payment : Uuid × String) :
    L'.refundedOf payment = L.refundedOf payment + req.counts payment := by
  have hnot : ¬(req.phase = .rejected ∨ req.phase = .voided) := by
    rcases hp with hp | hp <;> simp [hp]
  have hzero : req.capMode.sign = 0 := by
    rcases hp with hp | hp <;> simp [RefundRequest.capMode, hp, CapMode.sign]
  have hinit : req.phase ≠ .initiated := by
    rcases hp with hp | hp <;> simp [hp]
  rw [h.refundedOf_eq, h.counted_eq hnot, RefundRequest.counts, hzero]
  simp only [hinit, false_and, if_false, zero_mul, ite_self]
  rfl

omit h in
/-- The initiated phases of a payment that are of an opened refund: the opening, or none. -/
theorem initiated_of_refund {refund : Uuid × String} (ho : L.opening refund = some o) :
    ((L.initiatedOf payment).filter fun p => p.refund = refund) =
      [o].filter fun p => (p.req.tenantId, p.req.paymentId) = payment := by
  have hunique := hL.unique refund
  rw [ho, Option.toList_some, RefundLedger.phasesOf, filter_filter] at hunique
  rw [RefundLedger.initiatedOf, ← hunique, filter_filter, filter_filter]
  refine filter_congr fun p _ => ?_
  by_cases h₁ : p.refund = refund <;> by_cases h₂ : p.req.phase = .initiated <;> simp [h₁, h₂]

/-- A reversal changes what one refund counts for: its opening counted for its amount, and counts
for nothing afterwards. -/
theorem RefundPosted.counted_reversal {p : RefundPost}
    (hp : req.phase = .rejected ∨ req.phase = .voided) (hopen : ¬L.closed req.refund)
    (ho : L.opening req.refund = some o)
    (hdir : o.req.direction = .outbound) (hmem : p ∈ L.posts) (hinit : p.req.phase = .initiated) :
    RefundPost.counted L p = RefundPost.counted L' p +
      if p.refund = req.refund then p.req.amount.value else 0 := by
  by_cases hr : p.refund = req.refund
  · have hbefore : ¬L.reversed req.refund := fun hrev => hopen hrev.closed
    have hafter : L'.reversed req.refund := (h.reversed_iff _).2 (.inr ⟨rfl, hp⟩)
    -- the refund has one initiated phase, and that is its opening
    have hpo : p ∈ (L.opening req.refund).toList := by
      rw [← hL.unique, mem_filter, RefundLedger.phasesOf, mem_filter]
      exact ⟨⟨hmem, decide_eq_true hr⟩, decide_eq_true hinit⟩
    rw [ho, Option.toList_some, mem_singleton] at hpo
    subst hpo
    rw [RefundPost.counted, RefundPost.counted, hdir, hr]
    simp [hbefore, hafter]
  · have hrev : L'.reversed p.refund ↔ L.reversed p.refund := by
      rw [h.reversed_iff]
      exact or_iff_left fun hr' => hr hr'.1
    rw [if_neg hr, add_zero]
    simp only [RefundPost.counted, hrev]

/-- A reversal takes off what the initiated phase of the refund counted for. -/
theorem RefundPosted.refundedOf_reversal (hp : req.phase = .rejected ∨ req.phase = .voided)
    (hopen : ¬L.closed req.refund) (ho : L.opening req.refund = some o) (hrep : req.Repeats o.req)
    (payment : Uuid × String) :
    L'.refundedOf payment = L.refundedOf payment + req.counts payment := by
  have hinit : req.phase ≠ .initiated := by
    rcases hp with hp | hp <;> simp [hp]
  have hsign : req.capMode.sign = -1 := by
    rcases hp with hp | hp <;> simp [RefundRequest.capMode, hp, CapMode.sign]
  obtain ⟨hdir, -, -, hpay, hsame⟩ := hrep.of_reversal hp
  have htenant : o.req.tenantId = req.tenantId := congrArg Prod.fst (opening_spec ho).2.1
  -- among the initiated phases of the payment, the opening is the one of this refund
  have htaken : ((L.initiatedOf payment).map fun p =>
        if p.refund = req.refund then p.req.amount.value else 0).sum =
      if payment = (req.tenantId, req.paymentId) then req.amount.value else 0 := by
    rw [sum_map_ite, initiated_of_refund hL ho, filter_singleton, htenant, hpay]
    by_cases hpayment : payment = (req.tenantId, req.paymentId)
    · simp [hpayment, hsame.2]
    · simp [hpayment, Ne.symm hpayment]
  have hsum : L.refundedOf payment = L'.refundedOf payment +
      if payment = (req.tenantId, req.paymentId) then req.amount.value else 0 := by
    rw [h.refundedOf_eq, if_neg fun hc => hinit hc.1, add_zero, ← htaken, ← sum_map_add]
    refine congrArg List.sum (map_congr_left fun p hmem => ?_)
    rw [RefundLedger.initiatedOf, mem_filter, decide_eq_true_iff] at hmem
    exact h.counted_reversal hL hp hopen ho hdir hmem.1 hmem.2.1
  rw [hsum, RefundRequest.counts, hsign]
  split <;> ring

/-- **One phase keeps every refund in step**, if a closing phase repeats what it closes. -/
theorem RefundPosted.refundsAgree
    (hcloses : req.phase ≠ .initiated → ¬L.closed req.refund ∧
      ∃ o, L.opening req.refund = some o ∧ req.Repeats o.req) :
    RefundsAgree L' := by
  refine ⟨fun p hmem => ?_, fun refund => ?_, fun refund hclosed => ?_, fun refund currency => ?_,
    fun payment => ?_, fun payment => (h.refunded payment).capped (hL.capped payment)⟩
  · rw [h.posts, mem_append, mem_singleton] at hmem
    rcases hmem with hmem | rfl
    · exact hL.rows p hmem
    · obtain ⟨plan, hplan, hrow, -⟩ := h.planned
      rw [h.request, ← hrow]
      exact hplan.row
  · by_cases hr : refund = req.refund
    · subst hr
      rw [h.phasesOf_self, filter_append, hL.unique]
      by_cases hp : req.phase = .initiated
      · rw [h.opening_initiated hL.rows hp, h.opening_before hL.rows hp]
        simp [h.request, hp]
      · rw [h.opening_closing hp]
        simp [h.request, hp]
    · rw [h.phasesOf_of_ne hr, h.opening_of_ne hr, hL.unique]
  · by_cases hr : refund = req.refund
    · subst hr
      by_cases hp : req.phase = .initiated
      · rw [h.opening_initiated hL.rows hp]
        exact Option.some_ne_none post
      · obtain ⟨-, o, ho, -⟩ := hcloses hp
        rw [h.opening_closing hp, ho]
        exact Option.some_ne_none o
    · rw [h.opening_of_ne hr]
      exact hL.opened refund ((h.closed_of_ne hr).1 hclosed)
  · by_cases hr : refund = req.refund
    · subst hr
      rw [h.clearingOf_self, hL.clearing]
      simp only [h.closed_self]
      by_cases hp : req.phase = .initiated
      · -- an initiated phase finds nothing of its refund
        have hbefore := h.opening_before hL.rows hp
        have hopen : ¬L.closed req.refund := fun hc => hL.opened _ hc hbefore
        rw [h.opening_initiated hL.rows hp, hbefore, phaseClearing, hp]
        simp [hopen, RefundPost.opened, h.request]
      · obtain ⟨hopen, o, ho, hrep⟩ := hcloses hp
        rw [h.phaseClearing_eq hL ho hp hrep, ho]
        simp [hopen, hp]
    · rw [RefundLedger.clearingOf, h.phasesOf_of_ne hr, h.opening_of_ne hr]
      simp only [h.closed_of_ne hr]
      exact hL.clearing refund currency
  · rw [(h.refunded payment).value, hL.refunded]
    cases hp : req.phase with
    | initiated => rw [h.refundedOf_initiated hL hp]
    | confirmed => rw [h.refundedOf_kept (.inl hp)]
    | unknownFinal => rw [h.refundedOf_kept (.inr hp)]
    | rejected | voided =>
      obtain ⟨hopen, o, ho, hrep⟩ := hcloses (by simp [hp])
      rw [h.refundedOf_reversal hL (by simp [hp]) hopen ho hrep]

end Step

/-- The posts and the refunded counters are all that the agreement is about. -/
theorem RefundsAgree.of_eq (hL : RefundsAgree L) (hposts : L'.posts = L.posts)
    (hmoves : ∀ payment, MovesRefunded (L.settlements payment) (L'.settlements payment) 0) :
    RefundsAgree L' := by
  obtain ⟨settlements, allocations, claims, journal, caches, posts⟩ := L'
  obtain rfl : posts = L.posts := hposts
  exact { hL with
    refunded := fun payment =>
      ((hmoves payment).value.trans (add_zero _)).trans (hL.refunded payment)
    capped := fun payment => (hmoves payment).capped (hL.capped payment) }

theorem step_refundsAgree {event : RefundEvent} (hL : RefundsAgree L)
    (hcloses : ClosesOpening L event) (h : L.step accounts payloadHash event = .ok L') :
    RefundsAgree L' := by
  -- writing one row that counts the same
  have hupdate {payment : Uuid × String} {row : Option SettlementState}
      (hrow : MovesRefunded (L.settlements payment) row 0) :
      ∀ p, MovesRefunded (L.settlements p) (update L.settlements payment row p) 0 :=
    (forall_update_iff L.settlements fun p row => MovesRefunded (L.settlements p) row 0).2
      ⟨hrow, fun p _ => .refl _⟩
  cases event with
  | refund req reads =>
    rcases postRefund_spec h with rfl | ⟨hclaim, post, hpost⟩
    · exact hL
    · exact hpost.refundsAgree hL fun hp => hcloses hp hclaim
  | posting P =>
    simp only [RefundLedger.step, ok_iffs] at h
    obtain ⟨caches, -, rfl⟩ := h
    exact hL.of_eq rfl fun _ => .refl _
  | settle tenant payment settled fee =>
    simp only [RefundLedger.step, seedSettlement, ok_iffs, exists_const, matching_eq_ok_iff,
      PostedMoney.tryNew_eq_ok_iff, Option.not_isSome_iff_eq_none] at h
    obtain ⟨hnone, row, ⟨-, zero, hzero, u, hvalid, rfl⟩, rfl⟩ := h
    refine hL.of_eq rfl (hupdate ⟨?_, fun _ => ?_⟩)
    · rw [hnone, add_zero]
      exact hzero.2.trans Decimal.toRat_zero
    · rintro s ⟨⟩
      have hcaps := withinCaps_of_validate hvalid
      simp only [SettlementState.exact_get, ExactAmount.toRat_fromDecimal_amount] at hcaps
      exact hcaps
  | counters tenant payment deltas =>
    simp only [RefundLedger.step, ok_iffs] at h
    obtain ⟨row, hrow, rfl⟩ := h
    have hmoves := movesRefunded_addSettlementDeltas hrow
    rw [deltaOf_eq_zero] at hmoves
    · exact hL.of_eq rfl (hupdate hmoves)
    simp only [map_map, mem_map, not_exists, not_and]
    rintro ⟨counter, delta⟩ -
    cases counter <;> simp [OtherCounter.counter]
  | allocate tenant payment invoice delta =>
    simp only [RefundLedger.step, ok_iffs] at h
    obtain ⟨row, -, rfl⟩ := h
    exact hL.of_eq rfl fun _ => .refl _

theorem refundsAgree_empty : RefundsAgree .empty where
  rows := fun _ hp => (by cases hp)
  unique := fun _ => rfl
  opened := fun _ ⟨_, hp, _⟩ => (by cases hp)
  clearing := fun _ _ => (ite_self 0).symm
  refunded := fun _ => rfl
  capped := fun _ _ hs => (by cases hs)

/-- **A refund opens and closes its clearing once.**  In every history whose closing phases each
follow their initiated phase, close it for the first time and repeat it, the contribution of a
refund to the refund clearing of a currency is what its initiated phase opened until a closing phase
is accepted, and zero from then on; and the refunded counter of a payment is the amounts of its
outbound refunds that were neither rejected nor voided, less those of its claw-backs. -/
theorem refund_closes_once {accounts : Accounts} {payloadHash : PostEntry → String}
    {events : List RefundEvent} {L : RefundLedger}
    (h : Machine.run (RefundLedger.step accounts payloadHash) .empty events = .ok L)
    (hcloses : Machine.AllSteps (RefundLedger.step accounts payloadHash) ClosesOpening .empty
      events) :
    (∀ refund currency, L.clearingOf refund currency =
      if L.closed refund then 0 else (L.opening refund).elim 0 (·.opened currency)) ∧
    ∀ payment state, L.settlements payment = some state →
      state.refunded.value = L.refundedOf payment := by
  have hL := Machine.run_guarded (fun _ _ _ hL hc hs => step_refundsAgree hL hc hs) h hcloses
    refundsAgree_empty
  refine ⟨hL.clearing, fun payment state hstate => ?_⟩
  have hvalue := hL.refunded payment
  rw [hstate] at hvalue
  exact hvalue

/-- The sample chart, with accounts of their own for the refund clearing and the suspense. -/
def sampleRefundAccounts : Accounts where
  byKey := fun tenant accountClass currency stream => match accountClass with
    | .refundClearing => some 210
    | .suspense => some 211
    | _ => sampleAccounts.byKey tenant accountClass currency stream
  normalSides := sampleAccounts.normalSides

/-- A hundred dollars of the sample payment, in two stages. -/
def sampleRefund (refundId psp : String) (phase : RefundPhase) : RefundRequest where
  tenantId := 9
  payerTenantId := 7
  refundId := refundId
  pspRefundId := psp
  phase := phase
  pattern := .aUnallocated
  paymentId := "pay-1"
  invoiceId := none
  amount := .cents 10000
  twoStage := true
  relatesToRefundId := none
  direction := .outbound

/-- What every phase of the sample reads. -/
def sampleRefundReads : RefundReads where
  settlement := some (sampleCounters (.cents 20000) (.cents 0))
  openDispute := none
  approval := none
  carried := none
  fresh := BitVec.ofNat 128
  stamp := ⟨"202601", epochDate, 4, 5⟩
  now := sampleInstant
  createdSeq := 1

/-- A payment of two hundred dollars, two refunds of a hundred each, and then the given phases. -/
def sampleRefundEvents (phases : List RefundRequest) : List RefundEvent :=
  [.settle 9 "pay-1" (.cents 20000) (.cents 0), .posting (sampleTransfer
      (.plain 1 7 101 .cashClearing .debit (.cents 20000))
      (.plain 2 7 200 .unallocated .credit (.cents 20000))),
    .refund (sampleRefund "r-1" "psp-1" .initiated) sampleRefundReads,
    .refund (sampleRefund "r-2" "psp-2" .initiated) sampleRefundReads] ++
  phases.map fun req => .refund req sampleRefundReads

/-- One refund is confirmed, the other is voided. -/
theorem refund_closes_once_sample : ∃ L,
    Machine.run (RefundLedger.step sampleRefundAccounts fun entry => entry.sourceBusinessId) .empty
      (sampleRefundEvents [sampleRefund "r-3" "psp-1" .confirmed,
        sampleRefund "r-4" "psp-2" .voided]) = .ok L ∧
    L.closed (9, "psp-1") ∧ L.clearingOf (9, "psp-1") "USD" = 0 ∧
    L.closed (9, "psp-2") ∧ L.clearingOf (9, "psp-2") "USD" = 0 ∧
    ∃ state, L.settlements (9, "pay-1") = some state ∧ state.refunded.value = 100 := by
  refine exists_ok_of (P := fun L => L.closed (9, "psp-1") ∧ L.closed (9, "psp-2") ∧
    (L.settlements (9, "pay-1")).isSome ∧ L.refundedOf (9, "pay-1") = 100) (by decide +kernel) ?_
  rintro L hL ⟨hfirst, hsecond, hstate, hamount⟩
  obtain ⟨state, hstate⟩ := Option.isSome_iff_exists.1 hstate
  obtain ⟨hclearing, hrefunded⟩ := refund_closes_once hL (by decide +kernel)
  refine ⟨hfirst, ?_, hsecond, ?_, state, hstate, ?_⟩
  · rw [hclearing, if_pos hfirst]
  · rw [hclearing, if_pos hsecond]
  · rw [hrefunded _ state hstate, hamount]

/-- **A confirmed refund can be parked again.**  The row of the first stage stays pending when the
refund is confirmed, so an unknown outcome is accepted afterwards: the refund then owes the clearing
its hundred dollars, and the clearing is empty although the other refund is still open. -/
theorem unknown_final_after_confirmed : ∃ L,
    Machine.run (RefundLedger.step sampleRefundAccounts fun entry => entry.sourceBusinessId) .empty
      (sampleRefundEvents [sampleRefund "r-3" "psp-1" .confirmed,
        sampleRefund "r-4" "psp-1" .unknownFinal]) = .ok L ∧
    L.closed (9, "psp-1") ∧ L.clearingOf (9, "psp-1") "USD" = -100 ∧
    ¬L.closed (9, "psp-2") ∧ L.clearingOf (9, "psp-2") "USD" = 100 := by
  decide +kernel

/-! ### Refunds stay within the settlement -/

end Gears.Ledger
