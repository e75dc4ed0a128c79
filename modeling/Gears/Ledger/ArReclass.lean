import Gears.Ledger.DisputeRuns

/-!
# Disputed receivables over whole histories

An AR-reclass dispute moves a receivable to its disputed part and back.  The row stores neither the
payer nor the invoice of the opening, and an outcome is posted with the payer, the invoice and the
amount of its own request.

* `RepeatsOpening` : the outcomes that name what their opening named.
* `ar_reclass_never_stranded` : histories of such outcomes leave no disputed receivable behind.
* `ar_reclass_stranded` : an outcome of a smaller amount is accepted and leaves the rest disputed.
-/

namespace Gears.Ledger

open Money Except

variable {dispute : Uuid × String} {accounts : Accounts} {L L' : DisputeLedger}

/-- An outcome of an AR-reclass dispute repeats the payer, the invoice and the amount of its
opening. -/
def RepeatsOpening (L : DisputeLedger) : LedgerEvent → Prop
  | .phase req _ => req.phase = .won ∨ req.phase = .lost →
      ∀ o, L.opening (req.tenantId, req.disputeId) = some o → o.input.variant = .arReclass →
        req.payerTenantId = o.input.payerTenantId ∧ req.invoiceId = o.input.invoiceId ∧
        req.disputedAmount = o.input.disputedAmount
  | _ => True

instance (L : DisputeLedger) (event : LedgerEvent) : Decidable (RepeatsOpening L event) :=
  match event with
  | .phase req _ =>
    inferInstanceAs (Decidable (_ → ∀ o ∈ L.opening (req.tenantId, req.disputeId), _ → _ ∧ _ ∧ _))
  | .posting _ | .settlement .. => .isTrue trivial

/-- What an open dispute has in the disputed part of a row: the disputed amount of its opening, in
the receivable that the opening names. -/
def openDisputed (accounts : Accounts) (L : DisputeLedger) (dispute : Uuid × String)
    (k : BusinessKey) : ℚ :=
  match L.row dispute, L.opening dispute with
  | some row, some o =>
    if row.lastPhase = .opened ∧ o.input.variant = .arReclass ∧
      receivable accounts o.input = some k then o.input.disputedAmount.value else 0
  | _, _ => 0

theorem openDisputed_of_none {k : BusinessKey} (h : L.row dispute = none) :
    openDisputed accounts L dispute k = 0 := by
  rw [openDisputed, h]

theorem openDisputed_of_resolved {k : BusinessKey} {row : DisputeState}
    (h : L.row dispute = some row) (hne : row.lastPhase ≠ .opened) :
    openDisputed accounts L dispute k = 0 := by
  rw [openDisputed, h]
  cases L.opening dispute <;> simp [hne]

/-- Every dispute has in the disputed parts what its opening moved there while it is open, and
nothing otherwise. -/
structure DisputedAgrees (accounts : Accounts) (L : DisputeLedger) : Prop where
  versions : VersionsAgree L
  disputed : ∀ dispute k, k.table = .arInvoice →
    L.disputedOf dispute k = openDisputed accounts L dispute k
  opening : ∀ dispute row, L.row dispute = some row → row.lastPhase = .opened →
    ∃ o, L.opening dispute = some o ∧ o.dispute = dispute ∧ o.input.variant = row.variant ∧
      o.input.disputedAmount = row.disputedAmount

section Step

variable {req : ChargebackRequest} {reads : PhaseReads} {plan : PhasePlan} {next : DisputeState}
  (h : Recorded accounts L req reads L' plan next)

include h

theorem Recorded.disputedOf_self (k : BusinessKey) : L'.disputedOf req.dispute k =
    L.disputedOf req.dispute k + plan.disputedAt k := by
  rw [DisputeLedger.disputedOf, h.phasesOf_self]
  simp [DisputeLedger.disputedOf]

theorem Recorded.opening_of_opened (hp : plan.input.phase = .opened) :
    L'.opening req.dispute = some plan := by
  rw [DisputeLedger.opening, h.phasesOf_self, List.filter_append, List.filter_singleton,
    decide_eq_true hp]
  exact List.getLast?_concat

theorem Recorded.opening_of_ne (hne : dispute ≠ req.dispute) :
    L'.opening dispute = L.opening dispute := by
  rw [DisputeLedger.opening, h.phasesOf_of_ne hne]
  rfl

/-- **One request keeps every disputed part in step**, if an outcome repeats its opening. -/
theorem Recorded.disputedAgrees (hL : DisputedAgrees accounts L)
    (hrep : RepeatsOpening L (.phase req reads)) : DisputedAgrees accounts L' := by
  obtain ⟨net, built, hplan⟩ := h.planned
  refine ⟨h.versionsAgree hL.versions, fun dispute k hk => ?_, fun dispute row hrow hopen => ?_⟩
  · by_cases hd : dispute = req.dispute
    · subst hd
      rw [h.disputedOf_self, hL.disputed _ k hk, disputedAt_eq hplan hk]
      rcases h.cases with ⟨hphase, hin, hwrite⟩ | ⟨hphase, seen, hseen, hopen, hcycle, hin, hwrite⟩
      · -- an opening follows no row or a resolved one, so nothing was disputed
        obtain ⟨hprev, -, version, rfl⟩ := disputeUpsert_spec hwrite
        have hp : plan.input.phase = .opened := by rw [hin]; exact hphase
        have hzero : openDisputed accounts L req.dispute k = 0 := by
          rcases hprev with ⟨hnone, -⟩ | ⟨r, hr, -, hresolved, -⟩
          · exact openDisputed_of_none hnone
          · refine openDisputed_of_resolved hr ?_
            rcases hresolved with hr' | hr' <;> simp [hr']
        rw [hzero, openDisputed, h.row_self, h.opening_of_opened hp, hp]
        cases hv : plan.input.variant with
        | cashHold => simp [hv]
        | arReclass => simp [hv, DisputePhase.sign, hplan.disputedAmount]
      · -- an outcome moves out what its opening moved in
        obtain ⟨hne, r, hr, hopen', hcycle', -, -, version, rfl⟩ := disputeAdvance_spec hwrite
        obtain rfl := hL.versions.current hseen hr hopen hopen' (hcycle.trans hcycle'.symm)
        obtain ⟨o, ho, hod, hov, -⟩ := hL.opening _ seen hr hopen
        have hsign : plan.input.phase.sign = -1 := by
          rw [hin]
          rcases hphase with hp | hp <;> simp [ChargebackRequest.input, DisputePhase.sign]
        have hafter : openDisputed accounts L' req.dispute k = 0 :=
          openDisputed_of_resolved h.row_self hne
        have hbefore : openDisputed accounts L req.dispute k =
            if o.input.variant = .arReclass ∧ receivable accounts o.input = some k
              then o.input.disputedAmount.value else 0 := by
          simp [openDisputed, hr, ho, hopen]
        have hv : plan.input.variant = o.input.variant := by rw [hin, hov]; rfl
        rw [hafter, hbefore, hv, hsign]
        cases hvar : o.input.variant with
        | cashHold => simp
        | arReclass =>
          obtain ⟨hpayer, hinvoice, hamount⟩ := hrep hphase o ho hvar
          have hrec : receivable accounts plan.input = receivable accounts o.input := by
            have htenant : o.input.tenantId = req.tenantId := congrArg Prod.fst hod
            simp only [receivable, hin, ChargebackRequest.input, hpayer, hinvoice, hamount, htenant]
          rw [hrec, hamount]
          by_cases hk : receivable accounts o.input = some k <;> simp [hk]
    · rw [DisputeLedger.disputedOf, h.phasesOf_of_ne hd, openDisputed, h.row_of_ne hd,
        h.opening_of_ne hd]
      exact hL.disputed dispute k hk
  · by_cases hd : dispute = req.dispute
    · subst hd
      rw [h.row_self] at hrow
      cases hrow
      rcases h.cases with ⟨hphase, hin, hwrite⟩ | ⟨-, -, -, -, -, -, hwrite⟩
      · obtain ⟨-, -, version, rfl⟩ := disputeUpsert_spec hwrite
        have hp : plan.input.phase = .opened := by rw [hin]; exact hphase
        exact ⟨plan, h.opening_of_opened hp, h.dispute, by rw [hin]; rfl, by rw [hin]; rfl⟩
      · obtain ⟨hne, r, -, -, -, -, -, version, rfl⟩ := disputeAdvance_spec hwrite
        exact absurd hopen hne
    · rw [h.row_of_ne hd] at hrow
      rw [h.opening_of_ne hd]
      exact hL.opening dispute row hrow hopen

end Step

theorem step_disputedAgrees {event : LedgerEvent} (hL : DisputedAgrees accounts L)
    (hrep : RepeatsOpening L event) (h : L.step accounts event = .ok L') :
    DisputedAgrees accounts L' := by
  cases event with
  | phase req reads =>
    obtain ⟨plan, next, hrec⟩ := recordPhase_spec h
    exact hrec.disputedAgrees hL hrep
  | posting P =>
    simp only [DisputeLedger.step, ok_iffs] at h
    obtain ⟨caches, -, rfl⟩ := h
    exact { hL with }
  | settlement payment state =>
    cases h
    exact { hL with }

/-- **A disputed receivable is never stranded by outcomes that repeat their opening.**  After any
history of accepted requests, stale reads, other postings and other changes of the settlements, an
open dispute has in the disputed part of a row exactly the amount that its opening recorded, in the
receivable that the opening named; a won or lost dispute has nothing in any of them. -/
theorem ar_reclass_never_stranded {accounts : Accounts}
    {settlements : Uuid × String → Option SettlementState} {caches : Caches}
    {events : List LedgerEvent} {L : DisputeLedger}
    (h : Machine.run (DisputeLedger.step accounts) (.start settlements caches) events = .ok L)
    (hrep : Machine.AllSteps (DisputeLedger.step accounts) RepeatsOpening
      (.start settlements caches) events)
    (dispute : Uuid × String) {k : BusinessKey} (hk : k.table = .arInvoice) :
    (L.row dispute = none → L.disputedOf dispute k = 0) ∧
      ∀ row, L.row dispute = some row →
        (row.lastPhase = .won ∨ row.lastPhase = .lost → L.disputedOf dispute k = 0) ∧
        (row.lastPhase = .opened → ∃ o, L.opening dispute = some o ∧
          o.input.variant = row.variant ∧ o.input.disputedAmount = row.disputedAmount ∧
          L.disputedOf dispute k =
            if row.variant = .arReclass ∧ receivable accounts o.input = some k
              then row.disputedAmount.value else 0) := by
  have hstart : DisputedAgrees accounts (.start settlements caches) :=
    ⟨fun _ _ hrow => (by cases hrow), fun _ _ _ => rfl, fun _ _ hrow => (by cases hrow)⟩
  have hL := Machine.run_guarded (fun _ _ _ hL hc hs => step_disputedAgrees hL hc hs) h hrep hstart
  have hsum := hL.disputed dispute k hk
  refine ⟨fun hnone => ?_, fun row hrow => ⟨fun hresolved => ?_, fun hopen => ?_⟩⟩
  · rw [hsum, openDisputed_of_none hnone]
  · rw [hsum, openDisputed_of_resolved hrow]
    rcases hresolved with hr | hr <;> simp [hr]
  · obtain ⟨o, ho, -, hv, hamount⟩ := hL.opening dispute row hrow hopen
    rw [hsum, openDisputed, hrow, ho]
    simp [hopen, hv, hamount]

/-- An invoice of a hundred dollars, disputed in full and won with the given amount. -/
def sampleReclassEvents (outcome : PostedMoney) : List LedgerEvent :=
  [.posting (sampleTransfer
      { NewLine.plain 1 7 100 .ar .debit (.cents 10000) with
        invoiceId := some "inv-1" }
      (.plain 2 7 201 .revenue .credit (.cents 10000))),
    .phase (sampleChargeback .notMoved 1 .opened (.cents 10000))
      (sampleReads none),
    .phase (sampleChargeback .notMoved 1 .won outcome) (sampleReads none)]

/-- The receivable of the sample invoice. -/
def sampleReceivable : BusinessKey := .arInvoice 9 7 100 "inv-1"

theorem ar_reclass_never_stranded_sample : ∃ L,
    Machine.run (DisputeLedger.step sampleAccounts) (.start (fun _ => none) .empty)
      (sampleReclassEvents (.cents 10000)) = .ok L ∧
    (∃ row, L.row (9, "dsp-1") = some row ∧ row.lastPhase = .won) ∧
    L.disputedOf (9, "dsp-1") sampleReceivable = 0 := by
  refine exists_ok_of (P := fun L => ∃ row, L.row (9, "dsp-1") = some row ∧ row.lastPhase = .won)
    (by decide +kernel) fun L hL hwon => ?_
  obtain ⟨row, hrow, hwon⟩ := hwon
  exact ⟨⟨row, hrow, hwon⟩, ((ar_reclass_never_stranded hL (by decide +kernel) (9, "dsp-1")
    rfl).2 row hrow).1 (.inl hwon)⟩

/-- **An outcome of a smaller amount strands the rest.**  A dispute of a hundred dollars is won
with sixty: the request is accepted, the row is won, and forty dollars of the receivable stay
disputed. -/
theorem ar_reclass_stranded : ∃ L,
    Machine.run (DisputeLedger.step sampleAccounts) (.start (fun _ => none) .empty)
      (sampleReclassEvents (.cents 6000)) = .ok L ∧
    (∃ row, L.row (9, "dsp-1") = some row ∧ row.lastPhase = .won ∧ row.variant = .arReclass) ∧
    L.disputedOf (9, "dsp-1") sampleReceivable = 40 ∧
    (L.caches sampleReceivable).bind (·.disputed) = some (.cents 4000) := by
  decide +kernel

end Gears.Ledger
