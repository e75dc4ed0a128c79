import Gears.Ledger.Posting
import Gears.Ledger.Projection

/-!
# Reversals

`buildReversal` rebuilds every line of a stored entry from its read-back view, with the side
flipped.  The view has fewer columns than the journal line, so the lineage columns of the
original are lost; this file shows that nothing the caches depend on is among them.

* `deriveGrains_reversal` : the grains of the reversal are those of the original, negated.
* `reversal_cancels` : posting an entry and then its reversal changes no balance.
-/

namespace Gears.Ledger

open Money Except List ExactAmount

variable {lines rlines : List NewLine} {J : List Posting} {functional stored f : Option PostedMoney}
  {R : Posting} {caches₂ : Caches}

/-- A line as the read API returns it. -/
structure LineView where
  lineId : Uuid
  entryId : Uuid
  payerTenantId : Uuid
  accountId : Uuid
  accountClass : AccountClass
  glCode : Option String
  side : Side
  money : PostedMoney
  invoiceId : Option String
  dueDate : Option NaiveDate
  revenueStream : Option String
  mappingStatus : MappingStatus
  functionalMoney : Option PostedMoney
  taxJurisdiction : Option String
  taxFilingPeriod : Option String
  arStatus : Option String
  deriving DecidableEq, Repr

/-- An entry as the read API returns it. -/
structure EntryView where
  entryId : Uuid
  tenantId : Uuid
  periodId : String
  entryCurrency : String
  sourceDocType : SourceDocType
  sourceBusinessId : String
  reversesEntryId : Option Uuid
  reversesPeriodId : Option String
  postedAtUtc : Instant
  effectiveAt : NaiveDate
  postedByActorId : Uuid
  origin : String
  correlationId : Uuid
  createdSeq : ℤ
  lines : List LineView
  deriving DecidableEq, Repr

/-- The view of a stored line. -/
def lineRecordToView (entryId : Uuid) (l : NewLine) : LineView := { l with entryId }

/-- The view of a stored entry with its lines, in the order they are read. -/
def entryRecordToView (entry : NewEntry) (createdSeq : ℤ) (lines : List NewLine) : EntryView :=
  { entry with
    createdSeq
    lines := lines.map (lineRecordToView entry.entryId) }

/-! ### Building the reversal -/

/-- Why a reversal could not be built. -/
inductive ReversalError
  | cannotReverseReversal
  | money (error : MoneyError)
  | creditGrantNotReconstructible
  deriving DecidableEq, Repr

/-- The business id of a reversal. -/
def reversalBusinessId (originalEntryId : Uuid) : String := "reverses=" ++ originalEntryId.text

/-- A functional-only line in another currency than the entry's. -/
def foreignFunctionalOnly (header : String) (money : PostedMoney)
    (functionalMoney : Option PostedMoney) : Prop :=
  isFunctionalOnly money functionalMoney = true ∧ money.currency.code ≠ header

instance (header : String) (money : PostedMoney) (functionalMoney : Option PostedMoney) :
    Decidable (foreignFunctionalOnly header money functionalMoney) :=
  inferInstanceAs (Decidable (_ ∧ _))

/-- One line of `validateMoney`: the scale of the lines so far, checked against the next one. -/
def validateMoneyStep (header : String) (scale : Option ℕ)
    (line : PostedMoney × Option PostedMoney) : Except MoneyError (Option ℕ) :=
  if foreignFunctionalOnly header line.1 line.2 then .ok scale
  else do
    rejectIf (line.1.currency.code ≠ header) .currencyMismatch
    forSome scale fun stored =>
      rejectIf (stored ≠ line.1.currency.scale) .scaleMismatch
    return some line.1.currency.scale

/-- Check the currency metadata of copied lines against the header. -/
def validateMoney (header : String) (lines : List (PostedMoney × Option PostedMoney)) :
    Except MoneyError Unit :=
  (lines.foldlM (validateMoneyStep header) none).map fun _ => ()

/-- Negate a read-back line: flip the side, keep the amounts and the account, invoice and tax
columns.  The view has no lineage columns, so those are empty. -/
def flipLine (lineId : Uuid) (l : LineView) : NewLine :=
  { l with
    lineId
    side := l.side.flip
    sellerTenantId := none
    resourceTenantId := none
    taxRateRef := none
    legalEntityId := none
    invoiceItemRef := none
    skuOrPlanRef := none
    priceId := none
    pricingSnapshotRef := none
    poAllocationGroup := none
    creditGrantEventType := none }

/-- Build the reversing entry.  `fresh` supplies the generated ids: the entry's first, then one
for each line. -/
def buildReversal (fresh : ℕ → Uuid) (original : EntryView) (intoPeriodId : String)
    (effectiveOn : NaiveDate) (postedByActorId correlationId : Uuid) :
    Except ReversalError PostEntry := do
  rejectIf (original.sourceDocType = .reversal) .cannotReverseReversal
  rejectIf (∃ l ∈ original.lines, l.accountClass = .reusableCredit)
    .creditGrantNotReconstructible
  (validateMoney original.entryCurrency
    (original.lines.map fun l => (l.money, l.functionalMoney))).mapError .money
  return {
    entryId := fresh 0
    tenantId := original.tenantId
    periodId := intoPeriodId
    entryCurrency := original.entryCurrency
    sourceDocType := .reversal
    sourceBusinessId := reversalBusinessId original.entryId
    effectiveAt := effectiveOn
    postedByActorId := postedByActorId
    correlationId := correlationId
    reversesEntryId := some original.entryId
    reversesPeriodId := some original.periodId
    lines := original.lines.mapIdx fun i l => flipLine (fresh (i + 1)) l }

/-- The reversing line has every column of the original that the caches read. -/
structure Flips (l r : NewLine) : Prop where
  payerTenantId : r.payerTenantId = l.payerTenantId
  accountId : r.accountId = l.accountId
  accountClass : r.accountClass = l.accountClass
  side : r.side = l.side.flip
  money : r.money = l.money
  functionalMoney : r.functionalMoney = l.functionalMoney
  invoiceId : r.invoiceId = l.invoiceId
  dueDate : r.dueDate = l.dueDate
  taxJurisdiction : r.taxJurisdiction = l.taxJurisdiction
  taxFilingPeriod : r.taxFilingPeriod = l.taxFilingPeriod
  arStatus : r.arStatus = l.arStatus
  not_credit : l.accountClass ≠ .reusableCredit

variable {entry entry' : NewEntry} {seq : ℤ} {l r : NewLine} {g : GrainDelta}
    {caches caches₁ : Caches} {P : Posting}

/-- What a built reversal is: a header of the same tenant and currency, and one flipped line for
each stored line. -/
theorem buildReversal_spec {fresh : ℕ → Uuid} {period : String} {on : NaiveDate}
    {actor correlation : Uuid} {reversal : PostEntry}
    (h : buildReversal fresh (entryRecordToView entry seq lines) period on actor correlation =
      .ok reversal) :
    reversal.tenantId = entry.tenantId ∧ reversal.entryCurrency = entry.entryCurrency ∧
      Forall₂ Flips lines reversal.lines := by
  simp only [buildReversal, ok_iffs, exists_const] at h
  obtain ⟨-, hcredit, -, -, rfl⟩ := h
  refine ⟨rfl, rfl, forall₂_iff_get.2 ⟨by simp [entryRecordToView], ?_⟩⟩
  intro i hi hi'
  constructor <;> simp_all [entryRecordToView, flipLine, lineRecordToView]

/-! ### The grains of a reversal -/

/-- The opposite of a grain, posted at `now`. -/
def GrainDelta.reversed (now : Instant) (g : GrainDelta) : GrainDelta :=
  { g with
    delta := g.delta.neg
    functionalDelta := g.functionalDelta.neg
    disputedDelta := g.disputedDelta.neg
    postedAt := now }

@[simp] theorem sortKey_reversed (now : Instant) (g : GrainDelta) :
    (g.reversed now).sortKey = g.sortKey := rfl

@[simp] theorem businessKey_reversed (now : Instant) (g : GrainDelta) :
    (g.reversed now).businessKey = g.businessKey := rfl

theorem signed_flip (side normal : Side) (m : PostedMoney) :
    signed side.flip normal m = (signed side normal m).neg := by
  refine toRat_injective ?_
  cases side <;> cases normal <;> simp [signed, Side.flip]

theorem baseGrain_flips (h : Flips l r) (ht : entry'.tenantId = entry.tenantId) (normal : Side) :
    baseGrain entry' r normal = (baseGrain entry l normal).reversed entry'.postedAtUtc := by
  have hzero : fromDecimal .zero = (fromDecimal .zero).neg :=
    (neg_eq_zero_iff.2 rfl).symm
  simp only [baseGrain, GrainDelta.reversed, h.payerTenantId, h.accountId, h.accountClass, h.side,
    h.money, h.functionalMoney, ht, signed_flip, GrainDelta.mk.injEq, true_and, and_true]
  refine ⟨?_, hzero⟩
  cases l.functionalMoney with
  | none => exact hzero
  | some m => rfl

theorem subGrains_flips (entry entry' : NewEntry) (h : Flips l r) (base : GrainDelta) :
    subGrains entry' r (base.reversed entry'.postedAtUtc) =
      (subGrains entry l base).map (map (GrainDelta.reversed entry'.postedAtUtc)) := by
  have hzero : (fromDecimal .zero).neg = fromDecimal .zero :=
    neg_eq_zero_iff.2 rfl
  unfold subGrains
  rw [h.accountClass, h.invoiceId, h.arStatus, h.dueDate, h.taxJurisdiction, h.taxFilingPeriod]
  cases hc : l.accountClass
  case ar =>
    cases l.invoiceId with
    | none => rfl
    | some i =>
      by_cases hs : l.arStatus = some arStatusDisputed
      · simp [GrainDelta.reversed, Except.map, hs]
      · simp [GrainDelta.reversed, Except.map, hs, hzero]
  case taxPayable =>
    cases l.taxJurisdiction with
    | none => rfl
    | some j => cases l.taxFilingPeriod <;> rfl
  case reusableCredit => exact absurd hc h.not_credit
  all_goals rfl

theorem lineGrains_flips (h : Flips l r)
    (ht : entry'.tenantId = entry.tenantId) (normalSides : Uuid → Option Side) :
    lineGrains entry' normalSides r = (lineGrains entry normalSides l).map
      (map (GrainDelta.reversed entry'.postedAtUtc)) := by
  unfold lineGrains
  rw [h.accountId]
  cases normalSides l.accountId with
  | none => rfl
  | some normal =>
    simp only [baseGrain_flips h ht, subGrains_flips entry entry' h]
    cases subGrains entry l (baseGrain entry l normal) <;> rfl

theorem mergeGrain_reversed (now : Instant) (a b : GrainDelta) :
    mergeGrain (a.reversed now) (b.reversed now) =
      (mergeGrain a b).map (GrainDelta.reversed now) := by
  have hadd (x y : ExactAmount) : (x.neg.checkedAdd y.neg).mapError ProjectError.ofExact =
      ((x.checkedAdd y).mapError ProjectError.ofExact).map .neg := by
    rw [checkedAdd_neg]
    cases x.checkedAdd y <;> rfl
  -- the checks read columns that a reversal keeps
  refine bind_eq_map_bind fun _ => bind_eq_map_bind fun _ => ?_
  refine bind_eq_map_bind fun _ => ?_
  simp only [GrainDelta.reversed, hadd, map_bind]
  refine bind_eq_map_bind fun _ => bind_eq_map_bind fun _ => ?_
  exact bind_eq_map_bind fun _ => rfl

/-- **The grains of a reversal.**  They are the grains of the original in the same order, with
every delta negated; where the original is refused, so is the reversal. -/
theorem deriveGrains_flips (h : Forall₂ Flips lines rlines) (ht : entry'.tenantId = entry.tenantId)
    (normalSides : Uuid → Option Side) :
    deriveGrains entry' rlines normalSides = (deriveGrains entry lines normalSides).map
      (map (GrainDelta.reversed entry'.postedAtUtc)) := by
  have hmapM : rlines.mapM (lineGrains entry' normalSides) =
      (lines.mapM (lineGrains entry normalSides)).map
        (map (map (GrainDelta.reversed entry'.postedAtUtc))) := by
    induction h with
    | nil => rfl
    | @cons l r lines rlines hlr _ ih =>
      rw [mapM_cons, mapM_cons, lineGrains_flips hlr ht, ih]
      cases lineGrains entry normalSides l with
      | error e => rfl
      | ok gs => cases lines.mapM (lineGrains entry normalSides) <;> rfl
  unfold deriveGrains
  rw [hmapM, map_bind]
  cases lines.mapM (lineGrains entry normalSides) with
  | error e => rfl
  | ok gss =>
    simp only [ok_bind]
    have hsort : (gss.flatten.map (GrainDelta.reversed entry'.postedAtUtc)).insertionSort
        (fun a b => a.sortKey ≤ b.sortKey) =
          (gss.flatten.insertionSort fun a b => a.sortKey ≤ b.sortKey).map
            (GrainDelta.reversed entry'.postedAtUtc) :=
      (map_insertionSort _ _ (GrainDelta.reversed entry'.postedAtUtc) _
        fun a _ b _ => by rw [sortKey_reversed, sortKey_reversed]).symm
    rw [← map_flatten, hsort]
    exact coalesce_map _ (sortKey_reversed _) (mergeGrain_reversed _) _

/-! ### The caches accept the opposite of a grain -/

theorem finalAmount_neg {delta : ExactAmount} {c : CurrencySpec} {m : PostedMoney}
    (h : finalAmount delta stored c = .ok m) : ∃ m', finalAmount delta.neg (some m) c = .ok m' ∧
      m'.value = stored.elim 0 PostedMoney.value := by
  obtain ⟨hs, hb, hc, hv⟩ := finalAmount_eq_ok_iff.1 h
  -- the money the row held before, or zero
  have hold : ∃ m' : PostedMoney, m'.currency = c ∧
      m'.value = stored.elim 0 PostedMoney.value := by
    cases stored with
    | none => exact ⟨.zero c, rfl, Decimal.toRat_zero⟩
    | some s => exact ⟨s, hs s rfl, rfl⟩
  obtain ⟨m', hc', hv'⟩ := hold
  refine ⟨m', finalAmount_eq_ok_iff.2 ⟨?_, inBudget_neg.2 hb, hc', ?_⟩, hv'⟩
  · rintro s ⟨⟩
    exact hc
  · rw [toRat_neg, Option.elim_some, hv, hv']
    ring

theorem finalFunctional_reversed (h : finalFunctional g functional = .ok f) (now : Instant) :
    ∃ f', finalFunctional (g.reversed now) f = .ok f' := by
  cases f with
  | none =>
    have hnone := finalFunctional_eq_ok_none_iff.1 h
    exact ⟨none, finalFunctional_eq_ok_none_iff.2 hnone⟩
  | some f =>
    obtain ⟨ht, hc, hs, hd, hv⟩ := finalFunctional_eq_ok_some_iff.1 h
    obtain ⟨f', hf', -⟩ := finalAmount_neg (finalAmount_eq_ok_iff.2 ⟨hs, hd, rfl, hv⟩)
    obtain ⟨hs', hd', hc', hv'⟩ := finalAmount_eq_ok_iff.1 hf'
    refine ⟨some f', finalFunctional_eq_ok_some_iff.2 ⟨ht, ?_, ?_, hd', hv'⟩⟩
    · rw [hc']
      exact hc
    · rw [hc']
      exact hs'

theorem finalBalances_reversed {b : PostedMoney}
    (h : finalBalances g stored functional = .ok (b, f))
    (hguard : g.accountClass.isGuarded = true ∨ g.tableRank = .reusableCredit →
      0 ≤ stored.elim 0 PostedMoney.value)
    (now : Instant) : ∃ b' f', finalBalances (g.reversed now) (some b) f = .ok (b', f') ∧
      b'.value = stored.elim 0 PostedMoney.value := by
  obtain ⟨h₁, -, h₃, h₄, h₅, -, h₇⟩ := finalBalances_eq_ok_iff.1 h
  obtain ⟨b', hb', hv'⟩ := finalAmount_neg (finalAmount_eq_ok_iff.2 ⟨h₁, h₃, h₄, h₅⟩)
  obtain ⟨hs', hd', hc', hv''⟩ := finalAmount_eq_ok_iff.1 hb'
  obtain ⟨f', hf'⟩ := finalFunctional_reversed h₇ now
  obtain ⟨-, hcur, -⟩ := finalFunctional_step h₇
  refine ⟨b', f', finalBalances_eq_ok_iff.2 ⟨hs', ?_, hd', hc', hv'', ?_, hf'⟩, hv'⟩
  · exact fun ht => (hcur ht.2).symm
  · intro hg
    rw [hv']
    exact hguard hg

theorem finalDisputed_reversed {existing : Option CacheRow} {b b' : PostedMoney}
    {o : Option PostedMoney} (h : finalDisputed g existing b = .ok o)
    (hb' : b'.value = balanceOf existing) (hold : 0 ≤ disputedOf existing ∧
      disputedOf existing ≤ balanceOf existing) {row : CacheRow} (hrow : row.disputed = o)
    (hbal : row.balance = b) (now : Instant) :
    ∃ o', finalDisputed (g.reversed now) (some row) b' = .ok o' := by
  obtain ⟨-, d, rfl, hd, h₀, hle⟩ := finalDisputed_eq_ok_iff.1 h
  obtain ⟨d', hd', hv'⟩ := finalAmount_neg hd
  refine ⟨some d', finalDisputed_eq_ok_iff.2 ⟨?_, d', rfl, ?_, ?_⟩⟩
  · rintro r ⟨⟩ e he
    cases hrow.symm.trans he
    rw [hbal]
    exact ⟨h₀, hle⟩
  · rw [Option.bind_some, hrow]
    exact hd'
  · rw [hv', hb']
    exact hold

/-- **One grain can be taken back.**  If the row a grain was applied to is within its bounds, then
the row it left accepts the opposite grain, as long as its version counter has room. -/
theorem upsertGrain_reversed {seq' : ℤ} (h : upsertGrain seq caches g = .ok caches₁)
    (hguard : g.accountClass.isGuarded = true ∨ g.tableRank = .reusableCredit →
      0 ≤ balanceOf (caches g.businessKey))
    (hdisputed : g.tableRank = .arInvoice → 0 ≤ disputedOf (caches g.businessKey) ∧
      disputedOf (caches g.businessKey) ≤ balanceOf (caches g.businessKey))
    (hversion : ∀ r ∈ caches₁ g.businessKey, r.version + 1 < 2 ^ 63)
    (hk : caches₂ g.businessKey = caches₁ g.businessKey) (now : Instant) :
    ∃ caches₃, upsertGrain seq' caches₂ (g.reversed now) = .ok caches₃ := by
  rw [upsertGrain_eq] at h ⊢
  -- what the row that `g` left has to offer to the opposite grain
  have accept : ∀ (row : CacheRow) (stored functional : Option PostedMoney) (f o),
      caches₁ g.businessKey = some row → row.accountId = g.accountId →
      g.verify row = .ok () → stored.elim 0 PostedMoney.value = balanceOf (caches g.businessKey) →
      finalBalances g stored functional = .ok (row.balance, f) → row.functional = f →
      g.dispute (caches g.businessKey) row.balance = .ok o → row.disputed = o →
      ∃ caches₃, upsertRow (g.reversed now).businessKey (g.reversed now).verify
        (g.reversed now).dispute (g.reversed now).stamp caches₂ (g.reversed now) seq' =
          .ok caches₃ := by
    intro row stored functional f o hrow ha hv hst hb hf hd ho
    obtain ⟨b', f', hb', hval⟩ := finalBalances_reversed hb (by rw [hst]; exact hguard) now
    have hdis : ∃ o', (g.reversed now).dispute (some row) b' = .ok o' := by
      unfold GrainDelta.dispute at hd ⊢
      by_cases ht : g.tableRank = .arInvoice
      · rw [if_pos ht] at hd
        rw [if_pos (show (g.reversed now).tableRank = .arInvoice from ht)]
        exact finalDisputed_reversed hd (hval.trans hst) (hdisputed ht) ho rfl now
      · exact ⟨none, if_neg ht⟩
    obtain ⟨o', ho'⟩ := hdis
    refine ⟨_, upsertRow_eq_ok_iff.2 (.inl ⟨row, b', f', o', row.version + 1, ?_, ha, hv, ?_, ho',
      ?_, rfl⟩)⟩
    · rw [businessKey_reversed, hk, hrow]
    · rw [hf]
      exact hb'
    · exact if_pos (hversion row hrow)
  rcases upsertRow_eq_ok_iff.1 h with ⟨r, b, f, d, v, hr, ha, hv, hb, hd, -, rfl⟩ |
    ⟨b, f, d, hr, hb, hd, rfl⟩
  · refine accept _ (some r.balance) r.functional f d (Function.update_self ..) ha hv ?_ hb rfl ?_
      rfl
    · rw [hr]
      rfl
    · rw [hr]
      exact hd
  · obtain ⟨hs₁, hs₂, hs₃, hs₄, hs₅⟩ := stamp_spec g (freshRow g seq b f d)
    refine accept _ none none f d (Function.update_self ..) hs₄ ?_ ?_ ?_ hs₂ ?_ hs₃
    · simpa [GrainDelta.verify] using hs₅
    · rw [hr]
      rfl
    · rw [hs₁]
      exact hb
    · rw [hs₁, hr]
      exact hd

/-- The opposites of grains of distinct rows are accepted one after another. -/
theorem foldlM_reversed {now : Instant} {gs : List GrainDelta}
    (hpw : gs.Pairwise fun a b => a.businessKey ≠ b.businessKey)
    (hacc : ∀ g ∈ gs, ∀ caches : Caches, caches g.businessKey = caches₁ g.businessKey →
      ∃ caches', upsertGrain seq caches (g.reversed now) = .ok caches')
    (caches : Caches) (hc : ∀ g ∈ gs, caches g.businessKey = caches₁ g.businessKey) :
    ∃ caches', (gs.map (GrainDelta.reversed now)).foldlM (upsertGrain seq) caches =
      .ok caches' := by
  induction gs generalizing caches with
  | nil => exact ⟨caches, rfl⟩
  | cons g gs ih =>
    obtain ⟨hg, hpw⟩ := pairwise_cons.1 hpw
    obtain ⟨caches₂, h₂⟩ := hacc g mem_cons_self caches (hc g mem_cons_self)
    obtain ⟨row, rfl, -⟩ := upsertGrain_step h₂
    -- the rows of the remaining grains have not been written
    have hrest : ∀ g' ∈ gs, Function.update caches (g.reversed now).businessKey (some row)
        g'.businessKey = caches₁ g'.businessKey := by
      intro g' hg'
      rw [businessKey_reversed, Function.update_of_ne (hg g' hg').symm]
      exact hc g' (mem_cons_of_mem _ hg')
    obtain ⟨caches', h'⟩ := ih hpw (fun g' hg' => hacc g' (mem_cons_of_mem _ hg')) _ hrest
    exact ⟨caches', by rw [map_cons, foldlM_cons, h₂, ok_bind, h']⟩

theorem RowStep.old_nonneg (hJ : CachesAgree J caches) {k : BusinessKey} {row : CacheRow}
    (hg : GrainAgrees P k g) (hs : RowStep g (caches k) row)
    (hguard : g.accountClass.isGuarded = true ∨ g.tableRank = .reusableCredit) :
    0 ≤ balanceOf (caches k) := by
  have htab : k.table = g.tableRank := by rw [← hg.key, table_businessKey]
  cases hc : caches k with
  | none => exact le_refl 0
  | some r =>
    have hr := (hJ k).2 r hc
    rcases hguard with hguard | ht
    · -- an earlier line of the row has the class of the grain
      have hne : journalLines J k ≠ [] := fun hn => by
        rw [(hJ k).1.2 hn] at hc
        cases hc
      obtain ⟨x, hx⟩ := exists_mem_of_ne_nil _ hne
      refine hr.guarded x hx ?_
      by_cases ht : k.table = .account
      · obtain ⟨side, -, hcl⟩ := hr.classification ht x hx
        rw [hs.classification_old (htab ▸ ht) r hc] at hcl
        simp only [Option.some.injEq, Prod.mk.injEq] at hcl
        rwa [← hcl.1]
      · obtain ⟨l, hl⟩ := exists_mem_of_ne_nil _ hg.nonempty
        rw [(covers_of_mem_journalLines hx).accountClass_eq ht
          (of_decide_eq_true (mem_filter.1 hl).2), (hg.attributes l hl).2.2.2.1]
        exact hguard
    · exact hr.reusableCredit (htab.trans ht)

theorem reversal_accepted (hJ : CachesAgree J caches) (h : projectPosting caches P = .ok caches₁)
    (hlines : Forall₂ Flips P.lines R.lines) (ht : R.entry.tenantId = P.entry.tenantId)
    (hsides : R.normalSides = P.normalSides)
    (hversion : ∀ k, ∀ r ∈ caches₁ k, r.version + 1 < 2 ^ 63) :
    ∃ caches₂, projectPosting caches₁ R = .ok caches₂ := by
  simp only [projectPosting, project, bind_eq_ok_iff] at h
  obtain ⟨gs, hgs, hfold⟩ := h
  obtain ⟨hpw, hagr, -⟩ := deriveGrains_agrees hgs
  obtain ⟨-, hstep⟩ := foldlM_upsertGrain hpw hfold
  have hrev : deriveGrains R.entry R.lines R.normalSides =
      .ok (gs.map (GrainDelta.reversed R.entry.postedAtUtc)) := by
    rw [hsides, deriveGrains_flips hlines ht, hgs]
    rfl
  have hacc : ∀ g ∈ gs, ∀ caches₂ : Caches, caches₂ g.businessKey = caches₁ g.businessKey →
      ∃ caches₃, upsertGrain R.createdSeq caches₂ (g.reversed R.entry.postedAtUtc) =
        .ok caches₃ := by
    intro g hg caches₂ hk
    obtain ⟨before, after, hu, hb, ha⟩ := hstep g hg
    obtain ⟨row, -, hs⟩ := upsertGrain_step hu
    rw [hb] at hs
    refine upsertGrain_reversed hu ?_ ?_ ?_ (hk.trans ha.symm) _
    · rw [hb]
      exact hs.old_nonneg hJ (hagr g hg)
    · intro hi
      rw [hb]
      cases hc : caches g.businessKey with
      | none => exact ⟨le_refl 0, le_refl 0⟩
      | some r =>
        obtain ⟨d, hd, -, hbounds⟩ := ((hJ _).2 r hc).disputed ((table_businessKey g).trans hi)
        simpa [disputedOf, balanceOf, hd] using hbounds
    · rw [ha]
      exact hversion _
  obtain ⟨caches₂, h₂⟩ := foldlM_reversed hpw hacc caches₁ fun _ _ => rfl
  exact ⟨caches₂, by simp only [projectPosting, project, hrev, ok_bind, h₂]⟩

/-! ### An entry and its reversal cancel -/

theorem Flips.covers (h : Flips l r) (tenant : Uuid) (k : BusinessKey) :
    Covers tenant r k ↔ Covers tenant l k := by
  cases k with
  | reusableCredit => exact ⟨fun hk => absurd (h.accountClass ▸ hk.1) h.not_credit,
      fun hk => absurd hk.1 h.not_credit⟩
  | _ => simp only [Covers, h.payerTenantId, h.accountId, h.accountClass, h.money, h.invoiceId,
      h.taxJurisdiction, h.taxFilingPeriod]

theorem signedValue_flip (normal side : Side) (m : PostedMoney) :
    signedValue (some normal) side.flip m = -signedValue (some normal) side m := by
  cases normal <;> cases side <;> simp [signedValue, Side.flip]

theorem sum_linesAt_flips (hlines : Forall₂ Flips P.lines R.lines)
    (ht : R.entry.tenantId = P.entry.tenantId) {f f' : NewLine → ℚ}
    (hf : ∀ l ∈ P.lines, ∀ r, Flips l r → f' r = -f l) (k : BusinessKey) :
    ((R.linesAt k).map f').sum = -((P.linesAt k).map f).sum := by
  unfold Posting.linesAt
  rw [ht]
  generalize P.lines = lines at hlines hf
  generalize R.lines = rlines at hlines
  induction hlines with
  | nil => simp
  | @cons l r lines rlines hlr _ ih =>
    have ih := ih fun a ha => hf a (mem_cons_of_mem _ ha)
    have hcov := hlr.covers P.entry.tenantId k
    by_cases hc : Covers P.entry.tenantId l k
    · rw [filter_cons_of_pos (by simpa using hcov.2 hc),
        filter_cons_of_pos (by simpa using hc), map_cons, map_cons, sum_cons,
        sum_cons, ih, hf l mem_cons_self r hlr]
      ring
    · rw [filter_cons_of_neg (by simpa using mt hcov.1 hc), filter_cons_of_neg (by simpa using hc)]
      exact ih

theorem sum_linesAt_perm {P' : Posting} (h : P'.lines.Perm P.lines)
    (ht : P'.entry.tenantId = P.entry.tenantId) (f : NewLine → ℚ) (k : BusinessKey) :
    ((P'.linesAt k).map f).sum = ((P.linesAt k).map f).sum := by
  unfold Posting.linesAt
  rw [ht]
  exact ((h.filter _).map f).sum_eq

section Flipped

variable {P R : Posting} (hsides : R.normalSides = P.normalSides)
  (hcover : ∀ l ∈ P.lines, ∃ s, P.normalSides l.accountId = some s)

include hsides hcover

theorem amountOf_flips : ∀ l ∈ P.lines, ∀ r, Flips l r → R.amountOf r = -P.amountOf l := by
  intro l hl r h
  obtain ⟨s, hs⟩ := hcover l hl
  rw [Posting.amountOf, Posting.amountOf, hsides, h.accountId, h.side, h.money, hs,
    signedValue_flip]

theorem functionalOf_flips : ∀ l ∈ P.lines, ∀ r, Flips l r →
    R.functionalOf r = -P.functionalOf l := by
  intro l hl r h
  obtain ⟨s, hs⟩ := hcover l hl
  rw [Posting.functionalOf, Posting.functionalOf, hsides, h.accountId, h.side, h.functionalMoney,
    hs]
  cases l.functionalMoney with
  | none => exact neg_zero.symm
  | some m => exact signedValue_flip s l.side m

theorem disputedOf_flips : ∀ l ∈ P.lines, ∀ r, Flips l r → R.disputedOf r = -P.disputedOf l := by
  intro l hl r h
  rw [Posting.disputedOf, Posting.disputedOf, h.arStatus, amountOf_flips hsides hcover l hl r h]
  split
  · rfl
  · exact neg_zero.symm

end Flipped

/-- The journal sums of a row after an entry and lines that carry the opposite totals. -/
theorem journalSum_cancel (f : Posting → NewLine → ℚ) (J : List Posting) (P R : Posting)
    (k : BusinessKey) (h : ((R.linesAt k).map (f R)).sum = -((P.linesAt k).map (f P)).sum) :
    journalSum f (journalLines (J ++ [P] ++ [R]) k) = journalSum f (journalLines J k) := by
  rw [journalLines_append, journalSum_append, journalLines_append, journalSum_append, h]
  ring

/-- **Posting an entry and then its reversal restores every balance**, in whatever order the
entry's lines were read back. -/
theorem balances_restored {caches caches₁ : Caches} {P Q : Posting} (hJ : CachesAgree J caches)
    (h₁ : projectPosting caches P = .ok caches₁) (h₂ : projectPosting caches₁ R = .ok caches₂)
    (hperm : P.lines.Perm Q.lines) (hPQ : P.entry.tenantId = Q.entry.tenantId)
    (hsidesP : P.normalSides = Q.normalSides) (hlines : Forall₂ Flips Q.lines R.lines)
    (ht : R.entry.tenantId = Q.entry.tenantId) (hsides : R.normalSides = Q.normalSides)
    (hcover : ∀ l ∈ Q.lines, ∃ s, Q.normalSides l.accountId = some s) (k : BusinessKey) :
    balanceOf (caches₂ k) = balanceOf (caches k) ∧
      functionalOf (caches₂ k) = functionalOf (caches k) ∧
      (k.table = .arInvoice → disputedOf (caches₂ k) = disputedOf (caches k)) := by
  have hJ₂ := projectPosting_agrees (projectPosting_agrees hJ h₁) h₂
  obtain ⟨hb, hd, hf⟩ := sums_of_agrees hJ k
  obtain ⟨hb₂, hd₂, hf₂⟩ := sums_of_agrees hJ₂ k
  -- the amounts of a line do not depend on the posting it is read in
  have hcancel : ∀ f : Posting → NewLine → ℚ, f P = f Q →
      (∀ l ∈ Q.lines, ∀ r, Flips l r → f R r = -f Q l) →
      journalSum f (journalLines (J ++ [P] ++ [R]) k) = journalSum f (journalLines J k) := by
    intro f hPQf hflip
    refine journalSum_cancel f J P R k ?_
    rw [sum_linesAt_flips hlines ht hflip, sum_linesAt_perm hperm hPQ, hPQf]
  have hamount : P.amountOf = Q.amountOf := by
    funext l
    rw [Posting.amountOf, Posting.amountOf, hsidesP]
  refine ⟨?_, ?_, fun hi => ?_⟩
  · rw [hb, hb₂]
    exact hcancel _ hamount (amountOf_flips hsides hcover)
  · by_cases htax : k.table = .tax
    · -- the tax grain carries no functional balance
      have hnone : ∀ {J : List Posting} {c : Caches}, CachesAgree J c → functionalOf (c k) = 0 := by
        intro J c hc
        cases hr : c k with
        | none => rfl
        | some r => simp [functionalOf, ((hc k).2 r hr).functional_tax htax]
      rw [hnone hJ, hnone hJ₂]
    · rw [hf htax, hf₂ htax]
      refine hcancel _ ?_ (functionalOf_flips hsides hcover)
      funext l
      rw [Posting.functionalOf, Posting.functionalOf, hsidesP]
  · rw [hd hi, hd₂ hi]
    refine hcancel _ ?_ (disputedOf_flips hsides hcover)
    funext l
    rw [Posting.disputedOf, Posting.disputedOf, hamount]

theorem facts_flips (h : Forall₂ Flips lines rlines) :
    rlines.map NewLine.facts = (lines.map NewLine.facts).map LineFacts.flip := by
  induction h with
  | nil => rfl
  | @cons l r lines rlines hlr _ ih =>
    rw [map_cons, map_cons, map_cons, ih]
    simp only [NewLine.facts, LineFacts.flip, hlr.side, hlr.money, hlr.payerTenantId,
      hlr.functionalMoney]

/-- **A reversal undoes its entry.**  For every stored entry whose reversal can be built, and
every normal-side map of its accounts, the reversal derives exactly the grains of the original
with the amount, the functional amount and the disputed part negated, and it passes the balance
check exactly when the original does.  Whatever order the lines were posted in, if the entry and
then its reversal are posted after any journal, every balance, functional balance and disputed
part is back at its value before the entry; and the caches do accept the reversal. -/
theorem reversal_cancels {fresh : ℕ → Uuid} {entry : NewEntry} {seq : ℤ} {lines : List NewLine}
    {period : String} {on : NaiveDate} {actor correlation : Uuid} {reversal : PostEntry}
    (h : buildReversal fresh (entryRecordToView entry seq lines) period on actor correlation =
      .ok reversal)
    {normalSides : Uuid → Option Side}
    (hcover : ∀ l ∈ lines, ∃ s, normalSides l.accountId = some s) (now : Instant) :
    deriveGrains (newEntry now reversal) reversal.lines normalSides =
        (deriveGrains entry lines normalSides).map (map (GrainDelta.reversed now)) ∧
      validateBalancedEntry reversal.entryCurrency (reversal.lines.map NewLine.facts) =
        validateBalancedEntry entry.entryCurrency (lines.map NewLine.facts) ∧
      ∀ (J : List Posting) (caches caches₁ : Caches) (seq₁ seq₂ : ℤ), runPostings J = .ok caches →
        (∀ posted caches₂, posted.Perm lines →
          projectPosting caches ⟨entry, posted, normalSides, seq₁⟩ = .ok caches₁ →
          projectPosting caches₁ ⟨newEntry now reversal, reversal.lines, normalSides, seq₂⟩ =
            .ok caches₂ →
          ∀ k, balanceOf (caches₂ k) = balanceOf (caches k) ∧
            functionalOf (caches₂ k) = functionalOf (caches k) ∧
            (k.table = .arInvoice → disputedOf (caches₂ k) = disputedOf (caches k))) ∧
        (projectPosting caches ⟨entry, lines, normalSides, seq₁⟩ = .ok caches₁ →
          (∀ k, ∀ r ∈ caches₁ k, r.version + 1 < 2 ^ 63) →
          ∃ caches₂, projectPosting caches₁
            ⟨newEntry now reversal, reversal.lines, normalSides, seq₂⟩ = .ok caches₂) := by
  obtain ⟨htenant, hcurrency, hlines⟩ := buildReversal_spec h
  refine ⟨deriveGrains_flips hlines htenant normalSides, ?_, ?_⟩
  · rw [hcurrency, facts_flips hlines, validateBalancedEntry_flip]
  · intro J caches caches₁ seq₁ seq₂ hJ
    have hagr := runPostings_agrees hJ
    refine ⟨fun posted caches₂ hperm h₁ h₂ => ?_, fun h₁ hversion => ?_⟩
    · exact balances_restored (Q := ⟨entry, lines, normalSides, seq₁⟩) hagr h₁ h₂ hperm rfl rfl
        hlines htenant rfl hcover
    · exact reversal_accepted hagr h₁ hlines htenant rfl hversion

/-- A balanced invoice: a disputed and an undisputed receivable against a payment and a tax line. -/
def sampleInvoiceLines : List NewLine :=
  [{ NewLine.plain 1 7 100 .ar .debit (.cents 1000) with
      invoiceId := some "inv-1" },
    { NewLine.plain 2 7 100 .ar .debit (.cents 250) with
      invoiceId := some "inv-1", arStatus := some arStatusDisputed },
    NewLine.plain 3 7 200 .unallocated .credit (.cents 300),
    { NewLine.plain 4 7 400 .taxPayable .credit (.cents 950) with
      taxJurisdiction := some "DE", taxFilingPeriod := some "2026-01" }]

theorem reversal_cancels_sample : ∃ reversal caches₁ caches₂,
    buildReversal (BitVec.ofNat 128) (entryRecordToView (sampleEntry 1) 1 sampleInvoiceLines)
      "2026-02"
      (sampleEntry 1).effectiveAt 4 5 = .ok reversal ∧
    projectPosting Caches.empty ⟨sampleEntry 1, sampleInvoiceLines, samplePosting.normalSides, 1⟩ =
      .ok caches₁ ∧
    projectPosting caches₁ ⟨newEntry (sampleEntry 1).postedAtUtc reversal, reversal.lines,
      samplePosting.normalSides, 2⟩ = .ok caches₂ ∧
    validateBalancedEntry reversal.entryCurrency (reversal.lines.map NewLine.facts) = .ok () ∧
    ∀ k, balanceOf (caches₂ k) = 0 := by
  have hvalid : validateBalancedEntry "USD" (sampleInvoiceLines.map NewLine.facts) = .ok () := by
    decide +kernel
  have hcover : ∀ l ∈ sampleInvoiceLines, ∃ s, samplePosting.normalSides l.accountId = some s := by
    intro l _
    unfold samplePosting
    dsimp only
    split
    · exact ⟨_, rfl⟩
    · exact ⟨_, rfl⟩
  simp only [exists_and_left]
  refine exists_ok_of (P := fun r => ∃ c₁, projectPosting Caches.empty ⟨sampleEntry 1,
    sampleInvoiceLines, samplePosting.normalSides, 1⟩ = .ok c₁ ∧ ∃ c₂, projectPosting c₁
      ⟨newEntry (sampleEntry 1).postedAtUtc r, r.lines, samplePosting.normalSides, 2⟩ = .ok c₂ ∧
        True) (by decide +kernel) ?_
  rintro r hr ⟨c₁, h₁, c₂, h₂, -⟩
  obtain ⟨-, hbal, hcaches⟩ := reversal_cancels hr hcover (sampleEntry 1).postedAtUtc
  refine ⟨c₁, h₁, c₂, h₂, hbal.trans hvalid, fun k => ?_⟩
  exact ((hcaches [] Caches.empty c₁ 1 2 rfl).1 _ c₂ (.refl _) h₁ h₂ k).1

end Gears.Ledger
