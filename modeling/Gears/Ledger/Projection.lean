import Gears.Ledger.Chain
import Gears.Ledger.Projector

/-!
# The caches refine the journal

The abstract meaning of a cache row is a sum over the journal: `Covers` says which rows a line
belongs to, and `journalSum` adds up a signed amount over the lines of a row.  This file connects
the projector to that meaning.

* `GrainDelta.sortKey_eq` : on the grains a line derives, the lock-order key and the row key
  determine each other.
* `deriveGrains_agrees` : a merged grain carries the exact sums of the lines of its row.
* `upsertGrain_step` : what one upsert does to the row it writes.
* `RowAgrees` and `runPostings_agrees` : after any run of accepted postings every row equals its
  journal sums, guarded balances are not negative, and the disputed part is within the total.
-/

namespace Gears.Ledger

open Money Except List Function

variable {F : GrainDelta → ℚ}

/-- The lock-order key of a row. -/
def BusinessKey.sortKey : BusinessKey → GrainSortKey
  | .account t a c => toLex (0, toLex (t.toNat, toLex (a.toNat, toLex (c, toLex (0,
      toLex ("", toLex ("", toLex ("", ""))))))))
  | .arPayer t p a c => toLex (1, toLex (t.toNat, toLex (a.toNat, toLex (c, toLex (p.toNat,
      toLex ("", toLex ("", toLex ("", ""))))))))
  | .arInvoice t p a i => toLex (2, toLex (t.toNat, toLex (a.toNat, toLex ("", toLex (p.toNat,
      toLex (i, toLex ("", toLex ("", ""))))))))
  | .unallocated t p c => toLex (3, toLex (t.toNat, toLex (0, toLex (c, toLex (p.toNat,
      toLex ("", toLex ("", toLex ("", ""))))))))
  | .reusableCredit t p c e => toLex (4, toLex (t.toNat, toLex (0, toLex (c, toLex (p.toNat,
      toLex ("", toLex ("", toLex ("", e))))))))
  | .tax t a j f => toLex (5, toLex (t.toNat, toLex (a.toNat, toLex ("", toLex (0,
      toLex ("", toLex (j, toLex (f, ""))))))))

theorem BusinessKey.sortKey_injective : Function.Injective BusinessKey.sortKey := by
  intro k k' h
  cases k <;> cases k' <;>
    simp_all [BusinessKey.sortKey, BitVec.toNat_inj]

/-- The cache a row lies in. -/
def BusinessKey.table : BusinessKey → GrainTable
  | .account .. => .account
  | .arPayer .. => .arPayer
  | .arInvoice .. => .arInvoice
  | .unallocated .. => .unallocated
  | .reusableCredit .. => .reusableCredit
  | .tax .. => .tax

@[simp] theorem table_businessKey (g : GrainDelta) : g.businessKey.table = g.tableRank := by
  unfold GrainDelta.businessKey
  split <;> simp_all [BusinessKey.table]

/-- The text axes that a grain's cache does not key on are empty. -/
def GrainDelta.WellKeyed (g : GrainDelta) : Prop :=
  (g.tableRank ≠ .arInvoice → g.invoiceId = "") ∧
    (g.tableRank ≠ .tax → g.taxJurisdiction = "" ∧ g.taxFilingPeriod = "") ∧
    (g.tableRank ≠ .reusableCredit → g.creditGrantEventType = "")

/-- **The lock order separates exactly the rows.** -/
theorem GrainDelta.sortKey_eq {g : GrainDelta} (h : g.WellKeyed) :
    g.sortKey = g.businessKey.sortKey := by
  obtain ⟨hi, ht, he⟩ := h
  cases hr : g.tableRank <;>
    simp_all [GrainDelta.sortKey, GrainDelta.businessKey, BusinessKey.sortKey, GrainTable.rank,
      Uuid.nil]

/-! ### The rows a line belongs to -/

/-- The line belongs to the row. -/
def Covers (tenant : Uuid) (line : NewLine) : BusinessKey → Prop
  | .account t a c => t = tenant ∧ a = line.accountId ∧ c = line.money.currency.code
  | .arPayer t p a c => line.accountClass = .ar ∧ t = tenant ∧ p = line.payerTenantId ∧
      a = line.accountId ∧ c = line.money.currency.code
  | .arInvoice t p a i => line.accountClass = .ar ∧ t = tenant ∧ p = line.payerTenantId ∧
      a = line.accountId ∧ some i = line.invoiceId
  | .unallocated t p c => line.accountClass = .unallocated ∧ t = tenant ∧
      p = line.payerTenantId ∧ c = line.money.currency.code
  | .reusableCredit t p c e => line.accountClass = .reusableCredit ∧ t = tenant ∧
      p = line.payerTenantId ∧ c = line.money.currency.code ∧ some e = line.creditGrantEventType
  | .tax t a j f => line.accountClass = .taxPayable ∧ t = tenant ∧ a = line.accountId ∧
      some j = line.taxJurisdiction ∧ some f = line.taxFilingPeriod

instance (tenant : Uuid) (line : NewLine) (k : BusinessKey) : Decidable (Covers tenant line k) := by
  cases k <;> exact inferInstanceAs (Decidable (_ ∧ _))

/-- An accepted posting: the entry, its lines, the normal sides it was projected with and its
sequence number. -/
structure Posting where
  entry : NewEntry
  lines : List NewLine
  normalSides : Uuid → Option Side
  createdSeq : ℤ

/-- The amount with the sign of its side: positive on the account's normal side. -/
def signedValue (normal : Option Side) (side : Side) (m : PostedMoney) : ℚ :=
  if normal = some side then m.value else -m.value

namespace Posting

variable (P : Posting)

/-- The signed amount of a line. -/
def amountOf (l : NewLine) : ℚ := signedValue (P.normalSides l.accountId) l.side l.money

/-- The signed functional amount of a line, zero without functional money. -/
def functionalOf (l : NewLine) : ℚ :=
  l.functionalMoney.elim 0 (signedValue (P.normalSides l.accountId) l.side)

/-- The signed amount of a line on the disputed part of its receivable. -/
def disputedOf (l : NewLine) : ℚ :=
  if l.arStatus = some arStatusDisputed then P.amountOf l else 0

/-- What the grains of a line share with it. -/
def attributesOf (l : NewLine) :
    CurrencySpec × Option CurrencySpec × Uuid × AccountClass × Option Side :=
  (l.money.currency, l.functionalMoney.map (·.currency), l.accountId, l.accountClass,
    P.normalSides l.accountId)

/-- The lines of the posting that belong to a row. -/
def linesAt (k : BusinessKey) : List NewLine :=
  P.lines.filter fun l => Covers P.entry.tenantId l k

end Posting

/-! ### The grains of a line -/

theorem toRat_signed (side normal : Side) (m : PostedMoney) :
    (signed side normal m).toRat = signedValue (some normal) side m := by
  unfold signed signedValue
  by_cases h : side = normal
  · simp [h]; rfl
  · simp [h, Ne.symm h]; rfl

/-- What merging requires two deltas of a grain to share. -/
def GrainDelta.attributes (g : GrainDelta) :
    CurrencySpec × Option CurrencySpec × Uuid × AccountClass × Option Side :=
  (g.currencySpec, g.functionalCurrency, g.accountId, g.accountClass, some g.normalSide)

/-- What a line's grain carries over from the line. -/
structure GrainOf (P : Posting) (line : NewLine) (g : GrainDelta) : Prop where
  wellKeyed : g.WellKeyed
  attributes : g.attributes = P.attributesOf line
  delta : g.delta.toRat = P.amountOf line
  functionalDelta : g.functionalDelta.toRat = P.functionalOf line
  disputedDelta : g.tableRank = .arInvoice → g.disputedDelta.toRat = P.disputedOf line

variable {P : Posting} {line : NewLine} {gs : List GrainDelta} {k : BusinessKey} {g : GrainDelta}
    {caches caches' : Caches} {J : List Posting}

theorem grainOf_base {side : Side} (h : P.normalSides line.accountId = some side) :
    GrainOf P line (baseGrain P.entry line side) where
  wellKeyed := by simp [GrainDelta.WellKeyed, baseGrain]
  attributes := by rw [Posting.attributesOf, h]; rfl
  delta := by rw [Posting.amountOf, h]; exact toRat_signed _ _ _
  functionalDelta := by
    rw [Posting.functionalOf, h]
    cases hf : line.functionalMoney with
    | none => simp [baseGrain, hf]
    | some m => simpa [baseGrain, hf] using toRat_signed _ _ _
  disputedDelta := by simp [baseGrain]

theorem subGrains_cases {entry : NewEntry} {base : GrainDelta}
    {sub : List GrainDelta} (h : subGrains entry line base = .ok sub) :
    (line.accountClass = .ar ∧ line.invoiceId = none ∧
      sub = [{ base with tableRank := .arPayer }]) ∨
    (line.accountClass = .ar ∧ ∃ i, line.invoiceId = some i ∧
      sub = [{ base with tableRank := .arPayer }, { base with
          tableRank := .arInvoice, invoiceId := i, dueDate := line.dueDate
          disputedDelta := if line.arStatus = some arStatusDisputed then base.delta
            else .fromDecimal .zero }]) ∨
    (line.accountClass = .unallocated ∧ sub = [{ base with tableRank := .unallocated }]) ∨
    (line.accountClass = .reusableCredit ∧ ∃ e, line.creditGrantEventType = some e ∧
      sub = [{ base with
        tableRank := .reusableCredit, creditGrantEventType := e
        firstGrantedAt := some entry.postedAtUtc }]) ∨
    (line.accountClass = .taxPayable ∧ ∃ j f, line.taxJurisdiction = some j ∧
      line.taxFilingPeriod = some f ∧
      sub = [{ base with tableRank := .tax, taxJurisdiction := j, taxFilingPeriod := f }]) ∨
    (line.accountClass ≠ .ar ∧ line.accountClass ≠ .unallocated ∧
      line.accountClass ≠ .reusableCredit ∧ sub = [] ∧
      (line.accountClass = .taxPayable → line.taxJurisdiction = none ∨
        line.taxFilingPeriod = none)) := by
  unfold subGrains at h
  split at h
  · rename_i hc
    cases h
    cases hi : line.invoiceId with
    | none => exact .inl ⟨hc, rfl, rfl⟩
    | some i => exact .inr (.inl ⟨hc, i, rfl, rfl⟩)
  · rename_i hc
    cases h
    exact .inr (.inr (.inl ⟨hc, rfl⟩))
  · rename_i hc
    split at h
    · cases h
    · rename_i e he
      cases h
      obtain ⟨he, -⟩ := Option.filter_eq_some_iff.1 he
      exact .inr (.inr (.inr (.inl ⟨hc, e, he, rfl⟩)))
  · rename_i hc
    split at h
    · rename_i j f hj hf
      cases h
      exact .inr (.inr (.inr (.inr (.inl ⟨hc, j, f, hj, hf, rfl⟩))))
    · rename_i hn
      cases h
      refine .inr (.inr (.inr (.inr (.inr ⟨by simp [hc], by simp [hc], by simp [hc], rfl, ?_⟩))))
      intro _
      cases hj : line.taxJurisdiction with
      | none => exact .inl rfl
      | some j =>
        cases hf : line.taxFilingPeriod with
        | none => exact .inr rfl
        | some f => exact absurd hf (hn j f hj)
  · rename_i h₁ h₂ h₃ h₄
    cases h
    exact .inr (.inr (.inr (.inr (.inr ⟨h₁, h₂, h₃, rfl, fun hc => absurd hc h₄⟩))))

theorem lineGrains_eq_ok_iff : lineGrains P.entry P.normalSides line = .ok gs ↔ ∃ side sub,
      P.normalSides line.accountId = some side ∧
      subGrains P.entry line (baseGrain P.entry line side) = .ok sub ∧
      gs = baseGrain P.entry line side :: sub := by
  unfold lineGrains
  cases hn : P.normalSides line.accountId with
  | none => simp
  | some side =>
    simp only [ok_iffs, Option.some.injEq, exists_eq_left', eq_comm (a := gs), exists_and_left]

theorem lineGrains_grainOf
    (h : lineGrains P.entry P.normalSides line = .ok gs) : ∀ g ∈ gs, GrainOf P line g := by
  obtain ⟨side, sub, hn, hs, rfl⟩ := lineGrains_eq_ok_iff.1 h
  have hb := grainOf_base hn
  rw [forall_mem_cons]
  refine ⟨hb, ?_⟩
  -- each sub-ledger grain is the base grain with another table and that table's own axes
  rcases subGrains_cases hs with ⟨-, -, rfl⟩ | ⟨-, i, -, rfl⟩ | ⟨-, rfl⟩ | ⟨-, e, -, rfl⟩ |
    ⟨-, j, f, -, -, rfl⟩ | ⟨-, -, -, rfl, -⟩ <;>
    simp only [forall_mem_cons, not_mem_nil, IsEmpty.forall_iff, implies_true, and_true]
  case inr.inl =>
    refine ⟨{ hb with
      wellKeyed := by simp [GrainDelta.WellKeyed, baseGrain]
      disputedDelta := by simp }, { hb with
      wellKeyed := by simp [GrainDelta.WellKeyed, baseGrain]
      disputedDelta := fun _ => ?_ }⟩
    unfold Posting.disputedOf
    split
    · exact hb.delta
    · simp
  all_goals exact { hb with
    wellKeyed := by simp [GrainDelta.WellKeyed, baseGrain]
    disputedDelta := by simp }

theorem lineGrains_keys (h : lineGrains P.entry P.normalSides line = .ok gs) :
    (gs.Pairwise fun a b => a.businessKey ≠ b.businessKey) ∧
      ∀ k, (∃ g ∈ gs, g.businessKey = k) ↔ Covers P.entry.tenantId line k := by
  obtain ⟨side, sub, -, hs, rfl⟩ := lineGrains_eq_ok_iff.1 h
  rcases subGrains_cases hs with ⟨hc, hi, rfl⟩ | ⟨hc, i, hi, rfl⟩ | ⟨hc, rfl⟩ | ⟨hc, e, he, rfl⟩ |
    ⟨hc, j, f, hj, hf, rfl⟩ | ⟨h₁, h₂, h₃, rfl, h₄⟩
  case inr.inr.inr.inr.inr =>
    refine ⟨pairwise_singleton _ _, fun k => ?_⟩
    cases k with
    | tax t a j f =>
      simp only [mem_singleton, exists_eq_left, GrainDelta.businessKey, baseGrain, Covers,
        reduceCtorEq, false_iff, not_and]
      intro hc _ _ hj hf
      rcases h₄ hc with h | h
      · rw [h] at hj; cases hj
      · rw [h] at hf; cases hf
    | _ => simp [GrainDelta.businessKey, baseGrain, Covers, h₁, h₂, h₃, eq_comm]
  all_goals
    refine ⟨by simp [GrainDelta.businessKey, baseGrain], fun k => ?_⟩
    cases k <;> simp [GrainDelta.businessKey, baseGrain, Covers, *, eq_comm]

theorem mergeGrain_spec {a b c : GrainDelta} (h : mergeGrain a b = .ok c) : c = { a with
      delta := c.delta, disputedDelta := c.disputedDelta, functionalDelta := c.functionalDelta } ∧
    b.attributes = a.attributes ∧
    c.delta.toRat = a.delta.toRat + b.delta.toRat ∧
    c.disputedDelta.toRat = a.disputedDelta.toRat + b.disputedDelta.toRat ∧
    c.functionalDelta.toRat = a.functionalDelta.toRat + b.functionalDelta.toRat := by
  simp only [mergeGrain, ok_iffs, matchCurrency_eq_ok_iff, matchFunctional_eq_ok_iff,
    ExactAmount.checkedAdd_eq_ok_iff, exists_const, not_or, not_not] at h
  obtain ⟨hc, hf, ⟨ha, hcl, hn⟩, d, ⟨-, -, -, hd⟩, e, ⟨-, -, -, he⟩, f, ⟨-, -, -, hf'⟩, rfl⟩ := h
  refine ⟨rfl, ?_, hd, he, hf'⟩
  simp only [GrainDelta.attributes, hc, hf, ha, hcl, hn]

theorem sumAt_flatten {G : NewLine → ℚ} (hFG : ∀ l g, GrainOf P l g → g.businessKey = k → F g = G l)
    {ls : List NewLine} {gss : List (List GrainDelta)}
    (h : Forall₂ (fun l gs => lineGrains P.entry P.normalSides l = .ok gs) ls gss) :
    sumAt GrainDelta.businessKey F k gss.flatten =
      ((ls.filter fun l => Covers P.entry.tenantId l k).map G).sum := by
  induction h with
  | nil => rfl
  | @cons l gs ls gss hl _ ih =>
    obtain ⟨hpw, hcov⟩ := lineGrains_keys hl
    rw [flatten_cons, sumAt_append, ih]
    by_cases hc : Covers P.entry.tenantId l k
    · obtain ⟨g, hg, hk⟩ := (hcov k).2 hc
      rw [sumAt_of_mem F k hpw hg hk, hFG l g (lineGrains_grainOf hl g hg) hk]
      simp [hc]
    · rw [sumAt_eq_zero F k fun g hg hk => hc ((hcov k).1 ⟨g, hg, hk⟩)]
      simp [hc]

/-- A merged grain agrees with the lines of its row. -/
structure GrainAgrees (P : Posting) (k : BusinessKey) (g : GrainDelta) : Prop where
  key : g.businessKey = k
  nonempty : P.linesAt k ≠ []
  delta : g.delta.toRat = ((P.linesAt k).map P.amountOf).sum
  functionalDelta : g.functionalDelta.toRat = ((P.linesAt k).map P.functionalOf).sum
  disputedDelta : g.tableRank = .arInvoice →
    g.disputedDelta.toRat = ((P.linesAt k).map P.disputedOf).sum
  attributes : ∀ l ∈ P.linesAt k, l.money.currency = g.currencySpec ∧
    l.functionalMoney.map (·.currency) = g.functionalCurrency ∧ l.accountId = g.accountId ∧
    l.accountClass = g.accountClass ∧ P.normalSides l.accountId = some g.normalSide

theorem mergeGrain_keys {a b c : GrainDelta} (h : mergeGrain a b = .ok c) :
    c.sortKey = a.sortKey ∧ (a.WellKeyed → c.WellKeyed) ∧ c.attributes = a.attributes ∧
      b.attributes = a.attributes := by
  obtain ⟨hc, hattr, -⟩ := mergeGrain_spec h
  rw [hc]
  exact ⟨rfl, id, rfl, hattr⟩

theorem businessKey_eq_iff {g' : GrainDelta} (h : g.WellKeyed) (h' : g'.WellKeyed) :
    g.businessKey = g'.businessKey ↔ g.sortKey = g'.sortKey := by
  rw [GrainDelta.sortKey_eq h, GrainDelta.sortKey_eq h', BusinessKey.sortKey_injective.eq_iff]

theorem sumAt_businessKey {l : List GrainDelta} (hl : ∀ g ∈ l, g.WellKeyed) :
    sumAt GrainDelta.businessKey F k l = sumAt GrainDelta.sortKey F k.sortKey l := by
  unfold sumAt
  congr 2
  refine filter_congr fun g hg => decide_eq_decide.2 ?_
  rw [GrainDelta.sortKey_eq (hl g hg), BusinessKey.sortKey_injective.eq_iff]

/-- **A merged grain carries the exact sums of the lines of its row**, and there is exactly one
for each row the posting touches. -/
theorem deriveGrains_agrees {rs : List GrainDelta}
    (h : deriveGrains P.entry P.lines P.normalSides = .ok rs) :
    (rs.Pairwise fun a b => a.businessKey ≠ b.businessKey) ∧
      (∀ g ∈ rs, GrainAgrees P g.businessKey g) ∧
      ∀ k, P.linesAt k ≠ [] → ∃ g ∈ rs, g.businessKey = k := by
  simp only [deriveGrains, bind_eq_ok_iff, mapM_eq_ok_iff] at h
  obtain ⟨gss, hgss, hco⟩ := h
  set raw := gss.flatten with hrawdef
  have hperm : (raw.insertionSort fun a b => a.sortKey ≤ b.sortKey).Perm raw :=
    perm_insertionSort _ _
  -- every unmerged grain comes from a line of its row, and every such line has one
  have hraw : ∀ g ∈ raw, ∃ l ∈ P.linesAt g.businessKey, GrainOf P l g := by
    intro g hg
    obtain ⟨gs, hgs, hg⟩ := mem_flatten.1 hg
    obtain ⟨l, hl, hlg⟩ := hgss.flip.exists_of_mem_left hgs
    have hcov := ((lineGrains_keys hlg).2 g.businessKey).1 ⟨g, hg, rfl⟩
    exact ⟨l, mem_filter.2 ⟨hl, decide_eq_true hcov⟩, lineGrains_grainOf hlg g hg⟩
  have hline : ∀ k, ∀ l ∈ P.linesAt k, ∃ g ∈ raw, g.businessKey = k ∧ GrainOf P l g := by
    intro k l hl
    obtain ⟨hl, hcov⟩ := mem_filter.1 hl
    obtain ⟨gs, hgs, hlg⟩ := hgss.exists_of_mem_left hl
    obtain ⟨g, hg, hk⟩ := ((lineGrains_keys hlg).2 k).2 (of_decide_eq_true hcov)
    exact ⟨g, mem_flatten.2 ⟨gs, hgs, hg⟩, hk, lineGrains_grainOf hlg g hg⟩
  have hwkRaw : ∀ g ∈ raw.insertionSort fun a b => a.sortKey ≤ b.sortKey, g.WellKeyed := by
    intro g hg
    obtain ⟨l, -, hl⟩ := hraw g (hperm.subset hg)
    exact hl.wellKeyed
  have hwk : ∀ g ∈ rs, g.WellKeyed :=
    coalesce_forall (fun a b c ha hm => (mergeGrain_keys hm).2.1 ha) hwkRaw hco
  have hpw : rs.Pairwise fun a b => a.businessKey ≠ b.businessKey := by
    have hs := coalesce_strict (fun a b c hm => (mergeGrain_keys hm).1)
      (pairwise_insertionSort _ raw) hco
    refine hs.imp_of_mem fun {a b} ha hb hlt heq => ?_
    exact hlt.ne ((businessKey_eq_iff (hwk a ha) (hwk b hb)).1 heq)
  have huniq : ∀ a ∈ rs, ∀ b ∈ rs, a.businessKey = b.businessKey → a = b :=
    fun a ha b hb => inj_on_of_nodup_map (pairwise_map.2 hpw) ha hb
  -- a quantity that merging adds up has, on a merged grain, the sum over the lines of its row
  have hsum : ∀ (F : GrainDelta → ℚ) (G : NewLine → ℚ) (g : GrainDelta), g ∈ rs →
      (∀ a b c, mergeGrain a b = .ok c → F c = F a + F b) →
      (∀ l g', GrainOf P l g' → g'.businessKey = g.businessKey → F g' = G l) →
      F g = ((P.linesAt g.businessKey).map G).sum := by
    intro F G g hg hadd hFG
    calc F g = sumAt GrainDelta.businessKey F g.businessKey rs :=
          (sumAt_of_mem F _ hpw hg rfl).symm
      _ = sumAt GrainDelta.sortKey F g.businessKey.sortKey rs := sumAt_businessKey hwk
      _ = sumAt GrainDelta.sortKey F g.businessKey.sortKey
            (raw.insertionSort fun a b => a.sortKey ≤ b.sortKey) :=
          coalesce_sum _ (fun a b c hm => ⟨(mergeGrain_keys hm).1, hadd a b c hm⟩) hco
      _ = sumAt GrainDelta.businessKey F g.businessKey
            (raw.insertionSort fun a b => a.sortKey ≤ b.sortKey) := (sumAt_businessKey hwkRaw).symm
      _ = sumAt GrainDelta.businessKey F g.businessKey raw := sumAt_perm F _ hperm
      _ = _ := sumAt_flatten hFG hgss
  obtain ⟨hto, hfrom⟩ := coalesce_attr
    (fun a b c hm => ⟨(mergeGrain_keys hm).1, (mergeGrain_keys hm).2.2⟩) hco
  -- the merged grain of the row of an unmerged one
  have hmerged : ∀ g ∈ raw, ∃ c ∈ rs, c.businessKey = g.businessKey ∧
      c.attributes = g.attributes := by
    intro g hg
    obtain ⟨c, hc, hk, ha⟩ := hto g (hperm.symm.subset hg)
    have hg' := hwkRaw g (hperm.symm.subset hg)
    exact ⟨c, hc, (businessKey_eq_iff (hwk c hc) hg').2 hk, ha⟩
  refine ⟨hpw, fun g hg => ?_, fun k hk => ?_⟩
  · refine ⟨rfl, ?_, ?_, ?_, ?_, ?_⟩
    · obtain ⟨g', hg', hk, -⟩ := hfrom g hg
      obtain ⟨l, hl, -⟩ := hraw g' (hperm.subset hg')
      rw [(businessKey_eq_iff (hwkRaw g' hg') (hwk g hg)).2 hk] at hl
      exact ne_nil_of_mem hl
    · exact hsum _ _ g hg (fun a b c hm => (mergeGrain_spec hm).2.2.1) fun l g' h _ => h.delta
    · exact hsum _ _ g hg (fun a b c hm => (mergeGrain_spec hm).2.2.2.2)
        fun l g' h _ => h.functionalDelta
    · intro ht
      refine hsum _ _ g hg (fun a b c hm => (mergeGrain_spec hm).2.2.2.1) fun l g' h hk => ?_
      exact h.disputedDelta (by rw [← table_businessKey, hk, table_businessKey, ht])
    · intro l hl
      obtain ⟨g', hg', hk, hgl⟩ := hline _ l hl
      obtain ⟨c, hc, hck, hca⟩ := hmerged g' hg'
      obtain rfl := huniq c hc g hg (hck.trans hk)
      simpa [GrainDelta.attributes, Posting.attributesOf] using (hca.trans hgl.attributes).symm
  · obtain ⟨l, hl⟩ := exists_mem_of_ne_nil _ hk
    obtain ⟨g, hg, rfl, -⟩ := hline k l hl
    obtain ⟨c, hc, hck, -⟩ := hmerged g hg
    exact ⟨c, hc, hck⟩

/-! ### One upsert -/

/-- The balance of a row, zero while there is none. -/
def balanceOf (o : Option CacheRow) : ℚ := o.elim 0 fun r => r.balance.value

/-- The functional balance of a row, zero while there is none. -/
def functionalOf (o : Option CacheRow) : ℚ :=
  (o.bind (·.functional)).elim 0 PostedMoney.value

/-- The disputed part of a row, zero while there is none. -/
def disputedOf (o : Option CacheRow) : ℚ := (o.bind (·.disputed)).elim 0 PostedMoney.value

/-- What an accepted upsert of `g` does to the row it writes. -/
structure RowStep (g : GrainDelta) (old : Option CacheRow) (row : CacheRow) : Prop where
  currency : row.balance.currency = g.currencySpec
  currency_old : ∀ r ∈ old, r.balance.currency = g.currencySpec
  balance : row.balance.value = balanceOf old + g.delta.toRat
  guard : g.accountClass.isGuarded = true ∨ g.tableRank = .reusableCredit → 0 ≤ row.balance.value
  functional_tax : g.tableRank = .tax → row.functional = none
  functional_currency : g.tableRank ≠ .tax → row.functional.map (·.currency) = g.functionalCurrency
  functional_old : g.tableRank ≠ .tax →
    ∀ r ∈ old, r.functional.map (·.currency) = g.functionalCurrency
  functional : row.functional ≠ none →
    functionalOf (some row) = functionalOf old + g.functionalDelta.toRat
  classification : g.tableRank = .account → row.classification = some (g.accountClass, g.normalSide)
  classification_old : g.tableRank = .account →
    ∀ r ∈ old, r.classification = some (g.accountClass, g.normalSide)
  disputed : g.tableRank = .arInvoice → ∃ d, row.disputed = some d ∧
    d.value = disputedOf old + g.disputedDelta.toRat ∧ 0 ≤ d.value ∧ d.value ≤ row.balance.value

theorem finalFunctional_step {old f : Option PostedMoney} (h : finalFunctional g old = .ok f) :
    (g.tableRank = .tax → f = none) ∧
      (g.tableRank ≠ .tax → f.map (·.currency) = g.functionalCurrency) ∧
      (f ≠ none → f.elim 0 PostedMoney.value =
        old.elim 0 PostedMoney.value + g.functionalDelta.toRat) := by
  cases f with
  | none =>
    refine ⟨fun _ => rfl, fun ht => ?_, fun hf => absurd rfl hf⟩
    exact ((finalFunctional_eq_ok_none_iff.1 h).resolve_left ht).symm
  | some f =>
    obtain ⟨ht, hc, -, -, hv⟩ := finalFunctional_eq_ok_some_iff.1 h
    exact ⟨fun h => absurd h ht, fun _ => hc.symm, fun _ => hv.trans (add_comm _ _)⟩

theorem finalDisputed_step {old : Option CacheRow} {b : PostedMoney}
    {o : Option PostedMoney} (h : finalDisputed g old b = .ok o) :
    ∃ d, o = some d ∧ d.value = disputedOf old + g.disputedDelta.toRat ∧ 0 ≤ d.value ∧
      d.value ≤ b.value := by
  obtain ⟨-, d, rfl, hd, h₀, hle⟩ := finalDisputed_eq_ok_iff.1 h
  obtain ⟨-, -, -, hv⟩ := finalAmount_eq_ok_iff.1 hd
  exact ⟨d, rfl, hv.trans (add_comm _ _), h₀, hle⟩

/-- The further check of a stored row that the grain's cache makes. -/
def GrainDelta.verify (g : GrainDelta) (r : CacheRow) : Except ProjectError Unit :=
  onlyIf (g.tableRank = .account)
    (rejectIf (r.classification ≠ some (g.accountClass, g.normalSide))
      (.db "cache account classification mismatch"))

/-- The disputed column that the grain's cache writes. -/
def GrainDelta.dispute (g : GrainDelta) (existing : Option CacheRow) (balance : PostedMoney) :
    Except ProjectError (Option PostedMoney) :=
  if g.tableRank = .arInvoice then finalDisputed g existing balance else .ok none

/-- The columns that the grain's cache stamps on a new row. -/
def GrainDelta.stamp (g : GrainDelta) (r : CacheRow) : CacheRow :=
  match g.tableRank with
  | .account => { r with classification := some (g.accountClass, g.normalSide) }
  | .arInvoice => { r with originalPostedAt := some g.postedAt, dueDate := g.dueDate }
  | .reusableCredit => { r with firstGrantedAt := g.firstGrantedAt }
  | _ => r

theorem upsertGrain_eq (seq : ℤ) (caches : Caches) (g : GrainDelta) : upsertGrain seq caches g =
      upsertRow g.businessKey g.verify g.dispute g.stamp caches g seq := by
  unfold upsertGrain GrainDelta.businessKey
  cases ht : g.tableRank <;>
    dsimp only [upsertAccountBalance, upsertArPayer, upsertArInvoice, upsertUnallocated,
      upsertReusableCredit, upsertTax] <;>
    congr 1 <;> funext <;>
    simp [GrainDelta.verify, GrainDelta.dispute, GrainDelta.stamp, onlyIf, ht]

theorem stamp_spec (g : GrainDelta) (r : CacheRow) : (g.stamp r).balance = r.balance ∧
    (g.stamp r).functional = r.functional ∧ (g.stamp r).disputed = r.disputed ∧
    (g.stamp r).accountId = r.accountId ∧
    (g.tableRank = .account →
      (g.stamp r).classification = some (g.accountClass, g.normalSide)) := by
  unfold GrainDelta.stamp
  split <;> simp_all

theorem RowStep.of_final {old : Option CacheRow} {row : CacheRow} {b : PostedMoney}
    {f d : Option PostedMoney}
    (hb : finalBalances g (old.map (·.balance)) (old.bind (·.functional)) = .ok (b, f))
    (hd : g.dispute old b = .ok d) (hold : ∀ r ∈ old, g.verify r = .ok ())
    (hbalance : row.balance = b) (hfunctional : row.functional = f) (hdisputed : row.disputed = d)
    (hclass : g.tableRank = .account →
      row.classification = some (g.accountClass, g.normalSide)) : RowStep g old row := by
  subst hbalance hfunctional hdisputed
  obtain ⟨h₁, h₂, -, h₄, h₅, h₆, h₇⟩ := finalBalances_eq_ok_iff.1 hb
  obtain ⟨hf₁, hf₂, hf₃⟩ := finalFunctional_step h₇
  exact {
    currency := h₄
    currency_old := fun r hr => h₁ r.balance (Option.mem_map_of_mem _ hr)
    balance := by
      rw [h₅, add_comm]
      cases old <;> rfl
    guard := h₆
    functional_tax := hf₁
    functional_currency := hf₂
    functional_old := by
      rintro ht r ⟨⟩
      exact (h₂ ⟨rfl, ht⟩).symm
    functional := hf₃
    classification := hclass
    classification_old := fun ht r hr => by simpa [GrainDelta.verify, ht] using hold r hr
    disputed := fun ht => finalDisputed_step (by simpa [GrainDelta.dispute, ht] using hd) }

/-- **One upsert.**  An accepted upsert writes one row, the one of the grain's key, and adds the
grain's deltas to it. -/
theorem upsertGrain_step {seq : ℤ} (h : upsertGrain seq caches g = .ok caches') :
    ∃ row, caches' = Function.update caches g.businessKey (some row) ∧
      RowStep g (caches g.businessKey) row := by
  rw [upsertGrain_eq] at h
  rcases upsertRow_eq_ok_iff.1 h with ⟨r, b, f, d, v, hk, -, hv, hb, hd, -, rfl⟩ |
    ⟨b, f, d, hk, hb, hd, rfl⟩
  · refine ⟨_, rfl, ?_⟩
    rw [hk]
    exact .of_final hb hd (by simpa using hv) rfl rfl rfl fun ht => by
      simpa [GrainDelta.verify, ht] using hv
  · obtain ⟨hs₁, hs₂, hs₃, -, hs₄⟩ := stamp_spec g (freshRow g seq b f d)
    refine ⟨_, rfl, ?_⟩
    rw [hk]
    exact .of_final hb hd (by simp) hs₁ hs₂ hs₃ hs₄

/-- Upserts of distinct rows: each grain writes its row once, on the row it found at the start,
and the other rows stay. -/
theorem foldlM_upsertGrain {seq : ℤ} (hpw : gs.Pairwise fun a b => a.businessKey ≠ b.businessKey)
    (h : gs.foldlM (upsertGrain seq) caches = .ok caches') :
    (∀ k, (∀ g ∈ gs, g.businessKey ≠ k) → caches' k = caches k) ∧
      ∀ g ∈ gs, ∃ before after, upsertGrain seq before g = .ok after ∧
        before g.businessKey = caches g.businessKey ∧
        after g.businessKey = caches' g.businessKey := by
  induction gs generalizing caches with
  | nil => cases h; simp
  | cons g gs ih =>
    obtain ⟨hg, hpw⟩ := pairwise_cons.1 hpw
    rw [foldlM_cons, bind_eq_ok_iff] at h
    obtain ⟨caches₁, h₁, h⟩ := h
    obtain ⟨row, rfl, hrow⟩ := upsertGrain_step h₁
    obtain ⟨hframe, hsteps⟩ := ih hpw h
    refine ⟨fun k hk => ?_, fun g' hg' => ?_⟩
    · rw [hframe k fun g' hg' => hk g' (mem_cons_of_mem _ hg'),
        update_of_ne (hk g mem_cons_self).symm]
    · rcases mem_cons.1 hg' with rfl | hg'
      · exact ⟨caches, _, h₁, rfl, (hframe _ fun a ha => (hg a ha).symm).symm⟩
      · obtain ⟨before, after, hu, hb, ha⟩ := hsteps g' hg'
        rw [update_of_ne (hg g' hg').symm] at hb
        exact ⟨before, after, hu, hb, ha⟩

/-! ### Runs of postings -/

/-- Project an accepted posting. -/
def projectPosting (caches : Caches) (P : Posting) : Except ProjectError Caches :=
  project caches P.entry P.lines P.normalSides P.createdSeq

/-- Project accepted postings one after another, from empty caches. -/
def runPostings (J : List Posting) : Except ProjectError Caches :=
  J.foldlM projectPosting Caches.empty

/-- The posted lines that belong to a row, each with its posting. -/
def journalLines (J : List Posting) (k : BusinessKey) : List (Posting × NewLine) :=
  J.flatMap fun P => (P.linesAt k).map (P, ·)

theorem journalLines_append (J : List Posting) (P : Posting) (k : BusinessKey) :
    journalLines (J ++ [P]) k = journalLines J k ++ (P.linesAt k).map (P, ·) := by
  simp [journalLines]

/-- The total of a signed quantity over posted lines. -/
def journalSum (f : Posting → NewLine → ℚ) (ls : List (Posting × NewLine)) : ℚ :=
  (ls.map fun x => f x.1 x.2).sum

theorem journalSum_append (f : Posting → NewLine → ℚ) (ls : List (Posting × NewLine))
    (P : Posting) (k : BusinessKey) : journalSum f (ls ++ (P.linesAt k).map (P, ·)) =
      journalSum f ls + ((P.linesAt k).map (f P)).sum := by
  simp [journalSum, comp_def]

/-- A cache row agrees with the posted lines of its key: its balances are their exact signed sums,
a guarded balance is not negative, and the disputed part of a receivable is within its total. -/
structure RowAgrees (ls : List (Posting × NewLine)) (k : BusinessKey) (row : CacheRow) :
    Prop where
  balance : row.balance.value = journalSum Posting.amountOf ls
  currency : ∀ x ∈ ls, x.2.money.currency = row.balance.currency
  functional_tax : k.table = .tax → row.functional = none
  functional_currency : k.table ≠ .tax → ∀ x ∈ ls,
    x.2.functionalMoney.map (·.currency) = row.functional.map (·.currency)
  functional : ∀ f ∈ row.functional, f.value = journalSum Posting.functionalOf ls
  guarded : ∀ x ∈ ls, x.2.accountClass.isGuarded = true → 0 ≤ row.balance.value
  reusableCredit : k.table = .reusableCredit → 0 ≤ row.balance.value
  classification : k.table = .account → ∀ x ∈ ls, ∃ side,
    x.1.normalSides x.2.accountId = some side ∧
      row.classification = some (x.2.accountClass, side)
  disputed : k.table = .arInvoice → ∃ d, row.disputed = some d ∧
    d.value = journalSum Posting.disputedOf ls ∧ 0 ≤ d.value ∧ d.value ≤ row.balance.value

/-- The caches agree with the journal: a row exists exactly when some posted line belongs to it,
and then it agrees with those lines. -/
def CachesAgree (J : List Posting) (caches : Caches) : Prop :=
  ∀ k, (caches k = none ↔ journalLines J k = []) ∧
    ∀ row, caches k = some row → RowAgrees (journalLines J k) k row

theorem Covers.accountClass_eq {t t' : Uuid} {l l' : NewLine}
    (hk : k.table ≠ .account) (h : Covers t l k) (h' : Covers t' l' k) :
    l.accountClass = l'.accountClass := by
  cases k with
  | account => exact absurd rfl hk
  | _ => exact h.1.trans h'.1.symm

theorem covers_of_mem_journalLines {x : Posting × NewLine}
    (h : x ∈ journalLines J k) : Covers x.1.entry.tenantId x.2 k := by
  obtain ⟨P, -, h⟩ := mem_flatMap.1 h
  obtain ⟨l, hl, rfl⟩ := mem_map.1 h
  exact of_decide_eq_true (mem_filter.1 hl).2

theorem RowAgrees.functionalOf_eq {ls : List (Posting × NewLine)}
    {row : CacheRow} (h : RowAgrees ls k row) (ht : k.table ≠ .tax) :
    functionalOf (some row) = journalSum Posting.functionalOf ls := by
  cases hf : row.functional with
  | some f => simpa [functionalOf, hf] using h.functional f hf
  | none =>
    -- no line of the row carries functional money
    have hzero : ∀ x ∈ ls, x.1.functionalOf x.2 = 0 := by
      intro x hx
      have := h.functional_currency ht x hx
      rw [hf] at this
      simp [Posting.functionalOf, Option.map_eq_none_iff.1 this]
    rw [journalSum, map_congr_left hzero]
    simp [functionalOf, hf]

/-- What agreement says of the row before an upsert, whether or not there is one. -/
theorem sums_of_agrees (hJ : CachesAgree J caches) (k : BusinessKey) :
    balanceOf (caches k) = journalSum Posting.amountOf (journalLines J k) ∧ (k.table = .arInvoice →
        disputedOf (caches k) = journalSum Posting.disputedOf (journalLines J k)) ∧
      (k.table ≠ .tax →
        functionalOf (caches k) = journalSum Posting.functionalOf (journalLines J k)) := by
  cases hc : caches k with
  | none =>
    rw [(hJ k).1.1 hc]
    exact ⟨rfl, fun _ => rfl, fun _ => rfl⟩
  | some r =>
    have hr := (hJ k).2 r hc
    refine ⟨hr.balance, fun ht => ?_, hr.functionalOf_eq⟩
    obtain ⟨d, hd, hv, -⟩ := hr.disputed ht
    simpa [disputedOf, hd] using hv

/-- The row written by the upsert of a posting's grain agrees with the longer journal. -/
theorem RowStep.agrees (hJ : CachesAgree J caches) {row : CacheRow} (hg : GrainAgrees P k g)
    (hs : RowStep g (caches k) row) : RowAgrees (journalLines (J ++ [P]) k) k row := by
  obtain ⟨hbal, hdis, hfun⟩ := sums_of_agrees hJ k
  have htab : k.table = g.tableRank := by rw [← hg.key, table_businessKey]
  have hmem : ∀ x ∈ journalLines (J ++ [P]) k,
      (∃ r, caches k = some r ∧ RowAgrees (journalLines J k) k r ∧ x ∈ journalLines J k) ∨
        x.1 = P ∧ x.2 ∈ P.linesAt k := by
    intro x hx
    rw [journalLines_append, mem_append, mem_map] at hx
    rcases hx with hx | ⟨l, hl, rfl⟩
    · -- a line of the earlier journal sits on a row that is already there
      cases hc : caches k with
      | none => rw [(hJ k).1.1 hc] at hx; cases hx
      | some r => exact .inl ⟨r, rfl, (hJ k).2 r hc, hx⟩
    · exact .inr ⟨rfl, hl⟩
  have hclass : k.table = .account → ∀ x ∈ journalLines (J ++ [P]) k, ∃ side,
      x.1.normalSides x.2.accountId = some side ∧
        row.classification = some (x.2.accountClass, side) := by
    intro ht x hx
    rw [hs.classification (htab ▸ ht)]
    rcases hmem x hx with ⟨r, hc, hr, hx⟩ | ⟨hP, hx⟩
    · obtain ⟨side, hside, hcl⟩ := hr.classification ht x hx
      exact ⟨side, hside, by rw [← hcl, hs.classification_old (htab ▸ ht) r hc]⟩
    · obtain ⟨-, -, -, hcl, hside⟩ := hg.attributes x.2 hx
      exact ⟨g.normalSide, hP ▸ hside, by rw [hcl]⟩
  exact {
    balance := by
      rw [hs.balance, hbal, journalLines_append, journalSum_append, hg.delta]
    currency := by
      intro x hx
      rw [hs.currency]
      rcases hmem x hx with ⟨r, hc, hr, hx⟩ | ⟨-, hx⟩
      · rw [hr.currency x hx, hs.currency_old r hc]
      · exact (hg.attributes x.2 hx).1
    functional_tax := fun ht => hs.functional_tax (htab ▸ ht)
    functional_currency := by
      intro ht x hx
      rw [htab] at ht
      rw [hs.functional_currency ht]
      rcases hmem x hx with ⟨r, hc, hr, hx⟩ | ⟨-, hx⟩
      · rw [hr.functional_currency (htab ▸ ht) x hx, hs.functional_old ht r hc]
      · exact (hg.attributes x.2 hx).2.1
    functional := by
      intro f (hf : row.functional = some f)
      have hne : row.functional ≠ none := by simp [hf]
      have ht : g.tableRank ≠ .tax := fun ht => hne (hs.functional_tax ht)
      have hvalue := hs.functional hne
      rw [hfun (htab ▸ ht), hg.functionalDelta] at hvalue
      rw [journalLines_append, journalSum_append, ← hvalue]
      simp [functionalOf, hf]
    guarded := by
      intro x hx hguard
      refine hs.guard (.inl ?_)
      -- the account cache stores the class, the other caches hold lines of one class
      have hcl : x.2.accountClass = g.accountClass := by
        by_cases ht : k.table = .account
        · obtain ⟨side, -, hcl⟩ := hclass ht x hx
          rw [hs.classification (htab ▸ ht)] at hcl
          simp only [Option.some.injEq, Prod.mk.injEq] at hcl
          exact hcl.1.symm
        · obtain ⟨l, hl⟩ := exists_mem_of_ne_nil _ hg.nonempty
          rw [← (hg.attributes l hl).2.2.2.1]
          exact (covers_of_mem_journalLines hx).accountClass_eq ht
            (of_decide_eq_true (mem_filter.1 hl).2)
      rw [← hcl]
      exact hguard
    reusableCredit := fun ht => hs.guard (.inr (htab ▸ ht))
    classification := hclass
    disputed := by
      intro ht
      obtain ⟨d, hd, hv, hbounds⟩ := hs.disputed (htab ▸ ht)
      refine ⟨d, hd, ?_, hbounds⟩
      rw [hv, hdis ht, hg.disputedDelta (htab ▸ ht), journalLines_append, journalSum_append] }

/-- **One posting keeps the caches in agreement with the journal.** -/
theorem projectPosting_agrees
    (hJ : CachesAgree J caches) (h : projectPosting caches P = .ok caches') :
    CachesAgree (J ++ [P]) caches' := by
  simp only [projectPosting, project, bind_eq_ok_iff] at h
  obtain ⟨gs, hgs, hfold⟩ := h
  obtain ⟨hpw, hagr, hex⟩ := deriveGrains_agrees hgs
  obtain ⟨hframe, hstep⟩ := foldlM_upsertGrain hpw hfold
  intro k
  by_cases hk : P.linesAt k = []
  · -- the posting does not touch the row
    have hl : journalLines (J ++ [P]) k = journalLines J k := by
      rw [journalLines_append, hk, map_nil, append_nil]
    have hc : caches' k = caches k := by
      refine hframe k fun g hg hgk => (hagr g hg).nonempty ?_
      rw [hgk, hk]
    rw [hl, hc]
    exact hJ k
  · obtain ⟨g, hg, rfl⟩ := hex k hk
    obtain ⟨before, after, hu, hb, ha⟩ := hstep g hg
    obtain ⟨row, rfl, hs⟩ := upsertGrain_step hu
    rw [hb] at hs
    have hrow : caches' g.businessKey = some row := by rw [← ha, update_self]
    refine ⟨⟨fun hn => ?_, fun hn => ?_⟩, fun row' hr => ?_⟩
    · rw [hrow] at hn; cases hn
    · rw [journalLines_append] at hn
      exact absurd (map_eq_nil_iff.1 (append_eq_nil_iff.1 hn).2) hk
    · rw [hrow] at hr
      cases hr
      exact hs.agrees hJ (hagr g hg)

/-- **The caches refine the journal.**  After any run of accepted postings from empty caches,
every row equals the exact signed sums of the posted lines of its business key. -/
theorem runPostings_agrees (h : runPostings J = .ok caches) : CachesAgree J caches := by
  refine foldlM_induction ?_ ?_ h
  · exact fun k => ⟨⟨fun _ => rfl, fun _ => rfl⟩, fun row hr => by cases hr⟩
  · exact fun J caches P caches' hJ hs => projectPosting_agrees hJ hs

/-- **Every cache row is a sum over the journal.**  After any run of accepted postings a row exists
exactly when some posted line maps to its business key.  Its balance, its functional balance and
the disputed part of a receivable are the exact signed sums of those lines; a row of a guarded
class and a reusable-credit row are not negative, and the disputed part is within the total. -/
theorem projection_refines_journal {J : List Posting} {caches : Caches}
    (h : runPostings J = .ok caches) (k : BusinessKey) :
    (caches k = none ↔ journalLines J k = []) ∧ ∀ row, caches k = some row →
      (row.balance.value = journalSum Posting.amountOf (journalLines J k) ∧
        ∀ x ∈ journalLines J k, x.2.money.currency = row.balance.currency) ∧
      (k.table ≠ .tax →
        functionalOf (some row) = journalSum Posting.functionalOf (journalLines J k) ∧
        ∀ x ∈ journalLines J k,
          x.2.functionalMoney.map (·.currency) = row.functional.map (·.currency)) ∧
      (k.table = .arInvoice →
        disputedOf (some row) = journalSum Posting.disputedOf (journalLines J k) ∧
        0 ≤ disputedOf (some row) ∧ disputedOf (some row) ≤ row.balance.value) ∧
      ((∃ x ∈ journalLines J k, x.2.accountClass.isGuarded = true) ∨
        k.table = .reusableCredit → 0 ≤ row.balance.value) := by
  obtain ⟨hnone, hsome⟩ := runPostings_agrees h k
  refine ⟨hnone, fun row hrow => ?_⟩
  have hr := hsome row hrow
  refine ⟨⟨hr.balance, hr.currency⟩, fun ht => ⟨?_, hr.functional_currency ht⟩, fun ht => ?_, ?_⟩
  · exact hr.functionalOf_eq ht
  · obtain ⟨d, hd, hbounds⟩ := hr.disputed ht
    simpa [disputedOf, hd] using hbounds
  · rintro (⟨x, hx, hg⟩ | ht)
    · exact hr.guarded x hx hg
    · exact hr.reusableCredit ht

/-- A receivable with a disputed line and an undisputed one, an unapplied payment, a reusable
credit and a tax line. -/
def samplePosting : Posting where
  entry := sampleEntry 1
  lines :=
    [{ NewLine.plain 1 7 100 .ar .debit (.cents 1000) with
        invoiceId := some "inv-1" },
      { NewLine.plain 2 7 100 .ar .debit (.cents 250) with
        invoiceId := some "inv-1", arStatus := some arStatusDisputed },
      NewLine.plain 3 7 200 .unallocated .credit (.cents 300),
      { NewLine.plain 4 7 300 .reusableCredit .credit (.cents 400) with
        creditGrantEventType := some "PROMO" },
      { NewLine.plain 5 7 400 .taxPayable .credit (.cents 550) with
        taxJurisdiction := some "DE", taxFilingPeriod := some "2026-01" }]
  normalSides := fun a => if a = 100 then some .debit else some .credit
  createdSeq := 1

/-- The receivable after two such postings: both lines count, and one of them as disputed. -/
theorem projection_refines_journal_sample : ∃ caches row,
    runPostings [samplePosting, samplePosting] = .ok caches ∧
      caches (.arInvoice 9 7 100 "inv-1") = some row ∧ row.balance.value = 25 ∧
      disputedOf (some row) = 5 ∧
      disputedOf (some row) = journalSum Posting.disputedOf
        (journalLines [samplePosting, samplePosting] (.arInvoice 9 7 100 "inv-1")) := by
  obtain ⟨caches, hc, row, hrow, hbalance, hdisputed⟩ : ∃ caches,
      runPostings [samplePosting, samplePosting] = .ok caches ∧
        ∃ row, caches (.arInvoice 9 7 100 "inv-1") = some row ∧ row.balance.value = 25 ∧
          disputedOf (some row) = 5 := by decide +kernel
  exact ⟨caches, row, hc, hrow, hbalance, hdisputed,
    (((projection_refines_journal hc _).2 row hrow).2.2.1 rfl).1⟩

end Gears.Ledger
