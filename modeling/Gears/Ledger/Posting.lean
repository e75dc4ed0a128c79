import Gears.Ledger.Model
import Gears.Lib.Accumulate
import Gears.Lib.Coalesce
import Gears.Money.ProRata

/-!
# The balanced-entry check

`validateBalancedEntry` is the structural gate every posting passes: one payer, one currency,
positive amounts, and a zero net for each currency and for the functional column.

* `addSigned`, `addToGroups`, `addFunctional` : the running nets of the check.
* `validate_balanced_entry_exact` : what the check asks, in any order of the lines.
-/

namespace Gears.Ledger

open Money Except List Decimal ExactAmount

variable {currency : String} {o : Option (ℕ × ExactAmount)}

/-- The facts of a line that the balance check reads. -/
structure LineFacts where
  side : Side
  money : PostedMoney
  payerTenantId : Uuid
  functionalMoney : Option PostedMoney
  deriving DecidableEq, Repr

/-- The facts of a journal line. -/
def NewLine.facts (l : NewLine) : LineFacts :=
  ⟨l.side, l.money, l.payerTenantId, l.functionalMoney⟩

/-- A line with a zero transaction amount and a functional value carries no transaction value. -/
def isFunctionalOnly (money : PostedMoney) (functionalMoney : Option PostedMoney) : Bool :=
  money.amount.isZero && functionalMoney.isSome

/-- A structural breach of the posting rules. -/
inductive PostingViolation
  | empty
  | unbalanced
  | mixedPayer
  | currencyMismatch
  | inconsistentScale
  | amountOutOfRange
  | functionalPartial
  | functionalUnbalanced
  deriving DecidableEq, Repr

/-- Add a journal leg to a net: debits positive, credits negative. -/
def addSigned (net : ExactAmount) (money : PostedMoney) (side : Side) :
    Except PostingViolation ExactAmount :=
  (match side with
    | .debit => net.checkedAdd (.fromDecimal money.amount)
    | .credit => net.checkedSub (.fromDecimal money.amount)).mapError fun _ => .amountOutOfRange

/-- The nets by currency code, each with the scale of the code's first line. -/
abbrev Groups := List (String × ℕ × ExactAmount)

/-- Add a line to the net of its currency code. -/
def addToGroups : Groups → LineFacts → Except PostingViolation Groups
  | [], line => do
    let net ← addSigned (.fromDecimal .zero) line.money line.side
    return [(line.money.currency.code, line.money.currency.scale, net)]
  | (code, scale, net) :: rest, line =>
    if code = line.money.currency.code then do
      rejectIf (scale ≠ line.money.currency.scale) .inconsistentScale
      let net ← addSigned net line.money line.side
      return (code, scale, net) :: rest
    else do
      let rest ← addToGroups rest line
      return (code, scale, net) :: rest

/-- Add a line to the functional net. -/
def addFunctional (first : CurrencySpec) (net : ExactAmount) (line : LineFacts) :
    Except PostingViolation ExactAmount :=
  match line.functionalMoney with
  | none => .error .functionalPartial
  | some money => do
    rejectIf (money.currency.code ≠ first.code) .currencyMismatch
    rejectIf (money.currency.scale ≠ first.scale) .inconsistentScale
    addSigned net money line.side

/-- The amount of a line is not positive, and no positive functional value stands for it. -/
def badAmount (line : LineFacts) : Prop :=
  line.money.amount < zero ∨
    line.money.amount.isZero = true ∧ ∀ f ∈ line.functionalMoney, f.amount ≤ zero

instance (line : LineFacts) : Decidable (badAmount line) :=
  inferInstanceAs (Decidable (_ ∨ _))

/-- Validate the structure of a balanced entry. -/
def validateBalancedEntry (entryCurrency : String) : List LineFacts → Except PostingViolation Unit
  | [] => .error .empty
  | first :: rest => do
    let lines := first :: rest
    rejectIf (∃ l ∈ lines, badAmount l) .amountOutOfRange
    rejectIf (∃ l ∈ lines, l.payerTenantId ≠ first.payerTenantId) .mixedPayer
    rejectIf (∃ l ∈ lines, l.money.currency.code ≠ entryCurrency ∧
      isFunctionalOnly l.money l.functionalMoney = false) .currencyMismatch
    let groups ← lines.foldlM addToGroups []
    rejectIf (∃ g ∈ groups, g.2.2 ≠ .fromDecimal .zero) .unbalanced
    let count := lines.countP fun l => l.functionalMoney.isSome
    rejectIf (0 < count ∧ count < lines.length) .functionalPartial
    forSome first.functionalMoney fun f => do
      let net ← lines.foldlM (addFunctional f.currency) (.fromDecimal .zero)
      rejectIf (net ≠ .fromDecimal .zero) .functionalUnbalanced

/-- The facts of the line with its side flipped. -/
def LineFacts.flip (l : LineFacts) : LineFacts := { l with side := l.side.flip }

/-- Every net with the opposite sign. -/
def Groups.neg (gs : Groups) : Groups := gs.map fun g => (g.1, g.2.1, g.2.2.neg)

theorem neg_eq_zero_iff {a : ExactAmount} :
    a.neg = .fromDecimal .zero ↔ a = .fromDecimal .zero := by
  rw [← toRat_injective.eq_iff, ← toRat_injective.eq_iff]
  simp

theorem addSigned_flip (net : ExactAmount) (money : PostedMoney) (side : Side) :
    addSigned net.neg money side.flip = (addSigned net money side).map .neg := by
  have hadd : net.neg.checkedAdd (fromDecimal money.amount) =
      (net.checkedSub (.fromDecimal money.amount)).map .neg := by
    rw [checkedSub_eq, ← checkedAdd_neg, neg_neg]
  have hsub : net.neg.checkedSub (fromDecimal money.amount) =
      (net.checkedAdd (.fromDecimal money.amount)).map .neg := by
    rw [checkedSub_eq, checkedAdd_neg]
  unfold addSigned
  cases side with
  | debit =>
    simp only [hsub]
    cases net.checkedAdd (.fromDecimal money.amount) <;> rfl
  | credit =>
    simp only [hadd]
    cases net.checkedSub (.fromDecimal money.amount) <;> rfl

theorem addToGroups_flip (gs : Groups) (l : LineFacts) :
    addToGroups gs.neg l.flip = (addToGroups gs l).map Groups.neg := by
  induction gs with
  | nil =>
    -- a new group starts from zero, which is its own negative
    have hflip := addSigned_flip (.fromDecimal .zero) l.money l.side
    rw [neg_eq_zero_iff.2 rfl] at hflip
    simp only [Groups.neg, map_nil, addToGroups, LineFacts.flip, hflip]
    cases addSigned (.fromDecimal .zero) l.money l.side <;> rfl
  | cons g gs ih =>
    obtain ⟨code, scale, net⟩ := g
    simp only [Groups.neg, map_cons, addToGroups, LineFacts.flip] at ih ⊢
    by_cases hc : code = l.money.currency.code
    · rw [if_pos hc, if_pos hc, addSigned_flip]
      by_cases hs : scale = l.money.currency.scale
      · simp only [rejectIf_of_not (not_not.2 hs)]
        cases addSigned net l.money l.side <;> rfl
      · simp only [hs, ne_eq]
        rfl
    · rw [if_neg hc, if_neg hc, ih]
      cases addToGroups gs l <;> rfl

theorem addFunctional_flip (first : CurrencySpec) (net : ExactAmount) (l : LineFacts) :
    addFunctional first net.neg l.flip = (addFunctional first net l).map .neg := by
  unfold addFunctional LineFacts.flip
  cases l.functionalMoney with
  | none => rfl
  | some money =>
    simp only [addSigned_flip, rejectIf]
    split
    · rfl
    · split <;> rfl

/-- **The check does not see a flip of all sides**: every net changes its sign and nothing else
changes. -/
theorem validateBalancedEntry_flip (currency : String) (lines : List LineFacts) :
    validateBalancedEntry currency (lines.map LineFacts.flip) =
      validateBalancedEntry currency lines := by
  cases lines with
  | nil => rfl
  | cons first rest =>
    have hgroups : ((first :: rest).map LineFacts.flip).foldlM addToGroups [] =
        ((first :: rest).foldlM addToGroups []).map Groups.neg :=
      Except.foldlM_map Groups.neg LineFacts.flip addToGroups_flip _ []
    have hfunctional (c : CurrencySpec) : ((first :: rest).map LineFacts.flip).foldlM
        (addFunctional c) (.fromDecimal .zero) =
          ((first :: rest).foldlM (addFunctional c) (.fromDecimal .zero)).map .neg := by
      have h := Except.foldlM_map ExactAmount.neg LineFacts.flip (addFunctional_flip c)
        (first :: rest) (.fromDecimal .zero)
      rwa [neg_eq_zero_iff.2 rfl] at h
    have hcount : ((first :: rest).map LineFacts.flip).countP (fun l => l.functionalMoney.isSome) =
        (first :: rest).countP fun l => l.functionalMoney.isSome := by
      rw [countP_map]
      rfl
    have hnets (gs : Groups) : (∃ g ∈ gs.neg, g.2.2 ≠ .fromDecimal .zero) ↔
        ∃ g ∈ gs, g.2.2 ≠ .fromDecimal .zero := by
      simp [Groups.neg, neg_eq_zero_iff]
    -- the other checks do not read the side of a line
    have hany (p : LineFacts → Prop) (hp : ∀ l : LineFacts, p l.flip ↔ p l) :
        (∃ l ∈ (first :: rest).map LineFacts.flip, p l) ↔ ∃ l ∈ first :: rest, p l := by
      simp [hp]
    have hamount := hany badAmount fun _ => Iff.rfl
    have hpayer := hany (fun l => l.payerTenantId ≠ first.flip.payerTenantId) fun _ => Iff.rfl
    have hcode := hany (fun l => l.money.currency.code ≠ currency ∧
      isFunctionalOnly l.money l.functionalMoney = false) fun _ => Iff.rfl
    have hlength : ((first :: rest).map LineFacts.flip).length = (first :: rest).length :=
      length_map _
    have hfirst : first.flip.functionalMoney = first.functionalMoney := rfl
    rw [map_cons] at *
    simp only [validateBalancedEntry, hgroups, hfunctional, hcount, Except.map_bind, hnets,
      neg_eq_zero_iff, ne_eq, rejectIf_congr hamount, rejectIf_congr hcode,
      rejectIf_congr hpayer, hlength]
    rfl

/-- The posting increments of a line, debits positive. -/
def LineFacts.signedUnits (l : LineFacts) : ℤ :=
  match l.side with
  | .debit => l.money.units
  | .credit => -l.money.units

theorem natAbs_signedUnits_le (l : LineFacts) : l.signedUnits.natAbs ≤ 10 ^ 56 := by
  unfold LineFacts.signedUnits
  cases l.side with
  | debit => exact l.money.natAbs_units_le
  | credit =>
    rw [Int.natAbs_neg]
    exact l.money.natAbs_units_le

/-- A net in posting increments. -/
def IsNet (c : CurrencySpec) (k : ℤ) (net : ExactAmount) : Prop := net.toRat = k / 10 ^ c.scale

variable {c : CurrencySpec} {k : ℤ} {net : ExactAmount} {l first : LineFacts}
    {lines rest : List LineFacts}

theorem digits_grid (c : CurrencySpec) (hk : k.natAbs ≤ 10 ^ 200) :
    Digits 200 (k / 10 ^ c.scale) :=
  ⟨k, 10 ^ c.scale, ten_pow_ne_zero _, by push_cast; rfl, hk,
    Nat.pow_le_pow_right (by decide) (c.scale_le.trans (by decide))⟩

theorem IsNet.inBudget (h : IsNet c k net) (hk : k.natAbs ≤ 10 ^ 200) : net.InBudget :=
  ((h.symm ▸ digits_grid c hk : Digits 200 net.toRat).inBudget (by decide)).1

theorem isNet_zero (c : CurrencySpec) : IsNet c 0 (.fromDecimal .zero) := by
  simp [IsNet]

theorem IsNet.eq_zero_iff (h : IsNet c k net) : net = .fromDecimal .zero ↔ k = 0 := by
  rw [← toRat_injective.eq_iff, h, toRat_fromDecimal, toRat_zero,
    div_eq_zero_iff, or_iff_left (by positivity), Int.cast_eq_zero]

theorem addSigned_isNet (h : IsNet c k net)
    (hc : l.money.currency = c) (hk : k.natAbs + 10 ^ 56 ≤ 10 ^ 200) :
    ∃ net', addSigned net l.money l.side = .ok net' ∧ IsNet c (k + l.signedUnits) net' := by
  have hnet := h.inBudget (by omega)
  have hline := natAbs_signedUnits_le l
  have hmoney : (fromDecimal l.money.amount).toRat = l.money.units / 10 ^ c.scale := by
    rw [toRat_fromDecimal_amount, l.money.value_eq_units, hc]
  unfold addSigned
  simp only [mapError_eq_ok_iff]
  refine (digits_grid c (k := k + l.signedUnits) (by omega)).exists_ok (by decide) fun a ha hv => ?_
  cases hs : l.side with
  | debit =>
    refine checkedAdd_eq_ok_iff.2 ⟨hnet, inBudget_fromDecimal _, ha, ?_⟩
    rw [hv, h, hmoney, LineFacts.signedUnits, hs]
    push_cast
    ring
  | credit =>
    refine checkedSub_eq_ok_iff.2 ⟨hnet, inBudget_fromDecimal _, ha, ?_⟩
    rw [hv, h, hmoney, LineFacts.signedUnits, hs]
    push_cast
    ring

/-! ### The nets by currency code -/

/-- The posting increments of the lines of a currency code, debits positive. -/
def unitsOf (code : String) (lines : List LineFacts) : ℤ :=
  sumAt (·.money.currency.code) LineFacts.signedUnits code lines

/-- Each currency code appears with a single scale. -/
def OneScale (lines : List LineFacts) : Prop :=
  ∀ l ∈ lines, ∀ l' ∈ lines, l.money.currency.code = l'.money.currency.code →
    l.money.currency.scale = l'.money.currency.scale

/-- Add a line to the scale and net of its code. -/
def groupStep (o : Option (ℕ × ExactAmount)) (line : LineFacts) :
    Except PostingViolation (ℕ × ExactAmount) := do
  let g := o.getD (line.money.currency.scale, .fromDecimal .zero)
  rejectIf (g.1 ≠ line.money.currency.scale) .inconsistentScale
  let net ← addSigned g.2 line.money line.side
  pure (g.1, net)

theorem addToGroups_eq (gs : Groups) (l : LineFacts) :
    addToGroups gs l = accumulateStep (·.money.currency.code) groupStep gs l := by
  unfold accumulateStep
  induction gs with
  | nil =>
    rw [addToGroups, groupStep, valueOf, Option.getD_none, rejectIf_of_not (by simp)]
    cases addSigned (.fromDecimal .zero) l.money l.side <;> rfl
  | cons g gs ih =>
    obtain ⟨code, scale, net⟩ := g
    rw [addToGroups, valueOf]
    split_ifs with hcode
    · rw [groupStep, Option.getD_some]
      by_cases hscale : scale = l.money.currency.scale
      · rw [rejectIf_of_not (not_not.2 hscale)]
        cases addSigned net l.money l.side with
        | error e => rfl
        | ok net' => simp [putValue, hcode]
      · rw [rejectIf, if_pos hscale]
        rfl
    · rw [ih]
      cases groupStep (valueOf l.money.currency.code gs) l with
      | error e => rfl
      | ok g => simp [putValue, hcode]

theorem foldlM_groupStep (hc : ∀ l ∈ lines, l.money.currency = c) (hnet : IsNet c k net)
    (hk : k.natAbs + lines.length * 10 ^ 56 ≤ 10 ^ 200)
    (ho : o.getD (c.scale, .fromDecimal .zero) = (c.scale, net)) :
    ∃ o' net', lines.foldlM (fun o a => (groupStep o a).map some) o = .ok o' ∧
      o'.getD (c.scale, .fromDecimal .zero) = (c.scale, net') ∧
      IsNet c (k + (lines.map LineFacts.signedUnits).sum) net' := by
  induction lines generalizing k net o with
  | nil => exact ⟨o, net, rfl, ho, by simpa using hnet⟩
  | cons l lines ih =>
    have hl := hc l mem_cons_self
    have hsize := natAbs_signedUnits_le l
    rw [length_cons] at hk
    obtain ⟨net₁, hadd, hnet₁⟩ := addSigned_isNet hnet hl (by omega)
    obtain ⟨o', net', hfold, ho', hnet'⟩ := ih (fun a ha => hc a (mem_cons_of_mem _ ha)) hnet₁
      (by omega) (o := some (c.scale, net₁)) rfl
    -- the line adds to the net so far and leaves the scale of its code
    refine ⟨o', net', ?_, ho', ?_⟩
    · rw [foldlM_cons, groupStep, hl, ho, rejectIf_of_not (by simp), hadd]
      exact hfold
    · rw [map_cons, sum_cons, ← add_assoc]
      exact hnet'

theorem scale_of_runAt {code : String}
    (h : runAt (·.money.currency.code) groupStep code lines = .ok o) (hl : l ∈ lines)
    (hcode : l.money.currency.code = code) : o.map Prod.fst = some l.money.currency.scale := by
  refine foldlM_induction (P := fun pre o => ∀ l ∈ pre,
    o.map Prod.fst = some l.money.currency.scale) (by simp) ?_ h l (by simp [hl, hcode])
  intro pre o b o' ih hstep a ha
  rw [map_eq_ok_iff] at hstep
  obtain ⟨g, hg, rfl⟩ := hstep
  simp only [groupStep, ok_iffs, exists_const, not_not] at hg
  obtain ⟨hscale, net, -, rfl⟩ := hg
  rw [mem_append, mem_singleton] at ha
  rcases ha with ha | rfl
  · obtain ⟨g, rfl, hfst⟩ := Option.map_eq_some_iff.1 (ih a ha)
    rw [Option.getD_some, Option.map_some, hfst]
  · rw [Option.map_some, hscale]

/-- The nets are all zero when every code has one scale and its lines net to zero. -/
theorem foldlM_addToGroups_iff (hlen : lines.length ≤ 10 ^ 100) :
    (∃ gs, lines.foldlM addToGroups [] = .ok gs ∧ ∀ g ∈ gs, g.2.2 = .fromDecimal .zero) ↔
      OneScale lines ∧ ∀ l ∈ lines, unitsOf l.money.currency.code lines = 0 := by
  have hfold : lines.foldlM addToGroups [] =
      accumulate (·.money.currency.code) groupStep lines := by
    rw [accumulate, funext fun gs => funext (addToGroups_eq gs)]
  -- with one scale for its lines, the run of a code ends in their net
  have hrun : OneScale lines → ∀ l ∈ lines, ∃ o net,
      runAt (·.money.currency.code) groupStep l.money.currency.code lines = .ok o ∧
        o.getD (l.money.currency.scale, .fromDecimal .zero) = (l.money.currency.scale, net) ∧
        IsNet l.money.currency (unitsOf l.money.currency.code lines) net := by
    intro hone l hl
    have hsize : (lines.filter (·.money.currency.code = l.money.currency.code)).length * 10 ^ 56 ≤
        10 ^ 100 * 10 ^ 56 := Nat.mul_le_mul_right _ ((length_filter_le ..).trans hlen)
    have hcurrency : ∀ a ∈ lines.filter (·.money.currency.code = l.money.currency.code),
        a.money.currency = l.money.currency := by
      intro a ha
      obtain ⟨ha, hcode⟩ := mem_filter.1 ha
      have hcode := of_decide_eq_true hcode
      exact CurrencySpec.ext_code_scale hcode (hone a ha l hl hcode)
    obtain ⟨o, net, hrun, ho, hnet⟩ := foldlM_groupStep (o := none) hcurrency (isNet_zero _)
      (by rw [Int.natAbs_zero, zero_add]; exact hsize.trans (by norm_num)) rfl
    rw [zero_add] at hnet
    exact ⟨o, net, hrun, ho, hnet⟩
  rw [hfold]
  constructor
  · rintro ⟨gs, hgs, hzero⟩
    have hone : OneScale lines := by
      intro l hl l' hl' hcode
      have h := accumulate_valueOf hgs l'.money.currency.code
      exact Option.some.inj ((scale_of_runAt h hl hcode).symm.trans (scale_of_runAt h hl' rfl))
    refine ⟨hone, fun l hl => ?_⟩
    obtain ⟨o, net, ho, hget, hnet⟩ := hrun hone l hl
    rw [← hnet.eq_zero_iff]
    cases o with
    | none => exact (Prod.mk.inj hget).2.symm
    | some g =>
      rw [Option.getD_some] at hget
      have hmem := (mem_accumulate_iff hgs).2 ho
      have hz := hzero _ hmem
      rwa [hget] at hz
  · rintro ⟨hone, hnets⟩
    obtain ⟨gs, hgs⟩ : ∃ gs, accumulate (·.money.currency.code) groupStep lines = .ok gs :=
      exists_accumulate fun l hl => ⟨_, (hrun hone l hl).choose_spec.choose_spec.1⟩
    refine ⟨gs, hgs, fun g hg => ?_⟩
    obtain ⟨l, hl, hcode⟩ := exists_mem_of_accumulate hgs hg
    obtain ⟨o, net, ho, hget, hnet⟩ := hrun hone l hl
    rw [hcode, (mem_accumulate_iff hgs).1 hg] at ho
    cases ho
    rw [Option.getD_some] at hget
    rw [hget]
    exact hnet.eq_zero_iff.2 (hnets l hl)

/-- An amount is acceptable if positive, or zero with a positive functional value. -/
theorem not_badAmount_iff' : ¬ badAmount l ↔
    0 < l.money.value ∨ l.money.value = 0 ∧ ∃ f ∈ l.functionalMoney, 0 < f.value := by
  unfold badAmount
  simp only [lt_iff, le_iff, isZero_iff, toRat_zero, not_or,
    not_and, not_forall, not_lt, not_le, exists_prop]
  constructor
  · rintro ⟨hle, himp⟩
    rcases hle.lt_or_eq with hlt | heq
    · exact .inl hlt
    · exact .inr ⟨heq.symm, himp heq.symm⟩
  · rintro (hlt | ⟨heq, hf⟩)
    · exact ⟨hlt.le, fun hzero => absurd hzero hlt.ne'⟩
    · exact ⟨heq.ge, fun _ => hf⟩

/-- A line without functional value is acceptable when its amount is positive. -/
theorem not_badAmount_iff (hf : l.functionalMoney = none) : ¬ badAmount l ↔ 0 < l.money.value := by
  simp [not_badAmount_iff', hf]

theorem not_badAmount_of_valid (h : validateBalancedEntry currency lines = .ok ()) (hl : l ∈ lines)
    : ¬ badAmount l := by
  cases lines with
  | nil => cases hl
  | cons first rest =>
    simp only [validateBalancedEntry, ok_iffs, exists_const] at h
    exact fun hb => h.1 ⟨l, hl, hb⟩

/-- The posting increments of the functional value of a line, debits positive. -/
def LineFacts.functionalUnits (l : LineFacts) : ℤ :=
  match l.functionalMoney with
  | none => 0
  | some money => LineFacts.signedUnits { l with money }

theorem foldlM_addFunctional
    (hc : ∀ l ∈ lines, ∃ money, l.functionalMoney = some money ∧ money.currency = c)
    (hnet : IsNet c k net) (hk : k.natAbs + lines.length * 10 ^ 56 ≤ 10 ^ 200) :
    ∃ net', lines.foldlM (addFunctional c) net = .ok net' ∧
      IsNet c (k + (lines.map LineFacts.functionalUnits).sum) net' := by
  induction lines generalizing k net with
  | nil => exact ⟨net, rfl, by simpa using hnet⟩
  | cons l lines ih =>
    obtain ⟨money, hmoney, hcurrency⟩ := hc l mem_cons_self
    have hunits : l.functionalUnits = LineFacts.signedUnits { l with money } := by
      rw [LineFacts.functionalUnits, hmoney]
    have hsize := natAbs_signedUnits_le { l with money }
    rw [length_cons] at hk
    obtain ⟨net₁, hadd, hnet₁⟩ := addSigned_isNet (l := { l with money }) hnet hcurrency (by omega)
    rw [← hunits] at hnet₁
    obtain ⟨net', hfold, hnet'⟩ := ih (fun a ha => hc a (mem_cons_of_mem _ ha)) hnet₁
      (by omega)
    refine ⟨net', ?_, ?_⟩
    · rw [foldlM_cons, addFunctional, hmoney]
      dsimp only
      rw [rejectIf_of_not (by simp [hcurrency]),
        rejectIf_of_not (by simp [hcurrency]), hadd]
      exact hfold
    · rw [map_cons, sum_cons, ← add_assoc]
      exact hnet'

/-- The functional column nets to zero when every line has a value in its currency. -/
theorem foldlM_addFunctional_iff (hlen : lines.length ≤ 10 ^ 100) :
    (∃ net, lines.foldlM (addFunctional c) (.fromDecimal .zero) = .ok net ∧
      net = .fromDecimal .zero) ↔
      (∀ l ∈ lines, ∃ f, l.functionalMoney = some f ∧ f.currency = c) ∧
        (lines.map LineFacts.functionalUnits).sum = 0 := by
  have hsize : (0 : ℤ).natAbs + lines.length * 10 ^ 56 ≤ 10 ^ 200 := by
    rw [Int.natAbs_zero, zero_add]
    calc lines.length * 10 ^ 56 ≤ 10 ^ 100 * 10 ^ 56 := Nat.mul_le_mul_right _ hlen
      _ ≤ 10 ^ 200 := by norm_num
  constructor
  · rintro ⟨net, hfold, hzero⟩
    have hall : ∀ l ∈ lines, ∃ f, l.functionalMoney = some f ∧ f.currency = c := by
      intro l hl
      obtain ⟨net₁, net₂, hadd⟩ := exists_of_foldlM hfold hl
      unfold addFunctional at hadd
      split at hadd
      · cases hadd
      · next f hf =>
        simp only [ok_iffs, exists_const, not_not] at hadd
        exact ⟨f, hf, CurrencySpec.ext_code_scale hadd.1 hadd.2.1⟩
    obtain ⟨net', hfold', hnet⟩ := foldlM_addFunctional hall (isNet_zero c) hsize
    cases hfold.symm.trans hfold'
    rw [zero_add] at hnet
    exact ⟨hall, hnet.eq_zero_iff.1 hzero⟩
  · rintro ⟨hall, hsum⟩
    obtain ⟨net, hfold, hnet⟩ := foldlM_addFunctional hall (isNet_zero c) hsize
    rw [hsum] at hnet
    exact ⟨net, hfold, hnet.eq_zero_iff.2 rfl⟩

/-! ### What the check asks -/

/-- The entries that may be posted: one payer, positive amounts, zero nets. -/
structure BalancedEntry (entryCurrency : String) (lines : List LineFacts) : Prop where
  nonempty : lines ≠ []
  amount : ∀ l ∈ lines, 0 < l.money.value ∨ l.money.value = 0 ∧ ∃ f ∈ l.functionalMoney, 0 < f.value
  payer : ∀ l ∈ lines, ∀ l' ∈ lines, l.payerTenantId = l'.payerTenantId
  currency : ∀ l ∈ lines, l.money.currency.code ≠ entryCurrency →
    l.money.value = 0 ∧ l.functionalMoney.isSome
  oneScale : OneScale lines
  net : ∀ l ∈ lines, unitsOf l.money.currency.code lines = 0
  functional : (∀ l ∈ lines, l.functionalMoney = none) ∨
    (∃ c, ∀ l ∈ lines, ∃ f, l.functionalMoney = some f ∧ f.currency = c) ∧
      (lines.map LineFacts.functionalUnits).sum = 0

theorem isFunctionalOnly_eq_false_iff : isFunctionalOnly l.money l.functionalMoney = false ↔
    ¬ (l.money.value = 0 ∧ l.functionalMoney.isSome) := by
  rw [← Bool.not_eq_true, isFunctionalOnly, Bool.and_eq_true, isZero_iff]
  rfl

theorem validateBalancedEntry_iff (hlen : lines.length ≤ 10 ^ 100) :
    validateBalancedEntry currency lines = .ok () ↔ BalancedEntry currency lines := by
  cases lines with
  | nil => exact ⟨fun h => (by cases h), fun h => absurd rfl h.nonempty⟩
  | cons first rest =>
    simp only [validateBalancedEntry, ok_iffs, exists_const, forSome_eq_ok_iff, not_not, not_exists,
      not_and, isFunctionalOnly_eq_false_iff, not_badAmount_iff',
      Nat.not_lt, Classical.not_imp]
    constructor
    · rintro ⟨hamount, hpayer, hcurrency, gs, hgs, hzero, hcount, hfunctional⟩
      obtain ⟨hone, hnet⟩ := (foldlM_addToGroups_iff hlen).1 ⟨gs, hgs, hzero⟩
      refine ⟨by simp, hamount, fun l hl l' hl' => (hpayer l hl).trans (hpayer l' hl').symm,
        hcurrency, hone, hnet, ?_⟩
      cases hf : first.functionalMoney with
      | none =>
        -- the count is all or nothing, and the first line has no functional value
        left
        by_contra hsome
        push Not at hsome
        obtain ⟨l, hl, hne⟩ := hsome
        have hpos : 0 < (first :: rest).countP fun l => l.functionalMoney.isSome :=
          countP_pos_iff.2 ⟨l, hl, Option.isSome_iff_ne_none.2 hne⟩
        have hall := countP_eq_length.1 (le_antisymm countP_le_length (hcount hpos))
        exact absurd (hall first mem_cons_self) (by simp [hf])
      | some f =>
        have hcolumn := (foldlM_addFunctional_iff hlen).1 (hfunctional f hf)
        exact .inr ⟨⟨f.currency, hcolumn.1⟩, hcolumn.2⟩
    · intro h
      obtain ⟨gs, hgs, hzero⟩ := (foldlM_addToGroups_iff hlen).2 ⟨h.oneScale, h.net⟩
      refine ⟨h.amount, fun l hl => h.payer l hl first mem_cons_self, h.currency, gs, hgs,
        hzero, fun hpos => ?_, fun f hf => ?_⟩
      · rcases h.functional with hnone | ⟨⟨c, hall⟩, -⟩
        · obtain ⟨l, hl, hsome⟩ := countP_pos_iff.1 hpos
          rw [hnone l hl] at hsome
          cases hsome
        · refine (countP_eq_length.2 fun l hl => ?_).ge
          obtain ⟨f, hf, -⟩ := hall l hl
          rw [hf, Option.isSome_some]
      · rcases h.functional with hnone | ⟨⟨c, hall⟩, hsum⟩
        · cases (hnone first mem_cons_self).symm.trans hf
        · obtain ⟨f', hf', rfl⟩ := hall first mem_cons_self
          cases hf.symm.trans hf'
          exact (foldlM_addFunctional_iff hlen).2 ⟨hall, hsum⟩

theorem unitsOf_of_forall (hc : ∀ l ∈ lines, l.money.currency = c) :
    unitsOf c.code lines = (lines.map LineFacts.signedUnits).sum := by
  rw [unitsOf, sumAt, filter_eq_self.2 fun l hl => by simp [hc l hl]]

section

variable (hc : ∀ l ∈ first :: rest, l.money.currency = c)
include hc

/-- An entry in one currency is balanced when its amounts, payer and sums are right. -/
theorem balancedEntry_of_currency (hpos : ∀ l ∈ first :: rest, 0 < l.money.value)
    (hpayer : ∀ l ∈ first :: rest, l.payerTenantId = first.payerTenantId)
    (hsum : ((first :: rest).map LineFacts.signedUnits).sum = 0)
    (hfunctional : (∀ l ∈ first :: rest, l.functionalMoney = none) ∨
      (∃ c, ∀ l ∈ first :: rest, ∃ f, l.functionalMoney = some f ∧ f.currency = c) ∧
      ((first :: rest).map LineFacts.functionalUnits).sum = 0) :
    BalancedEntry c.code (first :: rest) where
  nonempty := by simp
  amount l hl := .inl (hpos l hl)
  payer l hl l' hl' := (hpayer l hl).trans (hpayer l' hl').symm
  currency l hl hne := absurd (by rw [hc l hl]) hne
  oneScale l hl l' hl' _ := by rw [hc l hl, hc l' hl']
  net l hl := by rw [hc l hl, unitsOf_of_forall hc, hsum]
  functional := hfunctional

/-- **Entries in one currency.**  Without functional values the check asks for positive amounts, one
payer and a zero sum. -/
theorem validateBalancedEntry_plain_iff (hf : ∀ l ∈ first :: rest, l.functionalMoney = none)
    (hlen : (first :: rest).length ≤ 10 ^ 100) :
    validateBalancedEntry c.code (first :: rest) = .ok () ↔
      (∀ l ∈ first :: rest, 0 < l.money.value) ∧
      (∀ l ∈ first :: rest, l.payerTenantId = first.payerTenantId) ∧
      ((first :: rest).map LineFacts.signedUnits).sum = 0 := by
  rw [validateBalancedEntry_iff hlen]
  constructor
  · intro h
    refine ⟨fun l hl => ?_, fun l hl => h.payer l hl first mem_cons_self, ?_⟩
    · have hamount := h.amount l hl
      simpa [hf l hl] using hamount
    · have hnet := h.net first mem_cons_self
      rwa [hc first mem_cons_self, unitsOf_of_forall hc] at hnet
  · rintro ⟨hpos, hpayer, hsum⟩
    exact balancedEntry_of_currency hc hpos hpayer hsum (.inl hf)

/-- **Entries with a functional column.**  One currency, one functional currency, one payer,
positive amounts and two zero sums are enough. -/
theorem validateBalancedEntry_stamped {target : CurrencySpec}
    (hf : ∀ l ∈ first :: rest, ∃ money, l.functionalMoney = some money ∧ money.currency = target)
    (hlen : (first :: rest).length ≤ 10 ^ 100) (hpos : ∀ l ∈ first :: rest, 0 < l.money.value)
    (hpayer : ∀ l ∈ first :: rest, l.payerTenantId = first.payerTenantId)
    (hsum : ((first :: rest).map LineFacts.signedUnits).sum = 0)
    (hfunctional : ((first :: rest).map LineFacts.functionalUnits).sum = 0) :
    validateBalancedEntry c.code (first :: rest) = .ok () :=
  (validateBalancedEntry_iff hlen).2
    (balancedEntry_of_currency hc hpos hpayer hsum (.inr ⟨⟨target, hf⟩, hfunctional⟩))

end

theorem BalancedEntry.perm {lines' : List LineFacts} (h : BalancedEntry currency lines)
    (hp : lines.Perm lines') : BalancedEntry currency lines' := by
  have hmem : ∀ {l}, l ∈ lines' → l ∈ lines := fun hl => hp.mem_iff.2 hl
  have hunits : ∀ code, unitsOf code lines' = unitsOf code lines := fun code =>
    (sumAt_perm _ code hp).symm
  have hsum := (hp.map LineFacts.functionalUnits).sum_eq
  refine ⟨fun hnil => h.nonempty (Perm.eq_nil (hnil ▸ hp)), fun l hl => h.amount l (hmem hl),
    fun l hl l' hl' => h.payer l (hmem hl) l' (hmem hl'), fun l hl => h.currency l (hmem hl),
    fun l hl l' hl' => h.oneScale l (hmem hl) l' (hmem hl'), fun l hl => ?_, ?_⟩
  · rw [hunits, h.net l (hmem hl)]
  · rcases h.functional with hnone | ⟨⟨c, hall⟩, hzero⟩
    · exact .inl fun l hl => hnone l (hmem hl)
    · exact .inr ⟨⟨c, fun l hl => hall l (hmem hl)⟩, hsum ▸ hzero⟩

/-- **The balanced-entry check.**  It accepts the balanced entries, in any order of the lines. -/
theorem validate_balanced_entry_exact (currency : String) (lines : List LineFacts)
    (hlen : lines.length < 2 ^ 64) :
    (validateBalancedEntry currency lines = .ok () ↔ BalancedEntry currency lines) ∧
      ∀ lines', lines.Perm lines' → (validateBalancedEntry currency lines' = .ok () ↔
        validateBalancedEntry currency lines = .ok ()) := by
  have hsize : lines.length ≤ 10 ^ 100 := hlen.le.trans (by norm_num)
  refine ⟨validateBalancedEntry_iff hsize, fun lines' hp => ?_⟩
  rw [validateBalancedEntry_iff hsize, validateBalancedEntry_iff (hp.length_eq ▸ hsize)]
  exact ⟨fun h => h.perm hp.symm, fun h => h.perm hp⟩

theorem validate_balanced_entry_exact_sample : BalancedEntry "USD"
    [⟨.debit, .cents 100, 7, none⟩, ⟨.credit, .cents 100, 7, none⟩] :=
  (validate_balanced_entry_exact "USD" _ (by decide)).1.1 (by decide +kernel)

end Gears.Ledger
