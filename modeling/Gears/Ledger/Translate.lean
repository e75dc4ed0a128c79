import Gears.Ledger.Posting
import Gears.Money.Allocate

/-!
# Translation into the functional currency

`translateEntry` multiplies every line of an entry by one rate, rounds each product once at the
scale of the functional currency and closes what the rounding leaves open onto an anchor line.

* `Closing` : what a successful translation computed; `exists_closing` reads it off a run.
* `IsTranslation` : what it returns, for each line and for the two sides.
* `Closing.accepted` : the lines stamped with the results pass `validateBalancedEntry`.
-/

namespace Gears.Ledger

open Money ExactAmount Except List

variable {entry : List LineFacts}

/-- A positive transaction posting and its posting side. -/
structure FxLine where
  amount : PostedMoney
  side : Side
  deriving DecidableEq, Repr

/-- The ways a translation fails. -/
inductive FxTranslateError
  | rateNonPositive
  | anchorOutOfBounds
  | nonPositiveLine
  | residualExceedsAnchor
  | exact (error : ExactError)
  deriving DecidableEq, Repr

/-- Validate a positive bounded quote. -/
def validateRate (rate : Decimal) : Except FxTranslateError Unit := do
  rejectIf (rate ≤ .zero) .rateNonPositive
  let _ ← (validateAmount rate).mapError fun e => .exact (.money e)

/-- A line has the currency of the entry and a positive amount. -/
def checkLine (currency : CurrencySpec) (line : FxLine) : Except FxTranslateError Unit := do
  (currency.ensureSame line.amount.currency).mapError fun e => .exact (.money e)
  rejectIf (line.amount.amount ≤ .zero) .nonPositiveLine

/-- Add a debit to a net, subtract a credit. -/
def addSide (net value : ExactAmount) : Side → Except ExactError ExactAmount
  | .debit => net.checkedAdd value
  | .credit => net.checkedSub value

/-- Translate one line and add it to the net. -/
def translateLine (rate : Decimal) (target : CurrencySpec)
    (state : List ExactAmount × ExactAmount) (line : FxLine) :
    Except ExactError (List ExactAmount × ExactAmount) := do
  let product ← (fromDecimal line.amount.amount).checkedMul (fromDecimal rate)
  let exact ← product.roundHalfEvenExact target.scale
  let net ← addSide state.2 exact line.side
  return (state.1 ++ [exact], net)

/-- Take a net out of the anchor. -/
def adjustAnchor (old net : ExactAmount) : Side → Except ExactError ExactAmount
  | .debit => old.checkedSub net
  | .credit => old.checkedAdd net

/-- Translate lines in order and close the exact functional residual onto the chosen anchor. -/
def translateEntry (lines : List FxLine) (rate : Decimal) (target : CurrencySpec) (anchor : ℕ) :
    Except FxTranslateError (List PostedMoney) := do
  validateRate rate
  rejectIf (lines.length ≤ anchor) .anchorOutOfBounds
  forSome lines.head? fun first => lines.forM (checkLine first.amount.currency)
  let (functional, net) ←
    (lines.foldlM (translateLine rate target) ([], fromDecimal .zero)).mapError .exact
  -- both lists are longer than the anchor here
  let old ← okOr functional[anchor]? .anchorOutOfBounds
  let line ← okOr lines[anchor]? .anchorOutOfBounds
  let adjusted ← (adjustAnchor old net line.side).mapError .exact
  rejectIf (adjusted.isNegative ∨ adjusted = fromDecimal .zero) .residualExceedsAnchor
  (functional.set anchor adjusted).mapM fun value =>
    (value.intoPostedExact target).mapError .exact

/-- A value with the sign of its side, debits positive. -/
def Side.signed (side : Side) (value : ℚ) : ℚ :=
  match side with
  | .debit => value
  | .credit => -value

theorem Side.abs_signed_sub (side : Side) (x y : ℚ) :
    |side.signed x - side.signed y| = |x - y| := by
  cases side with
  | debit => rfl
  | credit =>
    rw [abs_sub_comm x y]
    simp only [signed]
    ring_nf

/-- The values of the lines, with their signs. -/
def signedValues (lines : List FxLine) (values : List ℚ) : List ℚ :=
  List.zipWith (fun line value => line.side.signed value) lines values

/-- The values posted on one side. -/
def sideTotal (side : Side) (lines : List FxLine) (posted : List PostedMoney) : ℚ :=
  (((lines.zip posted).filter fun p => p.1.side = side).map fun p => p.2.value).sum

theorem sum_signedValues (lines : List FxLine) (posted : List PostedMoney) :
    (signedValues lines (posted.map PostedMoney.value)).sum =
      sideTotal .debit lines posted - sideTotal .credit lines posted := by
  induction lines generalizing posted with
  | nil => simp [signedValues, sideTotal]
  | cons line lines ih =>
    cases posted with
    | nil => simp [signedValues, sideTotal]
    | cons money posted =>
      have htail := ih posted
      simp only [signedValues, sideTotal] at htail ⊢
      rw [map_cons, zipWith_cons_cons, sum_cons, htail]
      cases hside : line.side with
      | debit =>
        simp [hside, Side.signed]
        ring
      | credit =>
        simp [hside, Side.signed]
        ring

variable {line : FxLine} {lines : List FxLine} {rate : Decimal} {target : CurrencySpec}
    {net : ExactAmount}

theorem sum_signedValues_set {values : List ℚ} {i : ℕ}
    {old : ℚ} (new : ℚ) (hline : lines[i]? = some line) (hold : values[i]? = some old) :
    (signedValues lines (values.set i new)).sum =
      (signedValues lines values).sum - line.side.signed old + line.side.signed new := by
  induction lines generalizing values i with
  | nil => cases hline
  | cons l lines ih =>
    cases values with
    | nil => cases hold
    | cons v values =>
      -- the anchor is the head, or lies in the tail
      cases i with
      | zero =>
        cases hline
        cases hold
        simp only [signedValues, set_cons_zero, zipWith_cons_cons, sum_cons]
        ring
      | succ i =>
        have htail := ih (by simpa using hline) (by simpa using hold)
        simp only [signedValues, set_cons_succ, zipWith_cons_cons, sum_cons] at htail ⊢
        rw [htail]
        ring

/-! ### What a translation returns -/

/-- The product of a line and the rate, rounded half to even at the target scale. -/
def IsRoundedLine (rate : Decimal) (target : CurrencySpec) (line : FxLine) (value : ℚ) : Prop :=
  ∃ k : ℤ, value = k / 10 ^ target.scale ∧
    IsHalfEven (line.amount.value * rate.toRat * 10 ^ target.scale) k

theorem IsRoundedLine.abs_le {value : ℚ} (h : IsRoundedLine rate target line value) :
    |line.side.signed value - line.side.signed (line.amount.value * rate.toRat)| ≤
      1 / 2 / 10 ^ target.scale := by
  obtain ⟨k, rfl, hk⟩ := h
  rw [Side.abs_signed_sub]
  exact hk.abs_div_sub_le (by positivity)

theorem toRat_of_addSide {value net' : ExactAmount} {side : Side}
    (h : addSide net value side = .ok net') : net'.toRat = net.toRat + side.signed value.toRat := by
  cases side with
  | debit => exact (checkedAdd_eq_ok_iff.1 h).2.2.2
  | credit => exact (checkedSub_eq_ok_iff.1 h).2.2.2.trans (sub_eq_add_neg _ _)

theorem signed_toRat_of_adjustAnchor {old adjusted : ExactAmount} {side : Side}
    (h : adjustAnchor old net side = .ok adjusted) :
    side.signed adjusted.toRat = side.signed old.toRat - net.toRat := by
  cases side with
  | debit => exact (checkedSub_eq_ok_iff.1 h).2.2.2
  | credit =>
    simp only [Side.signed, (checkedAdd_eq_ok_iff.1 h).2.2.2]
    ring

theorem isRoundedLine_of_translateLine {state state' : List ExactAmount × ExactAmount}
    (h : translateLine rate target state line = .ok state') :
    ∃ value, IsRoundedLine rate target line value.toRat ∧ state'.1 = state.1 ++ [value] ∧
      state'.2.toRat = state.2.toRat + line.side.signed value.toRat := by
  simp only [translateLine, bind_eq_ok_iff, checkedMul_eq_ok_iff,
    roundHalfEvenExact_eq_ok_iff target.scale_le] at h
  obtain ⟨product, ⟨-, -, -, hproduct⟩, value, ⟨-, -, hvalue⟩, net, hnet, h⟩ := h
  cases h
  refine ⟨value, ⟨_, hvalue, ?_⟩, rfl, toRat_of_addSide hnet⟩
  have hround := product.isHalfEven_roundedUnits target.scale
  rwa [hproduct, toRat_fromDecimal_amount, toRat_fromDecimal] at hround

theorem isRoundedLine_of_translateLines {functional : List ExactAmount}
    (h : lines.foldlM (translateLine rate target) ([], fromDecimal .zero) = .ok (functional, net)) :
    Forall₂ (fun line value => IsRoundedLine rate target line value.toRat) lines functional ∧
      net.toRat = (signedValues lines (functional.map toRat)).sum := by
  refine foldlM_induction
    (P := fun ls state => Forall₂
        (fun line value => IsRoundedLine rate target line value.toRat) ls state.1 ∧
      state.2.toRat = (signedValues ls (state.1.map toRat)).sum)
    (by simp [signedValues]) (fun ls state line state' hs hstep => ?_) h
  obtain ⟨value, hvalue, hvalues, hnet⟩ := isRoundedLine_of_translateLine hstep
  rw [hvalues, hnet, hs.2]
  refine ⟨rel_append hs.1 (.cons hvalue .nil), ?_⟩
  have hlength : ls.length = (state.1.map toRat).length := by
    rw [length_map, hs.1.length_eq]
  rw [signedValues, signedValues, map_append, zipWith_append hlength]
  simp

/-- What a successful translation computed: the rounded products, and the anchor after the net is
taken out of it. -/
structure Closing (lines : List FxLine) (rate : Decimal) (target : CurrencySpec) (anchor : ℕ)
    (posted : List PostedMoney) where
  /-- The rounded products. -/
  values : List ℚ
  line : FxLine
  /-- The rounded product of the anchor. -/
  old : ℚ
  adjusted : ℚ
  rounded : Forall₂ (IsRoundedLine rate target) lines values
  line_eq : lines[anchor]? = some line
  old_eq : values[anchor]? = some old
  signed_adjusted : line.side.signed adjusted =
    line.side.signed old - (signedValues lines values).sum
  adjusted_pos : 0 < adjusted
  currency : ∀ m ∈ posted, m.currency = target
  posted_eq : posted.map PostedMoney.value = values.set anchor adjusted
  same_currency : ∀ l ∈ lines, ∀ l' ∈ lines, l.amount.currency = l'.amount.currency
  positive : ∀ l ∈ lines, 0 < l.amount.value

theorem exists_closing {anchor : ℕ}
    {posted : List PostedMoney} (h : translateEntry lines rate target anchor = .ok posted) :
    Nonempty (Closing lines rate target anchor posted) := by
  simp only [translateEntry, ok_iffs, forSome_eq_ok_iff, not_or, forM_eq_ok_iff] at h
  obtain ⟨-, -, -, -, _, hlines, ⟨functional, net⟩, hfold, old, hold, line, hline, adjusted,
    hadjusted, -, ⟨hneg, hzero⟩, hposted⟩ := h
  obtain ⟨hrounded, hnet⟩ := isRoundedLine_of_translateLines hfold
  have hchecked : ∀ l ∈ lines, ∀ first ∈ lines.head?,
      first.amount.currency = l.amount.currency ∧ 0 < l.amount.value := by
    intro l hl first hfirst
    have hcheck := hlines first hfirst l hl
    simp only [checkLine, ok_iffs, CurrencySpec.ensureSame_eq_ok_iff, Decimal.le_iff,
      Decimal.toRat_zero, exists_const, not_le] at hcheck
    exact hcheck
  obtain ⟨first, hfirst⟩ : ∃ first, first ∈ lines.head? := by
    cases lines with
    | nil => cases hline
    | cons first rest => exact ⟨first, rfl⟩
  refine ⟨functional.map toRat, line, old.toRat, adjusted.toRat, ?_, hline, ?_, ?_, ?_, ?_, ?_, ?_,
    fun l hl => (hchecked l hl first hfirst).2⟩
  · rw [forall₂_map_right_iff]
    exact hrounded
  · rw [List.getElem?_map, hold, Option.map_some]
  · rw [signed_toRat_of_adjustAnchor hadjusted, hnet]
  · rw [isNegative_iff, not_lt] at hneg
    rw [← toRat_injective.eq_iff, toRat_fromDecimal, Decimal.toRat_zero] at hzero
    exact lt_of_le_of_ne hneg (Ne.symm hzero)
  · intro m hm
    obtain ⟨value, -, hvalue⟩ := (mapM_eq_ok_iff.1 hposted).exists_of_mem_right hm
    exact (intoPostedExact_eq_ok_iff.1 (mapError_eq_ok_iff.1 hvalue)).1
  · rw [← map_set]
    exact map_eq_of_mapM hposted fun value m hm =>
      (intoPostedExact_eq_ok_iff.1 (mapError_eq_ok_iff.1 hm)).2
  · intro l hl l' hl'
    rw [← (hchecked l hl first hfirst).1, (hchecked l' hl' first hfirst).1]

/-- The functional column of an entry: one value per line in the target currency, equal sums on the
two sides, the rounded product on every line but the anchor, and a positive anchor. -/
structure IsTranslation (lines : List FxLine) (rate : Decimal) (target : CurrencySpec) (anchor : ℕ)
    (posted : List PostedMoney) : Prop where
  length_eq : posted.length = lines.length
  currency : ∀ m ∈ posted, m.currency = target
  balanced : sideTotal .debit lines posted = sideTotal .credit lines posted
  isHalfEven : ∀ (i : ℕ) line m, lines[i]? = some line → posted[i]? = some m → i ≠ anchor →
    IsHalfEven (line.amount.value * rate.toRat * 10 ^ target.scale) m.units
  anchor_pos : ∃ m, posted[anchor]? = some m ∧ 0 < m.value

variable {lines : List FxLine} {rate : Decimal} {target : CurrencySpec} {anchor : ℕ}
  {posted : List PostedMoney}

section

variable (c : Closing lines rate target anchor posted)
include c

theorem Closing.getElem?_map (i : ℕ) :
    posted[i]?.map PostedMoney.value = (c.values.set anchor c.adjusted)[i]? := by
  rw [← c.posted_eq, List.getElem?_map]

theorem Closing.getElem?_anchor : ∃ m, posted[anchor]? = some m ∧ m.value = c.adjusted := by
  have hlt : anchor < c.values.length := (List.getElem?_eq_some_iff.1 c.old_eq).1
  have hanchor := c.getElem?_map anchor
  rw [getElem?_set_self hlt] at hanchor
  exact Option.map_eq_some_iff.1 hanchor

theorem Closing.sum_signedValues : (signedValues lines (posted.map PostedMoney.value)).sum = 0 := by
  rw [c.posted_eq, sum_signedValues_set c.adjusted c.line_eq c.old_eq, c.signed_adjusted]
  ring

theorem Closing.isTranslation : IsTranslation lines rate target anchor posted where
  length_eq := by
    have hlength := congrArg List.length c.posted_eq
    rwa [length_map, length_set, ← c.rounded.length_eq] at hlength
  currency := c.currency
  balanced := by
    have hsum := c.sum_signedValues
    rw [Ledger.sum_signedValues] at hsum
    exact sub_eq_zero.1 hsum
  isHalfEven := by
    intro i line m hline hm hne
    have hvalue := c.getElem?_map i
    rw [hm, getElem?_set_ne hne.symm] at hvalue
    obtain ⟨k, hk, hround⟩ := c.rounded.rel_of_getElem? hline hvalue.symm
    rw [m.value_eq_units, c.currency m (mem_of_getElem? hm),
      div_left_inj' (by positivity), Int.cast_inj] at hk
    rw [hk]
    exact hround
  anchor_pos := by
    obtain ⟨m, hm, hvalue⟩ := c.getElem?_anchor
    exact ⟨m, hm, hvalue ▸ c.adjusted_pos⟩

end

/-! ### Entries that balance -/

/-- The transaction lines balance. -/
def BalancedLines (lines : List FxLine) : Prop :=
  sideTotal .debit lines (lines.map FxLine.amount) =
    sideTotal .credit lines (lines.map FxLine.amount)

instance (lines : List FxLine) : Decidable (BalancedLines lines) :=
  inferInstanceAs (Decidable (_ = _))

theorem signedValues_map (lines : List FxLine) (f : FxLine → ℚ) :
    signedValues lines (lines.map f) = lines.map fun line => line.side.signed (f line) := by
  rw [signedValues, zipWith_map_right, zipWith_self]

theorem BalancedLines.sum_eq_zero (h : BalancedLines lines) :
    (lines.map fun line => line.side.signed line.amount.value).sum = 0 := by
  have hsum := sum_signedValues lines (lines.map FxLine.amount)
  rw [map_map, signedValues_map] at hsum
  exact hsum.trans (sub_eq_zero.2 h)

theorem Closing.abs_anchor_le (c : Closing lines rate target anchor posted)
    (hbalanced : BalancedLines lines) :
    |c.adjusted - c.line.amount.value * rate.toRat| ≤
      (lines.length - 1 : ℕ) * (1 / 2 / 10 ^ target.scale) := by
  have herrors : Forall₂ (fun line value =>
      |value - line.side.signed (line.amount.value * rate.toRat)| ≤ 1 / 2 / 10 ^ target.scale) lines
      (signedValues lines c.values) := c.rounded.zipWith_right fun _ _ h => h.abs_le
  have hold : (signedValues lines c.values)[anchor]? = some (c.line.side.signed c.old) := by
    rw [signedValues, getElem?_zipWith, c.line_eq, c.old_eq]
  -- the lines balance, so their exact products do
  have hexact :
      (lines.map fun line => line.side.signed (line.amount.value * rate.toRat)).sum = 0 := by
    have hmul : (fun line : FxLine => line.side.signed (line.amount.value * rate.toRat)) =
        fun line => line.side.signed line.amount.value * rate.toRat := by
      funext line
      cases line.side with
      | debit => rfl
      | credit => exact (neg_mul _ _).symm
    rw [hmul, sum_map_mul_right, hbalanced.sum_eq_zero, zero_mul]
  have habsorb := abs_absorb_sub_le herrors c.line_eq hold
  rw [hexact, map_id'] at habsorb
  rw [← Side.abs_signed_sub c.line.side, c.signed_adjusted,
    sub_eq_add_neg (c.line.side.signed c.old), ← zero_sub]
  exact habsorb

/-- A line with its functional value. -/
def FxLine.stamp (payer : Uuid) (line : FxLine) (functional : PostedMoney) : LineFacts :=
  ⟨line.side, line.amount, payer, some functional⟩

/-- The lines of an entry with their functional values. -/
def stamped (payer : Uuid) (lines : List FxLine) (posted : List PostedMoney) : List LineFacts :=
  (lines.zip posted).map fun p => p.1.stamp payer p.2

theorem sum_signedUnits {c : CurrencySpec} (hc : ∀ l ∈ entry, l.money.currency = c) :
    ((entry.map LineFacts.signedUnits).sum : ℚ) =
      (entry.map fun l => l.side.signed l.money.value).sum * 10 ^ c.scale := by
  rw [← sum_map_mul_right, Int.cast_list_sum, map_map]
  refine congrArg List.sum (map_congr_left fun l hl => ?_)
  have hvalue : l.money.value * 10 ^ c.scale = l.money.units := by
    rw [l.money.value_eq_units, hc l hl, div_mul_cancel₀ _ (by positivity)]
  rw [Function.comp_apply, LineFacts.signedUnits]
  cases l.side with
  | debit => exact hvalue.symm
  | credit => rw [Side.signed, neg_mul, hvalue, Int.cast_neg]

theorem sum_signedUnits_eq_zero_iff {c : CurrencySpec} (hc : ∀ l ∈ entry, l.money.currency = c) :
    (entry.map LineFacts.signedUnits).sum = 0 ↔
      (entry.map fun l => l.side.signed l.money.value).sum = 0 := by
  rw [← Int.cast_eq_zero (α := ℚ), sum_signedUnits hc, mul_eq_zero, or_iff_left (by positivity)]

/-- **A stamped entry is accepted.**  The lines of a balanced entry with their functional values
pass the balance check, for every payer. -/
theorem Closing.accepted (c : Closing lines rate target anchor posted)
    (hbalanced : BalancedLines lines) (hlen : lines.length < 2 ^ 64) (payer : Uuid)
    (hline : line ∈ lines) :
    validateBalancedEntry line.amount.currency.code (stamped payer lines posted) = .ok () := by
  have hlength := c.isTranslation.length_eq
  -- what a line of the stamped entry is
  have hmem : ∀ l ∈ stamped payer lines posted, ∃ x ∈ lines, ∃ m ∈ posted, l = x.stamp payer m := by
    intro l hl
    obtain ⟨⟨x, m⟩, hp, rfl⟩ := mem_map.1 hl
    exact ⟨x, (of_mem_zip hp).1, m, (of_mem_zip hp).2, rfl⟩
  have hmoney : ∀ l ∈ stamped payer lines posted, l.money.currency = line.amount.currency := by
    intro l hl
    obtain ⟨x, hx, m, -, rfl⟩ := hmem l hl
    exact c.same_currency x hx line hline
  have hsum : ((stamped payer lines posted).map LineFacts.signedUnits).sum = 0 := by
    rw [sum_signedUnits_eq_zero_iff hmoney, stamped, map_map]
    have hfst : (lines.zip posted).map ((fun l : LineFacts => l.side.signed l.money.value) ∘
          fun p : FxLine × PostedMoney => p.1.stamp payer p.2) =
        lines.map fun line => line.side.signed line.amount.value := by
      conv_rhs => rw [← map_fst_zip hlength.ge, map_map]
      rfl
    rw [hfst]
    exact hbalanced.sum_eq_zero
  have hfunctional : ((stamped payer lines posted).map LineFacts.functionalUnits).sum = 0 := by
    have hcolumn : (stamped payer lines posted).map LineFacts.functionalUnits =
        ((lines.zip posted).map fun p : FxLine × PostedMoney =>
          (⟨p.1.side, p.2, payer, some p.2⟩ : LineFacts)).map LineFacts.signedUnits := by
      rw [stamped, map_map, map_map]
      rfl
    rw [hcolumn, sum_signedUnits_eq_zero_iff, map_map]
    · have hvalues := c.sum_signedValues
      rw [signedValues, zipWith_map_right, ← map_uncurry_zip_eq_zipWith] at hvalues
      exact hvalues
    · intro l hl
      obtain ⟨⟨x, m⟩, hp, rfl⟩ := mem_map.1 hl
      exact c.currency m (of_mem_zip hp).2
  have hsize : (stamped payer lines posted).length ≤ 10 ^ 100 := by
    rw [stamped, length_map, length_zip, hlength, min_self]
    exact hlen.le.trans (by norm_num)
  have hne : stamped payer lines posted ≠ [] := by
    rw [stamped, ne_eq, map_eq_nil_iff, ← length_eq_zero_iff, length_zip, hlength, min_self]
    exact (length_pos_of_mem hline).ne'
  obtain ⟨first, rest, hentry⟩ := exists_cons_of_ne_nil hne
  rw [hentry] at hmem hmoney hsum hfunctional hsize ⊢
  have hcurrency : ∀ l ∈ first :: rest, ∃ m, l.functionalMoney = some m ∧ m.currency = target := by
    intro l hl
    obtain ⟨x, -, m, hm, rfl⟩ := hmem l hl
    exact ⟨m, rfl, c.currency m hm⟩
  refine validateBalancedEntry_stamped hmoney hcurrency hsize ?_ ?_ hsum hfunctional
  · intro l hl
    obtain ⟨x, hx, m, -, rfl⟩ := hmem l hl
    exact c.positive x hx
  · have hpayer : ∀ l ∈ first :: rest, l.payerTenantId = payer := by
      intro l hl
      obtain ⟨x, -, m, -, rfl⟩ := hmem l hl
      rfl
    intro l hl
    rw [hpayer l hl, hpayer first mem_cons_self]

/-- **Translation.**  A successful translation is a functional column whose sides agree.  When the
transaction lines balance too, the anchor is at most half a target increment per other line away
from its own product, and the entry with both columns passes the balance check.  The length of a
slice is a 64-bit number. -/
theorem translateEntry_spec (h : translateEntry lines rate target anchor = .ok posted) :
    IsTranslation lines rate target anchor posted ∧
      (BalancedLines lines → (∀ line m, lines[anchor]? = some line → posted[anchor]? = some m →
          |m.value - line.amount.value * rate.toRat| ≤
            (lines.length - 1 : ℕ) * (1 / 2 / 10 ^ target.scale)) ∧
        (lines.length < 2 ^ 64 → ∀ payer, ∀ line ∈ lines,
          validateBalancedEntry line.amount.currency.code (stamped payer lines posted) =
            .ok ())) := by
  obtain ⟨c⟩ := exists_closing h
  refine ⟨c.isTranslation, fun hbalanced => ⟨?_, ?_⟩⟩
  · intro line m hline hm
    obtain ⟨m', hm', hvalue⟩ := c.getElem?_anchor
    cases hm.symm.trans hm'
    cases hline.symm.trans c.line_eq
    rw [hvalue]
    exact c.abs_anchor_le hbalanced
  · intro hlen payer line hline
    exact c.accepted hbalanced hlen payer hline

/-- Two debits of a cent and a credit of two, translated at 1.5. -/
def centLines : List FxLine :=
  [⟨.cents 1, .debit⟩, ⟨.cents 1, .debit⟩, ⟨.cents 2, .credit⟩]

theorem translateEntry_spec_cents : ∃ posted, translateEntry centLines ⟨15, 1, by decide, by decide⟩
        ⟨"EUR", 2, by decide, by decide⟩ 2 = .ok posted ∧
      posted.map PostedMoney.units = [2, 2, 4] ∧ BalancedLines centLines ∧
      validateBalancedEntry "USD" (stamped 7 centLines posted) = .ok () := by
  have hbalanced : BalancedLines centLines := by decide +kernel
  refine exists_ok_of
    (by decide +kernel) fun posted hposted hunits => ⟨hunits, hbalanced, ?_⟩
  obtain ⟨-, haccepted⟩ := translateEntry_spec hposted
  exact (haccepted hbalanced).2 (by decide) 7 _ mem_cons_self

end Gears.Ledger
