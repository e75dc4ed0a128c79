import Gears.Lib.Nearest
import Gears.Money.Exact
import Mathlib.Algebra.BigOperators.Ring.Finset
import Mathlib.Algebra.BigOperators.Ring.List

/-!
# Proportional allocation

`allocate` splits a posting over weights: every share is the exact proportion rounded once, half to
even, and what the rounding leaves over, of either sign, goes to one slot.

* `residualIndex` : the slot of the residual; `isResidualSlot_residualIndex` says which one it is.
* `allocate_spec` : the shares, their sum, and how far the residual slot is from its proportion.
* `allocate_only_out_of_range` : an allocation within its contract fails only for a share.
-/

namespace Gears.Money

open ExactAmount Except List

theorem ExactAmount.isHalfEven_roundedUnits (a : ExactAmount) (scale : ℕ) :
    IsHalfEven (a.toRat * 10 ^ scale) (a.roundedUnits scale) := by
  have hden : 0 < a.denominator.natAbs := Int.natAbs_pos.2 a.denominator_pos.ne'
  have hd : ((a.denominator.natAbs : ℕ) : ℚ) = a.denominator := by
    rw [← Int.cast_natCast, Int.natAbs_of_nonneg a.denominator_pos.le]
  have hround := isHalfEven_halfEven (n := a.numerator.natAbs * 10 ^ scale) hden
  rw [hd] at hround
  unfold roundedUnits
  split
  case isTrue hneg =>
    have hn : ((a.numerator.natAbs : ℕ) : ℚ) = -a.numerator := by
      rw [← Int.cast_natCast, Int.ofNat_natAbs_of_nonpos hneg.le, Int.cast_neg]
    have hq : a.toRat * 10 ^ scale =
        -(((a.numerator.natAbs * 10 ^ scale : ℕ) : ℚ) / a.denominator) := by
      push_cast [hn]
      rw [toRat]
      ring
    rw [hq]
    exact hround.neg
  case isFalse hpos =>
    have hn : ((a.numerator.natAbs : ℕ) : ℚ) = a.numerator := by
      rw [← Int.cast_natCast, Int.natAbs_of_nonneg (not_lt.1 hpos)]
    have hq : a.toRat * 10 ^ scale =
        ((a.numerator.natAbs * 10 ^ scale : ℕ) : ℚ) / a.denominator := by
      push_cast [hn]
      rw [toRat]
      ring
    rw [hq]
    exact hround

/-- Check the coefficient limit of a decimal and normalize it. -/
def validateAmount (value : Decimal) : Except MoneyError Decimal := do
  rejectIf (10 ^ 28 ≤ value.normalize.mantissa.natAbs) .amountOutOfRange
  return value.normalize

/-! ### The residual slot -/

/-- Where the rounding remainder is assigned. -/
inductive Residual where
  /-- The last index. -/
  | last
  /-- The largest weight; ties go to the lowest index. -/
  | largest
  deriving DecidableEq, Repr

/-- Value order. -/
def Decimal.cmp (a b : Decimal) : Ordering := if a < b then .lt else if b < a then .gt else .eq

/-- The greatest element of a list; the later one of two that compare equal. -/
def maxBy {α : Type*} (cmp : α → α → Ordering) : List α → Option α
  | [] => none
  | a :: l => some (l.foldl (fun best b => if cmp best b = .gt then best else b) a)

/-- The index that takes the residual. -/
def residualIndex (disposition : Residual) (weights : List Decimal) : Option ℕ :=
  match disposition with
  | .last => if weights.length = 0 then none else some (weights.length - 1)
  | .largest =>
    (maxBy (fun a b : Decimal × ℕ => (a.1.cmp b.1).then (compare b.2 a.2)) weights.zipIdx).map
      Prod.snd

/-- The last slot, or the first one of the largest weights. -/
def IsResidualSlot (weights : List Decimal) (slot : ℕ) : Residual → Prop
  | .last => slot + 1 = weights.length
  | .largest => ∃ w, weights[slot]? = some w ∧
      (∀ (j : ℕ) w', weights[j]? = some w' → w'.toRat ≤ w.toRat) ∧
      ∀ (j : ℕ) w', weights[j]? = some w' → j < slot → w'.toRat < w.toRat

/-- What a weight with its index must be to be kept as the greatest so far. -/
def Leads (seen : List (Decimal × ℕ)) (best : Decimal × ℕ) : Prop :=
  best ∈ seen ∧ ∀ p ∈ seen, p.1.toRat ≤ best.1.toRat ∧ (p.2 < best.2 → p.1.toRat < best.1.toRat)

theorem cmp_then_eq_gt_iff {a b : Decimal × ℕ} : (a.1.cmp b.1).then (compare b.2 a.2) = .gt ↔
      b.1.toRat < a.1.toRat ∨ (a.1.toRat = b.1.toRat ∧ a.2 < b.2) := by
  unfold Decimal.cmp
  split
  case isTrue h =>
    rw [Decimal.lt_iff] at h
    simp [h.not_gt, h.ne]
  case isFalse h =>
    rw [Decimal.lt_iff] at h
    split
    case isTrue h' =>
      rw [Decimal.lt_iff] at h'
      simp [h']
    case isFalse h' =>
      rw [Decimal.lt_iff] at h'
      have heq : a.1.toRat = b.1.toRat := le_antisymm (not_lt.1 h') (not_lt.1 h)
      simp [heq, Nat.compare_eq_gt]

theorem leads_foldl {l seen : List (Decimal × ℕ)} {best : Decimal × ℕ} (h : Leads seen best)
    (hlater : ∀ p ∈ seen, ∀ q ∈ l, p.2 < q.2) (hl : l.Pairwise fun p q => p.2 < q.2) :
    Leads (seen ++ l) (l.foldl (fun best b =>
      if (best.1.cmp b.1).then (compare b.2 best.2) = .gt then best else b) best) := by
  induction l generalizing seen best with
  | nil => simpa using h
  | cons b l ih =>
    obtain ⟨hb, hl⟩ := pairwise_cons.1 hl
    have hbest := hlater best h.1 b mem_cons_self
    have hstep : Leads (seen ++ [b])
        (if (best.1.cmp b.1).then (compare b.2 best.2) = .gt then best else b) := by
      split
      case isTrue hgt =>
        refine ⟨mem_append_left _ h.1, fun p hp => ?_⟩
        rcases mem_concat_iff.1 hp with hp | rfl
        · exact h.2 p hp
        · rcases cmp_then_eq_gt_iff.1 hgt with hlt | ⟨heq, -⟩
          · exact ⟨hlt.le, fun _ => hlt⟩
          · exact ⟨heq.ge, fun h' => absurd (hbest.trans h') (lt_irrefl _)⟩
      case isFalse hle =>
        have hlt : best.1.toRat < b.1.toRat := by
          rw [cmp_then_eq_gt_iff, not_or, not_lt, not_and'] at hle
          exact lt_of_le_of_ne hle.1 (hle.2 hbest)
        refine ⟨by simp, fun p hp => ?_⟩
        rcases mem_concat_iff.1 hp with hp | rfl
        · have hpb := (h.2 p hp).1.trans_lt hlt
          exact ⟨hpb.le, fun _ => hpb⟩
        · exact ⟨le_rfl, fun h' => absurd h' (lt_irrefl _)⟩
    rw [append_cons]
    refine ih hstep (fun p hp q hq => ?_) hl
    rcases mem_concat_iff.1 hp with hp | rfl
    · exact hlater p hp q (mem_cons_of_mem _ hq)
    · exact hb q hq

variable {weights : List Decimal} {sum : ExactAmount} {total : PostedMoney}

theorem isResidualSlot_residualIndex {disposition : Residual} {slot : ℕ}
    (h : residualIndex disposition weights = some slot) :
    IsResidualSlot weights slot disposition := by
  cases disposition with
  | last =>
    unfold residualIndex at h
    dsimp only at h
    split at h
    · cases h
    · cases h
      exact Nat.sub_add_cancel (Nat.one_le_iff_ne_zero.2 (by assumption))
  | largest =>
    obtain ⟨⟨w, k⟩, hmax, rfl⟩ := Option.map_eq_some_iff.1 h
    cases weights with
    | nil => cases hmax
    | cons first rest =>
      have hsorted : ((first :: rest).zipIdx).Pairwise fun p q => p.2 < q.2 := by
        have hrange : (((first :: rest).zipIdx).map Prod.snd).Pairwise (· < ·) := by
          rw [zipIdx_map_snd]
          exact pairwise_lt_range'
        exact pairwise_map.1 hrange
      obtain ⟨hfirst, hrest⟩ := pairwise_cons.1 hsorted
      have hstart : Leads [(first, 0)] (first, 0) :=
        ⟨mem_singleton_self _, fun p hp => by
          rw [mem_singleton.1 hp]
          exact ⟨le_rfl, fun h' => absurd h' (lt_irrefl _)⟩⟩
      have hleads := leads_foldl hstart (fun p hp q hq => by
        rw [mem_singleton.1 hp]
        exact hfirst q hq) hrest
      rw [Option.some.inj hmax] at hleads
      have hget : ∀ {j : ℕ} {w' : Decimal}, (first :: rest)[j]? = some w' ↔
          (w', j) ∈ (first :: rest).zipIdx := by
        intro j w'
        rw [mem_zipIdx_iff_getElem?]
      refine ⟨w, hget.2 hleads.1, fun j w' hj => (hleads.2 _ (hget.1 hj)).1, ?_⟩
      exact fun j w' hj hlt => (hleads.2 _ (hget.1 hj)).2 hlt

/-! ### Shares -/

/-- Reject counts outside the stored segment-number range. -/
def validateCount (count : ℕ) : Except ExactError Unit := do
  rejectIf (count = 0) .emptyWeights
  rejectIf (2 ^ 31 ≤ count) .tooManyTerms

/-- Check one weight and add it to the sum of the weights. -/
def addWeight (sum : ExactAmount) (weight : Decimal) : Except ExactError ExactAmount := do
  rejectIf (weight < .zero) .negativeWeight
  let _ ← (validateAmount weight).mapError .money
  sum.checkedAdd (fromDecimal weight)

/-- Round the proportion of one weight, and add it to the shares and to what is placed. -/
def placeShare (total : PostedMoney) (sum : ExactAmount) (state : List PostedMoney × ExactAmount)
    (weight : Decimal) : Except ExactError (List PostedMoney × ExactAmount) := do
  let product ← (fromDecimal total.amount).checkedMul (fromDecimal weight)
  let quotient ← product.checkedDiv sum
  let share ← quotient.roundHalfEven total.currency
  let placed ← state.2.checkedAdd (fromDecimal share.amount)
  return (state.1 ++ [share], placed)

/-- Allocate signed money using exact proportions and half-even posted shares. -/
def allocate (total : PostedMoney) (weights : List Decimal) (disposition : Residual) :
    Except ExactError (List PostedMoney) := do
  validateCount weights.length
  let sum ← weights.foldlM addWeight (fromDecimal .zero)
  let (shares, placed) ← weights.foldlM (placeShare total sum) ([], fromDecimal .zero)
  let residual ← (fromDecimal total.amount).checkedSub placed
  let index ← okOr (residualIndex disposition weights) .emptyWeights
  let slot ← okOr shares[index]? .emptyWeights
  -- only the adjusted share is narrowed, never the residual
  let exact ← (fromDecimal slot.amount).checkedAdd residual
  let adjusted ← exact.intoPostedExact total.currency
  return shares.set index adjusted

/-- The exact proportion of a weight. -/
def proportion (total : PostedMoney) (weights : List Decimal) (weight : Decimal) : ℚ :=
  total.value * weight.toRat / (weights.map Decimal.toRat).sum

theorem toRat_of_addWeights (h : weights.foldlM addWeight (fromDecimal .zero) = .ok sum) :
    sum.toRat = (weights.map Decimal.toRat).sum := by
  refine foldlM_induction (P := fun ws s => s.toRat = (ws.map Decimal.toRat).sum)
    (by simp) (fun ws s w s' hs hstep => ?_) h
  simp only [addWeight, bind_eq_ok_iff, checkedAdd_eq_ok_iff] at hstep
  obtain ⟨-, -, -, -, -, -, -, hs'⟩ := hstep
  rw [hs', hs]
  simp

/-- A share is the half-even rounding of its proportion, in the currency of the total. -/
structure IsShare (total : PostedMoney) (sum : ℚ) (weight : Decimal) (share : PostedMoney) :
    Prop where
  currency : share.currency = total.currency
  isHalfEven : IsHalfEven (total.value * weight.toRat / sum * 10 ^ total.currency.scale) share.units

theorem IsShare.abs_le {share : PostedMoney} {sum : ℚ} {weight : Decimal}
    (h : IsShare total sum weight share) :
    |share.value - total.value * weight.toRat / sum| ≤ 1 / 2 / 10 ^ total.currency.scale := by
  rw [share.value_eq_units, h.currency]
  exact h.isHalfEven.abs_div_sub_le (by positivity)

theorem isShare_of_placeShare {weight : Decimal} {state state' : List PostedMoney × ExactAmount}
    (h : placeShare total sum state weight = .ok state') :
    sum.toRat ≠ 0 ∧ ∃ share, IsShare total sum.toRat weight share ∧ state'.1 = state.1 ++ [share] ∧
      state'.2.toRat = state.2.toRat + share.value := by
  simp only [placeShare, bind_eq_ok_iff, checkedMul_eq_ok_iff, checkedDiv_eq_ok_iff,
    roundHalfEven_eq_ok_iff, checkedAdd_eq_ok_iff] at h
  obtain ⟨product, ⟨-, -, -, hproduct⟩, quotient, ⟨hsum, -, -, -, hquotient⟩, share,
    ⟨-, hcurrency, hunits⟩, placed, ⟨-, -, -, hplaced⟩, h⟩ := h
  cases h
  refine ⟨hsum, share, ⟨hcurrency, ?_⟩, rfl, ?_⟩
  · have hround := quotient.isHalfEven_roundedUnits total.currency.scale
    rw [← hunits, hquotient, hproduct, toRat_fromDecimal_amount, toRat_fromDecimal] at hround
    exact hround
  · rw [hplaced, toRat_fromDecimal_amount]

theorem isShare_of_placeShares {shares : List PostedMoney} {placed : ExactAmount}
    (h : weights.foldlM (placeShare total sum) ([], fromDecimal .zero) = .ok (shares, placed)) :
    Forall₂ (IsShare total sum.toRat) weights shares ∧
      placed.toRat = (shares.map PostedMoney.value).sum ∧ (weights ≠ [] → sum.toRat ≠ 0) := by
  refine foldlM_induction
    (P := fun ws state => Forall₂ (IsShare total sum.toRat) ws state.1 ∧
      state.2.toRat = (state.1.map PostedMoney.value).sum ∧ (ws ≠ [] → sum.toRat ≠ 0))
    (by simp) (fun ws state w state' hs hstep => ?_) h
  obtain ⟨hsum, share, hshare, hshares, hplaced⟩ := isShare_of_placeShare hstep
  refine ⟨?_, ?_, fun _ => hsum⟩
  · rw [hshares]
    exact rel_append hs.1 (.cons hshare .nil)
  · rw [hplaced, hshares, hs.2.1]
    simp

/-- **Allocation.**  There is one share per weight, in the currency of the total; the shares sum to
the total; every share outside the residual slot is its proportion rounded half to even, and the
residual slot is at most half a posting increment per other share away from its proportion. -/
theorem allocate_spec {total : PostedMoney} {weights : List Decimal} {disposition : Residual}
    {shares : List PostedMoney} (h : allocate total weights disposition = .ok shares) :
    shares.length = weights.length ∧ (∀ share ∈ shares, share.currency = total.currency) ∧
      (shares.map PostedMoney.value).sum = total.value ∧
      ∃ slot, IsResidualSlot weights slot disposition ∧
        (∀ (i : ℕ) w share, weights[i]? = some w → shares[i]? = some share → i ≠ slot →
          IsHalfEven (proportion total weights w * 10 ^ total.currency.scale) share.units) ∧
        ∀ w share, weights[slot]? = some w → shares[slot]? = some share →
          |share.value - proportion total weights w| ≤
            (weights.length - 1 : ℕ) * (1 / 2 / 10 ^ total.currency.scale) := by
  simp only [allocate, ok_iffs, checkedSub_eq_ok_iff, checkedAdd_eq_ok_iff,
    intoPostedExact_eq_ok_iff] at h
  obtain ⟨-, -, sum, hsum, ⟨rounded, placed⟩, hplaced, residual, ⟨-, -, -, hresidual⟩, slot, hslot,
    old, hold, exact, ⟨-, -, -, hexact⟩, adjusted, ⟨hcurrency, hvalue⟩, h⟩ := h
  cases h
  obtain ⟨hrounded, hplaced, hsum₀⟩ := isShare_of_placeShares hplaced
  have hW := toRat_of_addWeights hsum
  rw [hW] at hrounded hsum₀
  rw [toRat_fromDecimal_amount, hplaced] at hresidual
  rw [hexact, toRat_fromDecimal_amount, hresidual] at hvalue
  have hlength := hrounded.length_eq
  obtain ⟨hlt, hget⟩ := List.getElem?_eq_some_iff.1 hold
  refine ⟨?_, ?_, ?_, slot, isResidualSlot_residualIndex hslot, ?_, ?_⟩
  · rw [length_set, hlength]
  · intro share hshare
    rcases mem_or_eq_of_mem_set hshare with hshare | rfl
    · obtain ⟨w, -, hw⟩ := hrounded.exists_of_mem_right hshare
      exact hw.currency
    · exact hcurrency
  · rw [sum_map_set _ _ hold, hvalue]
    ring
  · intro i w share hw hshare hne
    rw [getElem?_set_ne hne.symm] at hshare
    exact (hrounded.rel_of_getElem? hw hshare).isHalfEven
  · intro w share hw hshare
    have hne : weights ≠ [] := by
      rintro rfl
      cases hw
    rw [getElem?_set_self hlt] at hshare
    cases hshare
    have htotal : (weights.map (proportion total weights)).sum = total.value := by
      unfold proportion
      simp only [div_eq_mul_inv]
      rw [sum_map_mul_right, sum_map_mul_left, mul_assoc, mul_inv_cancel₀ (hsum₀ hne), mul_one]
    have herrors : Forall₂ (fun w s => |PostedMoney.value s - proportion total weights w| ≤
        1 / 2 / 10 ^ total.currency.scale) weights rounded := hrounded.imp fun _ _ hs => hs.abs_le
    have habsorb := abs_absorb_sub_le herrors hw hold
    rw [htotal] at habsorb
    rw [hvalue]
    exact habsorb

theorem allocate_spec_thirds :
    ∃ shares, allocate (.ofUnits ⟨"USD", 2, by decide, by decide⟩ 10000 (by decide))
        (replicate 3 ⟨1, 0, by decide, by decide⟩) .largest = .ok shares ∧
      shares.map PostedMoney.units = [3334, 3333, 3333] ∧
      (shares.map PostedMoney.value).sum = 100 := by
  refine exists_ok_of
    (by decide +kernel) fun shares hshares hunits => ⟨hunits, ?_⟩
  obtain ⟨-, -, hsum, -⟩ := allocate_spec hshares
  rw [hsum, PostedMoney.value_ofUnits]
  norm_num

/-! ### What an allocation can refuse -/

theorem ExactAmount.Digits.sum_map {l : List Decimal} (h : l.length < 2 ^ 31) :
    Digits 67 (l.map Decimal.toRat).sum := by
  have hsum : ∃ n : ℤ, (l.map Decimal.toRat).sum = n / 10 ^ 28 ∧ n.natAbs ≤ l.length * 10 ^ 57 := by
    clear h
    -- all terms are over one denominator, so a term adds 57 digits' worth to the numerator
    induction l with
    | nil => exact ⟨0, by simp, by simp⟩
    | cons w l ih =>
      obtain ⟨n, hsum, hn⟩ := ih
      have hscale : (10 : ℚ) ^ 28 = 10 ^ (28 - w.scale) * 10 ^ w.scale := by
        rw [← pow_add, Nat.sub_add_cancel w.scale_le]
      have hw : (w.mantissa * 10 ^ (28 - w.scale)).natAbs ≤ 10 ^ 57 := by
        rw [Int.natAbs_mul, show 10 ^ 57 = 10 ^ 29 * 10 ^ 28 by decide]
        exact Nat.mul_le_mul (w.mantissa_lt.le.trans (by decide))
          (Nat.pow_le_pow_right (by decide) (Nat.sub_le ..))
      refine ⟨w.mantissa * 10 ^ (28 - w.scale) + n, ?_, ?_⟩
      · rw [map_cons, sum_cons, hsum, Decimal.toRat, hscale]
        push_cast
        field_simp
      · rw [length_cons]
        omega
  obtain ⟨n, hsum, hn⟩ := hsum
  exact ⟨n, 10 ^ 28, by decide, by rw [hsum]; push_cast; rfl, by omega, by decide⟩

theorem exists_checkedAdd {a b : ExactAmount} {j k : ℕ} (ha : Digits j a.toRat)
    (hb : Digits k b.toRat) (h : j + k + 1 < 256) :
    ∃ c, checkedAdd a b = .ok c ∧ c.toRat = a.toRat + b.toRat :=
  (ha.add hb).exists_ok h fun _ hc hv => checkedAdd_eq_ok_iff.2
    ⟨(ha.inBudget (by omega)).1, (hb.inBudget (by omega)).1, hc, hv⟩

theorem posted_eq_error {c : CurrencySpec} {k : ℤ} {e : ExactError} (h : posted k c = .error e) :
    e = .money .amountOutOfRange ∧ ¬ PostedMoney.Fits c k := by
  rw [posted_eq] at h
  split at h
  · cases h
  · next hfits =>
    cases h
    exact ⟨rfl, hfits⟩

theorem addWeight_ne_error {s : ExactAmount} {w : Decimal} {e : ExactError}
    (hs : Digits 67 s.toRat) (hw : 0 ≤ w.toRat ∧ w.normalize.mantissa.natAbs < 10 ^ 28) :
    addWeight s w ≠ .error e := by
  obtain ⟨c, hc, -⟩ := exists_checkedAdd hs (.decimal w) (by decide)
  have hneg : ¬ w < .zero := by simpa [Decimal.lt_iff] using hw.1
  rw [addWeight, rejectIf_of_not hneg, validateAmount, rejectIf_of_not (not_le.2 hw.2), hc]
  intro h
  cases h

theorem placeShare_eq_error {state : List PostedMoney × ExactAmount} {w : Decimal} {e : ExactError}
    (hsum : Digits 67 sum.toRat) (hne : sum.toRat ≠ 0) (hstate : Digits 67 state.2.toRat)
    (h : placeShare total sum state w = .error e) : e = .money .amountOutOfRange ∧
      ∃ k, IsHalfEven (total.value * w.toRat / sum.toRat * 10 ^ total.currency.scale) k ∧
        ¬ PostedMoney.Fits total.currency k := by
  obtain ⟨product, quotient, hproduct, hquotient, hv, hq⟩ :=
    (Digits.decimal total.amount).exists_ratio (.decimal w) hsum hne (by decide)
  rw [placeShare, hproduct, ok_bind, hquotient, ok_bind, hq.roundHalfEven_eq (by decide)] at h
  rcases bind_eq_error_iff.1 h with h | ⟨share, -, h⟩
  · obtain ⟨rfl, hfits⟩ := posted_eq_error h
    have hround := quotient.isHalfEven_roundedUnits total.currency.scale
    rw [hv, toRat_fromDecimal_amount, toRat_fromDecimal] at hround
    exact ⟨rfl, _, hround, hfits⟩
  · obtain ⟨placed, hplaced, -⟩ := exists_checkedAdd hstate (.decimal share.amount) (by decide)
    rw [hplaced] at h
    cases h

section

variable {ws : List Decimal} {shares : List PostedMoney} {q : ℚ}
  (h : Forall₂ (IsShare total q) ws shares)
include h

theorem ExactAmount.Digits.sum_shares (hws : ws.length < 2 ^ 31) :
    Digits 67 (shares.map PostedMoney.value).sum := by
  simpa using! sum_map (l := shares.map PostedMoney.amount) (by simpa [← h.length_eq] using hws)

theorem value_eq_units_of_shares :
    (∀ r ∈ shares, r.value = r.units / 10 ^ total.currency.scale) ∧
      (shares.map PostedMoney.value).sum =
        ((shares.map PostedMoney.units).sum : ℤ) / 10 ^ total.currency.scale := by
  have hvalue : ∀ r ∈ shares, r.value = r.units / 10 ^ total.currency.scale := by
    intro r hr
    obtain ⟨w, -, hw⟩ := h.exists_of_mem_right hr
    rw [r.value_eq_units, hw.currency]
  refine ⟨hvalue, ?_⟩
  rw [map_congr_left hvalue]
  simp only [div_eq_mul_inv]
  rw [sum_map_mul_right, Int.cast_list_sum, map_map]
  rfl

end

theorem exists_residualIndex (disposition : Residual) (h : weights ≠ []) :
    ∃ slot < weights.length, residualIndex disposition weights = some slot := by
  obtain ⟨slot, hslot⟩ : ∃ slot, residualIndex disposition weights = some slot := by
    cases weights with
    | nil => exact absurd rfl h
    | cons w ws => cases disposition <;> exact ⟨_, rfl⟩
  refine ⟨slot, ?_, hslot⟩
  have := isResidualSlot_residualIndex hslot
  cases disposition with
  | last => exact Nat.lt_of_succ_le this.le
  | largest =>
    obtain ⟨w, hw, -⟩ := this
    exact (List.getElem?_eq_some_iff.1 hw).1

/-- The coefficient of a share: a rounded proportion, or what the residual makes of one. -/
def IsShareUnits (total : PostedMoney) (weights : List Decimal) (disposition : Residual) (k : ℤ) :
    Prop :=
  (∃ w ∈ weights, IsHalfEven (proportion total weights w * 10 ^ total.currency.scale) k) ∨
  ∃ rounded : List PostedMoney,
    Forall₂ (IsShare total (weights.map Decimal.toRat).sum) weights rounded ∧
    ∃ slot old, IsResidualSlot weights slot disposition ∧ rounded[slot]? = some old ∧
      k = old.units + (total.units - (rounded.map PostedMoney.units).sum)

/-- **Allocation only fails for the size of a share.** -/
theorem allocate_only_out_of_range {total : PostedMoney} {weights : List Decimal}
    {disposition : Residual} {e : ExactError} (hcount : weights.length < 2 ^ 31)
    (hweights : ∀ w ∈ weights, 0 ≤ w.toRat ∧ w.normalize.mantissa.natAbs < 10 ^ 28)
    (hpos : ∃ w ∈ weights, w.toRat ≠ 0) (h : allocate total weights disposition = .error e) :
    e = .money .amountOutOfRange ∧
      ∃ k, IsShareUnits total weights disposition k ∧ ¬ PostedMoney.Fits total.currency k := by
  obtain ⟨w₀, hw₀, hpos⟩ := hpos
  have hne : weights ≠ [] := ne_nil_of_mem hw₀
  have hpre : ∀ {pre w rest}, weights = pre ++ w :: rest → pre.length < 2 ^ 31 ∧ w ∈ weights := by
    rintro pre w rest rfl
    simp at hcount
    exact ⟨by omega, by simp⟩
  rw [allocate, validateCount, rejectIf_of_not (by simpa using hne), ok_bind,
    rejectIf_of_not (not_le.2 hcount), ok_bind] at h
  -- a failing loop has completed the weights before the one it fails at
  rcases bind_eq_error_iff.1 h with h | ⟨sum, hsum, h⟩
  · obtain ⟨pre, w, rest, s, hl, hs, h⟩ := foldlM_eq_error h
    exact absurd h (addWeight_ne_error (toRat_of_addWeights hs ▸ Digits.sum_map (hpre hl).1)
      (hweights w (hpre hl).2))
  have hW := toRat_of_addWeights hsum
  have hsum₀ : sum.toRat ≠ 0 := by
    have hle := single_le_sum (forall_mem_map.2 fun w hw => (hweights w hw).1) _
      (mem_map_of_mem hw₀)
    rw [hW]
    exact (((hweights w₀ hw₀).1.lt_of_ne' hpos).trans_le hle).ne'
  rcases bind_eq_error_iff.1 h with h | ⟨⟨rounded, placed⟩, hplaced, h⟩
  · obtain ⟨pre, w, rest, ⟨shares, placed⟩, hl, hs, h⟩ := foldlM_eq_error h
    obtain ⟨hs, hplaced, -⟩ := isShare_of_placeShares hs
    obtain ⟨rfl, k, hk, hfits⟩ := placeShare_eq_error (hW ▸ Digits.sum_map hcount) hsum₀
      (hplaced ▸ .sum_shares hs (hpre hl).1) h
    exact ⟨rfl, k, .inl ⟨w, (hpre hl).2, by rwa [hW] at hk⟩, hfits⟩
  obtain ⟨hrounded, hplaced, -⟩ := isShare_of_placeShares hplaced
  have hpd : Digits 67 placed.toRat := hplaced ▸ .sum_shares hrounded hcount
  have hrd := (Digits.decimal total.amount).sub hpd
  obtain ⟨residual, hresidual, hrv⟩ := hrd.exists_ok (by decide) fun c hc hv =>
    checkedSub_eq_ok_iff.2 ⟨inBudget_fromDecimal _, (hpd.inBudget (by decide)).1, hc, hv⟩
  obtain ⟨slot, hlt, hslot⟩ := exists_residualIndex disposition hne
  rw [hrounded.length_eq] at hlt
  have hold : rounded[slot]? = some rounded[slot] := getElem?_eq_getElem hlt
  obtain ⟨exact, hexact, hxv⟩ := exists_checkedAdd (.decimal rounded[slot].amount) (hrv ▸ hrd)
    (by decide)
  simp only [hresidual, okOr_eq_ok_iff.2 hslot, okOr_eq_ok_iff.2 hold, hexact, ok_bind] at h
  -- only the narrowing of the adjusted slot is left to fail
  rcases bind_eq_error_iff.1 h with h | ⟨_, -, h⟩
  swap
  · cases h
  obtain ⟨hvalue, hunits⟩ := value_eq_units_of_shares hrounded
  rw [hrv, hplaced, hunits, toRat_fromDecimal_amount, toRat_fromDecimal_amount,
    hvalue _ (getElem_mem hlt), total.value_eq_units] at hxv
  rw [intoPostedExact_of_units (checkedAdd_eq_ok_iff.1 hexact).2.2.1
    (k := rounded[slot].units + (total.units - (rounded.map PostedMoney.units).sum))
    (hxv.trans (by push_cast; ring))] at h
  obtain ⟨rfl, hfits⟩ := posted_eq_error h
  exact ⟨rfl, _, .inr ⟨rounded, by rwa [hW] at hrounded, slot, _,
    isResidualSlot_residualIndex hslot, hold, rfl⟩, hfits⟩

theorem allocate_only_out_of_range_half :
    ∃ k, IsShareUnits (.ofUnits ⟨"USD", 2, by decide, by decide⟩ (10 ^ 30 - 100) (by decide))
      (replicate 2 ⟨1, 0, by decide, by decide⟩) .last k ∧
      ¬ PostedMoney.Fits ⟨"USD", 2, by decide, by decide⟩ k := by
  have h : allocate (.ofUnits ⟨"USD", 2, by decide, by decide⟩ (10 ^ 30 - 100) (by decide))
      (replicate 2 ⟨1, 0, by decide, by decide⟩) .last =
        .error (.money .amountOutOfRange) := by
    decide +kernel
  refine (allocate_only_out_of_range (by decide) (fun w hw => ?_) ⟨_, mem_cons_self, ?_⟩ h).2
  · rw [eq_of_mem_replicate (n := 2) hw]
    simp [Decimal.toRat]
    decide
  · simp [Decimal.toRat]

end Gears.Money
