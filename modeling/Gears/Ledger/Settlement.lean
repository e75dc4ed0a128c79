import Gears.Ledger.Counters
import Gears.Lib.Machine

/-!
# Settlements and their returns

A settled payment parks its gross in the unallocated pool: the net cash and the processor fee
against the gross.  A return claws a part of it back symmetrically, with the share of the fee
sized against what is left.

* `buildSettlementEntry`, `buildSettlementReturnEntry` : the entries of the two flows.
* `proRataFeeShare` : the share of the fee a return reverses.
* `Settlement.returnSized` : one return, its share sized from a reading of what was left.
* `Settlement.returns` : returns one after another.
* `NetPositive` : the returns whose net cash does not round to zero.
* `settlement_returns_drain_iff` : returns post and drain exactly when every one of them is such.
* `addSettlementDeltas_return` : the counters row of a payment holds what is left.
* `settlement_accounts_follow` : the accounts carry what is left, also when returns race.
-/

namespace Gears.Ledger

open Money Except List PostedMoney ExactAmount

/-! ### Entry builders -/

/-- A settled payment. -/
structure SettlementInput where
  tenantId : Uuid
  payerTenantId : Uuid
  paymentId : String
  gross : PostedMoney
  fee : PostedMoney
  effectiveAt : Option Instant
  deriving DecidableEq, Repr

variable (fresh : ℕ → Uuid)

/-- The entry of a settlement: the net cash and the fee against the gross.  The fee line is left
out when there is no fee. -/
def buildSettlementEntry (input : SettlementInput) : Except DomainError PostEntry := do
  matchingSpec input.gross input.fee
  rejectIf (input.gross.amount ≤ Decimal.zero)
    (.invalidRequest ("settlement gross must be > 0, got " ++ moneyText input.gross))
  rejectIf (input.fee.amount < Decimal.zero)
    (.invalidRequest ("settlement fee must be >= 0, got " ++ moneyText input.fee))
  rejectIf (input.gross.amount ≤ input.fee.amount)
    (.invalidRequest ("settlement fee (" ++ moneyText input.fee ++ ") must be < gross (" ++
      moneyText input.gross ++ ") — net cash must be > 0"))
  let net ← subtractPosted input.gross input.fee
  let line := paymentLine input.tenantId input.payerTenantId
  return paymentEntry (fresh 0) input.tenantId input.gross.currency .paymentSettle
    input.paymentId input.effectiveAt
    ([line (fresh 1) .cashClearing .debit net] ++
      (if Decimal.zero < input.fee.amount then [line (fresh 2) .pspFeeExpense .debit input.fee]
        else []) ++
      [line (fresh 3) .unallocated .credit input.gross])

/-- A settlement to claw back. -/
structure SettlementReturnInput where
  tenantId : Uuid
  payerTenantId : Uuid
  paymentId : String
  pspReturnId : String
  amount : PostedMoney
  effectiveAt : Option Instant
  deriving DecidableEq, Repr

/-- The lines of a return: the gross leaves the pool against the net cash and the share of the fee.
The fee line is left out when the share is zero; the cash line is always there. -/
def settlementReturnLines (input : SettlementReturnInput)
    (feeShare net : PostedMoney) : List NewLine :=
  let line := paymentLine input.tenantId input.payerTenantId
  [line (fresh 1) .unallocated .debit input.amount, line (fresh 2) .cashClearing .credit net] ++
    if Decimal.zero < feeShare.amount then [line (fresh 3) .pspFeeExpense .credit feeShare]
    else []

/-- The entry of a return of the amount, given its share of the fee. -/
def buildSettlementReturnEntry (input : SettlementReturnInput)
    (feeShare : PostedMoney) : Except DomainError PostEntry := do
  matchingSpec input.amount feeShare
  rejectIf (input.amount.amount ≤ Decimal.zero)
    (.invalidRequest ("settlement return amount must be > 0, got " ++ moneyText input.amount))
  rejectIf (feeShare.amount < Decimal.zero ∨ input.amount.amount < feeShare.amount)
    (.invalidRequest ("settlement return fee_share must be in 0..=" ++ moneyText input.amount ++
      ", got " ++ moneyText feeShare))
  let net ← subtractPosted input.amount feeShare
  return paymentEntry (fresh 0) input.tenantId input.amount.currency .settlementReturn
    input.pspReturnId input.effectiveAt (settlementReturnLines fresh input feeShare net)

/-- The share of the fee a return reverses, rounded once at the scale of the settlement. -/
def proRataFeeShare (fee amount settled : PostedMoney) : Except DomainError PostedMoney :=
  (proRata fee amount settled settled.currency).mapError mapExactError

/-! ### Returns one after another -/

/-- What is left of a settled payment and of its fee. -/
structure Settlement where
  settled : PostedMoney
  fee : PostedMoney
  deriving DecidableEq, Repr

/-- Size a return from what was `read` before, build and check its entry, and reduce what is
left. -/
def Settlement.returnSized (s read : Settlement) (fresh : ℕ → Uuid)
    (input : SettlementReturnInput) :
    Except DomainError ((PostedMoney × PostEntry) × Settlement) := do
  let feeShare ← proRataFeeShare read.fee input.amount read.settled
  let entry ← buildSettlementReturnEntry fresh input feeShare
  (validateBalancedEntry entry.entryCurrency (entry.lines.map NewLine.facts)).mapError .ofViolation
  let settled ← subtractPosted s.settled input.amount
  let fee ← subtractPosted s.fee feeShare
  return ((feeShare, entry), ⟨settled, fee⟩)

/-- A return sized from what is left. -/
def Settlement.returnOne (s : Settlement) (fresh : ℕ → Uuid) (input : SettlementReturnInput) :
    Except DomainError ((PostedMoney × PostEntry) × Settlement) :=
  s.returnSized s fresh input

/-- What a return changes in the counters of its payment; a share of zero is left out. -/
def settlementReturnDeltas (amount feeShare : PostedMoney) :
    Except DomainError (List (SettlementCounter × PostedMoney)) := do
  let negated (m : PostedMoney) :=
    (PostedMoney.tryNew m.amount.neg m.currency).mapError mapMoneyError
  let fee ← if feeShare.amount.isZero then .ok []
    else (negated feeShare).map fun fee => [(.fee, fee)]
  let settled ← negated amount
  return fee ++ [(.settled, settled)]

/-- A posted return: its input, its share of the fee, its entry and what is left after it. -/
structure ReturnStep where
  input : SettlementReturnInput
  feeShare : PostedMoney
  entry : PostEntry
  after : Settlement
  deriving DecidableEq, Repr

/-- Post returns one after another. -/
def Settlement.returns (fresh : ℕ → Uuid) (s : Settlement) :
    List SettlementReturnInput → Except DomainError (Settlement × List ReturnStep)
  | [] => .ok (s, [])
  | input :: inputs => do
    let ((feeShare, entry), s') ← s.returnOne fresh input
    let (last, steps) ← Settlement.returns fresh s' inputs
    return (last, ⟨input, feeShare, entry, s'⟩ :: steps)

/-- **The returns whose net cash does not round to zero.**  In posting increments, with `settled`
and `fee` what is left: the net share `amount * (settled - fee) / settled` is more than half an
increment, or exactly half of one and the amount is odd. -/
def NetPositive (s : Settlement) (amount : PostedMoney) : Prop :=
  s.settled.units < 2 * (amount.units * (s.settled.units - s.fee.units)) ∨
    s.settled.units = 2 * (amount.units * (s.settled.units - s.fee.units)) ∧ Odd amount.units

instance (s : Settlement) (amount : PostedMoney) : Decidable (NetPositive s amount) :=
  inferInstanceAs (Decidable (_ ∨ _))

/-- Every return of the run meets the condition in the state it is posted in. -/
def AllNetPositive (fresh : ℕ → Uuid) (s : Settlement) : List SettlementReturnInput → Prop
  | [] => True
  | input :: inputs => NetPositive s input.amount ∧
      ∀ out s', s.returnOne fresh input = .ok (out, s') → AllNetPositive fresh s' inputs

instance decidableAllNetPositive (fresh : ℕ → Uuid) : (inputs : List SettlementReturnInput) →
    (s : Settlement) → Decidable (AllNetPositive fresh s inputs)
  | [], _ => .isTrue trivial
  | input :: inputs, s =>
    have : Decidable (∀ out s', s.returnOne fresh input = .ok (out, s') →
        AllNetPositive fresh s' inputs) :=
      match s.returnOne fresh input with
      | .ok (_, s') =>
        have := decidableAllNetPositive fresh inputs s'
        decidable_of_iff (AllNetPositive fresh s' inputs) (by simp)
      | .error _ => .isTrue (by simp)
    inferInstanceAs (Decidable (_ ∧ _))

/-! ### One return -/

/-- What is left of a settlement is consistent: one currency, and a fee between zero and the settled
amount.  The amount is below the coefficient limit in posting increments, so that no difference or
share can have too many digits. -/
structure Settlement.Valid (s : Settlement) : Prop where
  currency : s.fee.currency = s.settled.currency
  fee_nonneg : 0 ≤ s.fee.units
  fee_le : s.fee.units ≤ s.settled.units
  small : s.settled.units < 10 ^ 28

/-- The rounded share of a part of the settlement is less than that part exactly when the net does
not round to zero. -/
theorem halfEven_share_lt_iff {f a s : ℕ} (hs : 0 < s) (ha : 0 < a) :
    halfEven (f * a) s < a ↔ (s : ℤ) < 2 * (a * (s - f)) ∨ (s : ℤ) = 2 * (a * (s - f)) ∧ Odd a := by
  obtain ⟨k, rfl⟩ : ∃ k, a = k + 1 := ⟨a - 1, by omega⟩
  have hparity : Even k ↔ Odd (k + 1) := by
    rw [Nat.odd_add_one, Nat.not_odd_iff_even]
  rw [Nat.lt_succ_iff, halfEven_le_iff hs, hparity]
  -- both sides compare `2 * f * (k + 1)` with `(2 * k + 1) * s`
  have key : ((2 : ℤ) * (k + 1 : ℕ) - 1) * s - 2 * (f * (k + 1 : ℕ)) =
      2 * ((k + 1 : ℕ) * ((s : ℤ) - f)) - s := by
    ring
  constructor
  · rintro (h | ⟨h, hodd⟩)
    · exact .inl (by push_cast at key ⊢; linarith)
    · exact .inr ⟨by push_cast at key ⊢; linarith, hodd⟩
  · rintro (h | ⟨h, hodd⟩)
    · exact .inl (by push_cast at key h ⊢; linarith)
    · exact .inr ⟨by push_cast at key h ⊢; linarith, hodd⟩

/-- What is left after a return of `a` out of `s` with the fee share subtracted from `f`. -/
theorem halfEven_share_bounds {f a s : ℕ} (hs : 0 < s) (hfs : f ≤ s) (has : a ≤ s) :
    halfEven (f * a) s ≤ a ∧ halfEven (f * a) s ≤ f ∧ f + a ≤ s + halfEven (f * a) s := by
  refine ⟨?_, ?_, ?_⟩
  · exact halfEven_le hs (by rw [mul_comm]; exact Nat.mul_le_mul_left a hfs)
  · exact halfEven_le hs (Nat.mul_le_mul_left f has)
  · -- the exact share is at least `f + a - s`, and that is a whole number of increments
    by_cases hle : f + a ≤ s
    · omega
    · obtain ⟨k, hk⟩ : ∃ k, f + a = s + k := ⟨f + a - s, by omega⟩
      have hshare : k ≤ halfEven (f * a) s := by
        refine le_halfEven hs ?_
        nlinarith
      omega

variable {s : Settlement} {input : SettlementReturnInput} {inputs : List SettlementReturnInput}

section ReturnOne

/-- The share of a return, in posting increments. -/
def shareUnits (s : Settlement) (amount : PostedMoney) : ℕ :=
  halfEven (s.fee.units.toNat * amount.units.toNat) s.settled.units.toNat

/-- The amount can be returned: it is in the currency of the settlement, positive and within what
is left. -/
structure Settlement.Returnable (s : Settlement) (amount : PostedMoney) : Prop where
  currency : amount.currency = s.settled.currency
  pos : 0 < amount.units
  le : amount.units ≤ s.settled.units

variable (hs : s.Valid) (hr : s.Returnable input.amount)

include hs hr

/-- The fee, the amount and what is settled as numbers of posting increments. -/
theorem exists_units : ∃ f a n : ℕ, s.fee.units = f ∧ input.amount.units = a ∧
    s.settled.units = n ∧ shareUnits s input.amount = halfEven (f * a) n ∧ f ≤ n ∧ 0 < a ∧
      a ≤ n := by
  have hf := hs.fee_nonneg
  have hn := hs.fee_le
  have ha := hr.pos
  have han := hr.le
  refine ⟨_, _, _, (Int.toNat_of_nonneg hf).symm, (Int.toNat_of_nonneg ha.le).symm,
    (Int.toNat_of_nonneg (hf.trans hn)).symm, rfl, ?_, ?_, ?_⟩ <;> omega

theorem shareUnits_bounds : (shareUnits s input.amount : ℤ) ≤ input.amount.units ∧
    (shareUnits s input.amount : ℤ) ≤ s.fee.units ∧
    s.fee.units - shareUnits s input.amount ≤ s.settled.units - input.amount.units := by
  obtain ⟨f, a, n, hf, ha, hn, hshare, hfn, hpos, han⟩ := exists_units hs hr
  have hb := halfEven_share_bounds (hpos.trans_le han) hfn han
  omega

theorem shareUnits_lt_iff :
    (shareUnits s input.amount : ℤ) < input.amount.units ↔ NetPositive s input.amount := by
  obtain ⟨f, a, n, hf, ha, hn, hshare, -, hpos, han⟩ := exists_units hs hr
  rw [hshare, NetPositive, hf, ha, hn, Nat.cast_lt, Int.odd_coe_nat]
  exact halfEven_share_lt_iff (hpos.trans_le han) hpos

theorem proRataFeeShare_eq : ∃ feeShare, proRataFeeShare s.fee input.amount s.settled =
    .ok feeShare ∧ feeShare.currency = s.settled.currency ∧
      feeShare.units = shareUnits s input.amount := by
  have hsmall := hs.small
  obtain ⟨f, a, n, hf, ha, hn, hunits, -, hpos, han⟩ := exists_units hs hr
  obtain ⟨hle, -⟩ := shareUnits_bounds hs hr
  have hfits : Fits s.settled.currency (shareUnits s input.amount) :=
    fits_of_natAbs_lt (by omega)
  have hshare := proRata_eq hf ha hn (hpos.trans_le han) hr.currency
  rw [hs.currency, ← hunits] at hshare
  refine ⟨.ofUnits _ _ hfits, ?_, rfl, units_ofUnits hfits⟩
  rw [proRataFeeShare, hshare, mapError_eq_ok_iff]
  exact posted_of_fits hfits

variable {feeShare : PostedMoney}

/-- The entry of a return is built whatever the share: with the share as its third line, if there
is one. -/
theorem buildSettlementReturnEntry_eq (hc : feeShare.currency = s.settled.currency)
    (hu : feeShare.units = shareUnits s input.amount) :
    ∃ entry net, buildSettlementReturnEntry fresh input feeShare = .ok entry ∧
      entry.entryCurrency = s.settled.currency.code ∧ net.currency = s.settled.currency ∧
      net.units = input.amount.units - shareUnits s input.amount ∧ entry.lines.map NewLine.facts =
        [⟨.debit, input.amount, input.payerTenantId, none⟩,
          ⟨.credit, net, input.payerTenantId, none⟩] ++
        if 0 < feeShare.units then [⟨.credit, feeShare, input.payerTenantId, none⟩] else [] := by
  have h₁ := hs.small
  have h₃ := hr.pos
  have h₄ := hr.le
  obtain ⟨hle, -⟩ := shareUnits_bounds hs hr
  have hcur : input.amount.currency = feeShare.currency := hr.currency.trans hc.symm
  have hfits : Fits input.amount.currency (input.amount.units - feeShare.units) :=
    fits_of_natAbs_lt (by omega)
  -- the share is within the amount, so every check passes
  have hnet : subtractPosted input.amount feeShare = .ok (.ofUnits _ _ hfits) := by
    rw [subtractPosted_eq hcur, posted_of_fits hfits]
    rfl
  have hpos : ¬ input.amount.amount ≤ Decimal.zero := by
    rw [Decimal.le_iff, Decimal.toRat_zero, not_le]
    exact value_pos_iff.2 h₃
  have hshare : ¬ (feeShare.amount < Decimal.zero ∨ input.amount.amount < feeShare.amount) := by
    rw [Decimal.lt_iff, Decimal.lt_iff, Decimal.toRat_zero, not_or, not_lt, not_lt]
    exact ⟨value_nonneg_iff.2 (by omega), (units_le hcur.symm).1 (by omega)⟩
  have hfee : Decimal.zero < feeShare.amount ↔ 0 < feeShare.units := by
    rw [Decimal.lt_iff, Decimal.toRat_zero]
    exact value_pos_iff
  have hbuild : buildSettlementReturnEntry fresh input feeShare =
      .ok (paymentEntry (fresh 0) input.tenantId input.amount.currency .settlementReturn
        input.pspReturnId input.effectiveAt
        (settlementReturnLines fresh input feeShare (.ofUnits _ _ hfits))) := by
    rw [buildSettlementReturnEntry, (matchingSpec_eq_ok_iff (u := ())).2 hcur,
      rejectIf_of_not hpos, rejectIf_of_not hshare]
    simp only [hnet]
    rfl
  refine ⟨_, .ofUnits _ _ hfits, hbuild, congrArg CurrencySpec.code hr.currency, hr.currency, ?_,
    ?_⟩
  · rw [units_ofUnits, hu]
  · simp only [settlementReturnLines, hfee]
    split <;> rfl

theorem validate_return_iff {net : PostedMoney} (hc : feeShare.currency = s.settled.currency)
    (hu : feeShare.units = shareUnits s input.amount) (hnc : net.currency = s.settled.currency)
    (hnu : net.units = input.amount.units - shareUnits s input.amount) :
    validateBalancedEntry s.settled.currency.code
        ([⟨.debit, input.amount, input.payerTenantId, none⟩,
          ⟨.credit, net, input.payerTenantId, none⟩] ++
        if 0 < feeShare.units then [⟨.credit, feeShare, input.payerTenantId, none⟩] else []) =
      .ok () ↔ NetPositive s input.amount := by
  rw [← shareUnits_lt_iff hs hr]
  rw [cons_append, validateBalancedEntry_plain_iff]
  -- the lines always cancel; only the net may fail to be positive
  · by_cases hfee : 0 < feeShare.units <;>
      simp only [hfee, if_true, if_false, cons_append, nil_append, forall_mem_cons,
        not_mem_nil, false_imp_iff, implies_true, and_true, value_pos_iff,
        map_cons, map_nil, sum_cons, sum_nil, LineFacts.signedUnits,
        true_and] <;>
      omega
  · split <;> simp [hr.currency, hnc, hc]
  · split <;> simp
  · split <;> norm_num

/-- **One return.**  It is posted exactly when its net cash does not round to zero. -/
theorem returnOne_iff :
    (∃ out, s.returnOne fresh input = .ok out) ↔ NetPositive s input.amount := by
  have h₁ := hs.small
  have h₄ := hr.le
  obtain ⟨feeShare, hshare, hc, hu⟩ := proRataFeeShare_eq hs hr
  obtain ⟨entry, net, hbuild, hcode, hnc, hnu, hfacts⟩ :=
    buildSettlementReturnEntry_eq fresh hs hr hc hu
  have hvalid := validate_return_iff hs hr hc hu hnc hnu
  obtain ⟨hle, hlef, -⟩ := shareUnits_bounds hs hr
  rw [← hcode, ← hfacts] at hvalid
  constructor
  · rintro ⟨out, hout⟩
    simp only [Settlement.returnOne, Settlement.returnSized, hshare, hbuild, ok_bind,
      ok_iffs] at hout
    obtain ⟨_, hv, -⟩ := hout
    exact hvalid.1 hv
  · intro hpos
    have hfits₁ : Fits s.settled.currency (s.settled.units - input.amount.units) :=
      fits_of_natAbs_lt (by omega)
    have hfits₂ : Fits s.fee.currency (s.fee.units - feeShare.units) := by
      have h₆ := hs.fee_le
      exact fits_of_natAbs_lt (by omega)
    refine ⟨((feeShare, entry), ⟨.ofUnits _ _ hfits₁, .ofUnits _ _ hfits₂⟩), ?_⟩
    rw [Settlement.returnOne, Settlement.returnSized, hshare, ok_bind, hbuild, ok_bind,
      hvalid.2 hpos, subtractPosted_eq hr.currency.symm, posted_of_fits hfits₁,
      subtractPosted_eq (hs.currency.trans hc.symm), posted_of_fits hfits₂]
    rfl

theorem returnOne_spec {entry : PostEntry} {s' : Settlement}
    (h : s.returnOne fresh input = .ok ((feeShare, entry), s')) :
    (feeShare.currency = s.settled.currency ∧ 0 ≤ feeShare.units ∧
        feeShare.units ≤ input.amount.units) ∧
      (validateBalancedEntry entry.entryCurrency (entry.lines.map NewLine.facts) = .ok () ∧
        ∀ l ∈ entry.lines, 0 < l.money.value) ∧
      s'.Valid ∧ s'.settled.currency = s.settled.currency ∧
      s'.settled.units = s.settled.units - input.amount.units := by
  have h₁ := hs.small
  obtain ⟨share, hshare, hc, hu⟩ := proRataFeeShare_eq hs hr
  obtain ⟨e, net, hbuild, hcode, hnc, hnu, hfacts⟩ :=
    buildSettlementReturnEntry_eq fresh hs hr hc hu
  obtain ⟨hle, hlef, hleft⟩ := shareUnits_bounds hs hr
  simp only [Settlement.returnOne, Settlement.returnSized, hshare, hbuild, ok_bind, ok_iffs,
    subtractPosted_eq_ok_iff] at h
  obtain ⟨_, hv, settled, ⟨-, hsc, hsu⟩, fee, ⟨-, hfc, hfu⟩, ⟨rfl, rfl⟩, rfl⟩ := h
  refine ⟨⟨hc, by omega, by omega⟩, ⟨hv, fun l hl => ?_⟩, ⟨by rw [hfc, hsc, hs.currency], ?_, ?_,
    ?_⟩, hsc, hsu⟩
  · -- the lines are of one currency, so the engine has checked their transaction amounts
    have hmem := mem_map_of_mem (f := NewLine.facts) hl
    have hnone : l.facts.functionalMoney = none := by
      rw [hfacts] at hmem
      split at hmem <;>
        simp only [cons_append, nil_append, mem_cons, not_mem_nil, or_false] at hmem
      · rcases hmem with h | h | h <;> rw [h]
      · rcases hmem with h | h <;> rw [h]
    exact (not_badAmount_iff hnone).1 (not_badAmount_of_valid hv hmem)
  all_goals
    simp only
    omega

end ReturnOne

/-! ### Any sequence of returns -/

/-- The returns are in the currency of the settlement, positive, and never more in total than what
is left. -/
def ReturnsWithin (s : Settlement) (inputs : List SettlementReturnInput) : Prop :=
  (∀ i ∈ inputs, i.amount.currency = s.settled.currency ∧ 0 < i.amount.value) ∧
    (inputs.map fun i => i.amount.value).sum ≤ s.settled.value

theorem ReturnsWithin.returnable (h : ReturnsWithin s (input :: inputs)) :
    s.Returnable input.amount := by
  obtain ⟨hc, hpos⟩ := h.1 input mem_cons_self
  refine ⟨hc, value_pos_iff.1 hpos, (units_le hc).2 (le_trans ?_ h.2)⟩
  rw [map_cons, sum_cons, le_add_iff_nonneg_right]
  refine sum_nonneg fun v hv => ?_
  obtain ⟨i, hi, rfl⟩ := mem_map.1 hv
  exact (h.1 i (mem_cons_of_mem _ hi)).2.le

theorem ReturnsWithin.tail {s' : Settlement} (h : ReturnsWithin s (input :: inputs))
    (hc : s'.settled.currency = s.settled.currency)
    (hu : s'.settled.units = s.settled.units - input.amount.units) : ReturnsWithin s' inputs := by
  refine ⟨fun i hi => ?_, ?_⟩
  · rw [hc]
    exact h.1 i (mem_cons_of_mem _ hi)
  · have hsum := h.2
    rw [map_cons, sum_cons] at hsum
    rw [value_sub h.returnable.currency hc hu]
    linarith

/-- **A run of returns posts and drains exactly**: every return is posted with a share between zero
and its amount and an accepted entry without a zero line, the fee stays between zero and what is
settled, and nothing of it is left when nothing is settled. -/
def DrainsExactly (s : Settlement) (inputs : List SettlementReturnInput) : Prop :=
  ∃ last steps, s.returns fresh inputs = .ok (last, steps) ∧
    steps.map ReturnStep.input = inputs ∧
    (∀ step ∈ steps, (0 ≤ step.feeShare.value ∧ step.feeShare.value ≤ step.input.amount.value) ∧
      validateBalancedEntry step.entry.entryCurrency (step.entry.lines.map NewLine.facts) = .ok () ∧
      (∀ l ∈ step.entry.lines, 0 < l.money.value) ∧
      0 ≤ step.after.fee.value ∧ step.after.fee.value ≤ step.after.settled.value) ∧
    last.settled.value = s.settled.value - (inputs.map fun i => i.amount.value).sum ∧
    (last.settled.value = 0 → last.fee.value = 0)

theorem allNetPositive_of_returns (hs : s.Valid) (hin : ReturnsWithin s inputs)
    {out : Settlement × List ReturnStep} (h : s.returns fresh inputs = .ok out) :
    AllNetPositive fresh s inputs := by
  induction inputs generalizing s out with
  | nil => trivial
  | cons input inputs ih =>
    have hr := hin.returnable
    simp only [Settlement.returns, bind_eq_ok_iff, Prod.exists] at h
    obtain ⟨feeShare, entry, s₁, h₁, last, steps, hrest, -⟩ := h
    refine ⟨(returnOne_iff fresh hs hr).1 ⟨_, h₁⟩, fun out' s' h' => ?_⟩
    cases h₁.symm.trans h'
    obtain ⟨-, -, hs₁, hc, hu⟩ := returnOne_spec fresh hs hr h₁
    exact ih hs₁ (hin.tail hc hu) hrest

theorem Settlement.Valid.fee_zero (hs : s.Valid) (hz : s.settled.value = 0) : s.fee.value = 0 :=
  le_antisymm (((units_le hs.currency).1 hs.fee_le).trans hz.le) (value_nonneg_iff.2 hs.fee_nonneg)

theorem drainsExactly_of_allNetPositive (hs : s.Valid) (hin : ReturnsWithin s inputs)
    (hpos : AllNetPositive fresh s inputs) : DrainsExactly fresh s inputs := by
  induction inputs generalizing s with
  | nil => exact ⟨s, [], rfl, rfl, by simp, by simp, hs.fee_zero⟩
  | cons input inputs ih =>
    have hr := hin.returnable
    obtain ⟨⟨⟨feeShare, entry⟩, s₁⟩, h₁⟩ := (returnOne_iff fresh hs hr).2 hpos.1
    obtain ⟨⟨hcs, h₀, hle⟩, ⟨hv, hlines⟩, hs₁, hc, hu⟩ := returnOne_spec fresh hs hr h₁
    obtain ⟨last, steps, hrest, hmap, hsteps, hsum, hlast⟩ :=
      ih hs₁ (hin.tail hc hu) (hpos.2 _ _ h₁)
    refine ⟨last, ⟨input, feeShare, entry, s₁⟩ :: steps, ?_, by rw [map_cons, hmap],
      forall_mem_cons.2 ⟨?_, hsteps⟩, ?_, hlast⟩
    · rw [Settlement.returns, h₁, ok_bind]
      simp only [hrest]
      rfl
    · exact ⟨⟨value_nonneg_iff.2 h₀, (units_le (hcs.trans hr.currency.symm)).1 hle⟩, hv, hlines,
        value_nonneg_iff.2 hs₁.fee_nonneg, (units_le hs₁.currency).1 hs₁.fee_le⟩
    · rw [hsum, value_sub hr.currency hc hu, map_cons, sum_cons]
      ring

/-- **Returns post and drain exactly when no net cash rounds to zero.**  Any settlement with a fee
between zero and the settled amount, and any returns within it, in any order. -/
theorem settlement_returns_drain_iff {fresh : ℕ → Uuid} {s : Settlement}
    {inputs : List SettlementReturnInput} (hs : s.Valid) (hin : ReturnsWithin s inputs) :
    DrainsExactly fresh s inputs ↔ AllNetPositive fresh s inputs := by
  constructor
  · rintro ⟨last, steps, hrun, -⟩
    exact allNetPositive_of_returns fresh hs hin hrun
  · exact drainsExactly_of_allNetPositive fresh hs hin

/-- One dollar settled, less a fee of so many cents. -/
def sampleSettlement (fee : ℕ) : Settlement := ⟨.cents 100, .cents fee⟩

/-- A return of so many cents. -/
def sampleReturn (cents : ℕ) : SettlementReturnInput where
  tenantId := 9
  payerTenantId := 7
  paymentId := "pay-1"
  pspReturnId := "ret-" ++ toString cents
  amount := .cents cents
  effectiveAt := none

instance (s : Settlement) (inputs : List SettlementReturnInput) :
    Decidable (ReturnsWithin s inputs) :=
  inferInstanceAs (Decidable (_ ∧ _))

/-- Three returns of a dollar with a fee of thirty cents; the share of the second is rounded. -/
theorem settlement_returns_drain_sample : DrainsExactly (BitVec.ofNat 128) (sampleSettlement 30)
    [sampleReturn 60, sampleReturn 15, sampleReturn 25] :=
  (settlement_returns_drain_iff ⟨rfl, by decide, by decide, by decide⟩ (by decide +kernel)).2
    (by decide +kernel)

/-- **A return of one cent.**  Its share of a fee of 99 cents rounds to the whole cent, so that the
cash line is zero and the engine refuses the entry that was built. -/
theorem settlement_return_zero_line :
    ((sampleSettlement 99).Valid ∧
      (sampleSettlement 99).fee.value < (sampleSettlement 99).settled.value ∧
      ReturnsWithin (sampleSettlement 99) [sampleReturn 1]) ∧
    (∃ feeShare entry, proRataFeeShare (sampleSettlement 99).fee (sampleReturn 1).amount
        (sampleSettlement 99).settled = .ok feeShare ∧
      buildSettlementReturnEntry (BitVec.ofNat 128) (sampleReturn 1) feeShare = .ok entry ∧
      (∃ l ∈ entry.lines, l.money.amount = Decimal.zero) ∧
      validateBalancedEntry entry.entryCurrency (entry.lines.map NewLine.facts) =
        .error .amountOutOfRange) ∧
    ¬ DrainsExactly (BitVec.ofNat 128) (sampleSettlement 99) [sampleReturn 1] := by
  refine ⟨⟨⟨rfl, by decide, by decide, by decide⟩, by decide +kernel, by decide +kernel⟩,
    ⟨.cents 1, paymentEntry 0 9 .usd .settlementReturn "ret-1" none
      [paymentLine 9 7 1 .unallocated .debit (.cents 1),
        paymentLine 9 7 2 .cashClearing .credit (.cents 0),
        paymentLine 9 7 3 .pspFeeExpense .credit (.cents 1)],
      by decide +kernel, by decide +kernel, by decide +kernel, by decide +kernel⟩, ?_⟩
  rintro ⟨last, steps, hrun, -⟩
  have hrefused : ((sampleSettlement 99).returns (BitVec.ofNat 128) [sampleReturn 1]).toOption =
      none := by decide +kernel
  rw [hrun] at hrefused
  cases hrefused

/-! ### Returns that race -/

/-- Post a return that was sized from an earlier reading of what was left. -/
def returnInner (fresh : ℕ → Uuid) (posted : Settlement × List NewLine)
    (event : SettlementReturnInput × Settlement) :
    Except DomainError (Settlement × List NewLine) := do
  let (input, read) := event
  let ((_, entry), left) ← posted.1.returnSized read fresh input
  return (left, posted.2 ++ entry.lines)

/-- What lines move on an account class, debits positive. -/
def movedOn (c : AccountClass) (lines : List NewLine) : ℚ :=
  (lines.map fun l => if l.accountClass = c then
    match l.side with
    | .debit => l.money.value
    | .credit => -l.money.value
  else 0).sum

/-- What the accounts of a payment carry while so much of it is left. -/
def Settlement.carried (s : Settlement) : AccountClass → ℚ
  | .cashClearing => s.settled.value - s.fee.value
  | .pspFeeExpense => s.fee.value
  | .unallocated => -s.settled.value
  | _ => 0

theorem subtractPosted_value {l r m : PostedMoney} (h : subtractPosted l r = .ok m) :
    m.value = l.value - r.value := by
  obtain ⟨hlr, hm, hu⟩ := subtractPosted_eq_ok_iff.1 h
  exact value_sub hlr.symm hm hu

theorem value_eq_zero {m : PostedMoney} (h : ¬ m.amount < Decimal.zero)
    (h' : ¬ Decimal.zero < m.amount) : m.value = 0 := by
  rw [Decimal.lt_iff, Decimal.toRat_zero, not_lt] at h h'
  exact le_antisymm h' h

variable {fresh} {entry : PostEntry}

theorem deltaOf_settlementReturnDeltas {amount feeShare : PostedMoney}
    {deltas : List (SettlementCounter × PostedMoney)}
    (h : settlementReturnDeltas amount feeShare = .ok deltas) (c : SettlementCounter) :
    deltaOf deltas c = match c with
      | .settled => -amount.value
      | .fee => -feeShare.value
      | _ => 0 := by
  have hvalue (m : PostedMoney) : m.amount.toRat = m.value := rfl
  simp only [settlementReturnDeltas] at h
  split at h <;>
    simp only [ok_iffs, map_eq_ok_iff, tryNew_eq_ok_iff, Decimal.toRat_neg, hvalue] at h
  case isTrue hzero =>
    obtain ⟨_, ⟨⟩, settled, ⟨-, hsettled⟩, rfl⟩ := h
    have hfee : feeShare.value = 0 := Decimal.isZero_iff.1 hzero
    cases c <;> simp [deltaOf, hsettled, hfee]
  case isFalse =>
    obtain ⟨_, ⟨fee, ⟨-, hfee⟩, rfl⟩, settled, ⟨-, hsettled⟩, rfl⟩ := h
    cases c <;> simp [deltaOf, hsettled, hfee]

/-- The row of the payment follows what is left, and its other counters stay. -/
theorem addSettlementDeltas_return {state : SettlementState} {row : Option SettlementState}
    {read left : Settlement} {feeShare : PostedMoney}
    {deltas : List (SettlementCounter × PostedMoney)} {tenant : Uuid} {payment : String}
    (h : Settlement.returnSized ⟨state.settled, state.fee⟩ read fresh input =
      .ok ((feeShare, entry), left))
    (hdeltas : settlementReturnDeltas input.amount feeShare = .ok deltas)
    (hrow : addSettlementDeltas (some state) tenant payment deltas = .ok row) (c) :
    row.map (fun s => (s.get c).value) = some (match c with
      | .settled => left.settled.value
      | .fee => left.fee.value
      | c => (state.get c).value) := by
  simp only [Settlement.returnSized, ok_iffs] at h
  obtain ⟨_, -, _, -, -, -, settled, hsettled, fee, hfee, ⟨rfl, -⟩, rfl⟩ := h
  have hvalue : row.map (fun s => (s.get c).value) =
      some ((state.get c).value + deltaOf deltas c) := by
    rcases addSettlementDeltas_spec hrow with ⟨rfl, rfl⟩ | ⟨_, state', ⟨⟩, rfl, -, hvalue⟩
    · exact congrArg some (add_zero _).symm
    · exact congrArg some (hvalue c)
  rw [hvalue, deltaOf_settlementReturnDeltas hdeltas]
  cases c <;> simp [SettlementState.get, subtractPosted_value hsettled, subtractPosted_value hfee,
    sub_eq_add_neg]

theorem movedOn_settlement {input : SettlementInput}
    (h : buildSettlementEntry fresh input = .ok entry) (c : AccountClass) :
    movedOn c entry.lines = Settlement.carried ⟨input.gross, input.fee⟩ c := by
  simp only [buildSettlementEntry, ok_iffs, exists_const] at h
  obtain ⟨-, -, -, hfee, -, net, hnet, rfl⟩ := h
  have hvalue := subtractPosted_value hnet
  simp only [movedOn, paymentEntry]
  split_ifs with hpos
  · cases c <;> simp [paymentLine, NewLine.plain, Settlement.carried, hvalue]
  · have hzero := value_eq_zero hfee hpos
    cases c <;> simp [paymentLine, NewLine.plain, Settlement.carried, hvalue, hzero]

/-- A return moves what the counters lose, whatever its share was sized from. -/
theorem returnInner_movedOn {posted posted' : Settlement × List NewLine}
    {event : SettlementReturnInput × Settlement} (h : returnInner fresh posted event = .ok posted')
    (hposted : ∀ c, movedOn c posted.2 = posted.1.carried c) (c : AccountClass) :
    movedOn c posted'.2 = posted'.1.carried c := by
  simp only [returnInner, Settlement.returnSized, buildSettlementReturnEntry, ok_iffs,
    exists_const, Prod.exists] at h
  obtain ⟨_, _, _, ⟨share, -, _, ⟨-, -, -, hshare, net, hnet, rfl⟩, -, -, settled, hsettled, fee,
    hfee, ⟨rfl, rfl⟩, rfl⟩, rfl⟩ := h
  have hnet := subtractPosted_value hnet
  have hsettled := subtractPosted_value hsettled
  have hfee := subtractPosted_value hfee
  have hposted := hposted c
  simp only [movedOn, paymentEntry, settlementReturnLines, map_append, sum_append] at hposted ⊢
  rw [hposted]
  split_ifs with hpos
  · cases c <;> simp [paymentLine, NewLine.plain, Settlement.carried, hnet, hsettled, hfee] <;> ring
  · have hzero := value_eq_zero (not_or.1 hshare).1 hpos
    cases c <;> simp [paymentLine, NewLine.plain, Settlement.carried, hnet, hsettled, hfee, hzero]
      <;> ring

/-- **The accounts of a payment follow its counters.**  After a settlement and any posted returns,
each sized from whatever it read before, three accounts carry exactly what is left of the payment,
and no other account is moved. -/
theorem settlement_accounts_follow {input : SettlementInput}
    {events : List (SettlementReturnInput × Settlement)} {last : Settlement × List NewLine}
    (h : buildSettlementEntry fresh input = .ok entry)
    (hreturns : Machine.run (returnInner fresh) (⟨input.gross, input.fee⟩, entry.lines) events =
      .ok last) : ∀ c, movedOn c last.2 = last.1.carried c :=
  Machine.run_invariant (fun _ _ _ hposted hs => returnInner_movedOn hs hposted) hreturns
    (movedOn_settlement h)

/-- Two returns of a dollar, both sized from all of it. -/
theorem settlement_accounts_follow_sample : ∃ last, (do
      let s := sampleSettlement 30
      let entry ← buildSettlementEntry (BitVec.ofNat 128) ⟨9, 7, "pay-1", s.settled, s.fee, none⟩
      Machine.run (returnInner (BitVec.ofNat 128)) (s, entry.lines)
        [(sampleReturn 60, s), (sampleReturn 40, s)]) = .ok last ∧
    ∀ c, movedOn c last.2 = last.1.carried c := by
  refine exists_ok_of (P := fun _ => True) (by decide +kernel) fun last hlast _ => ?_
  obtain ⟨entry, hentry, hreturns⟩ := bind_eq_ok_iff.1 hlast
  exact settlement_accounts_follow hentry hreturns

end Gears.Ledger
