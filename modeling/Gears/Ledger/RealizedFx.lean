import Gears.Ledger.Model
import Gears.Money.ProRata
import Mathlib

/-!
# Closing foreign-currency positions

A position carries a functional value beside its transaction balance.  A close relieves the
functional value pro rata, rounded once; the last close takes what is left.

* `carriedRelief` : the functional value a close takes with it.
* `drain_exact` : any sequence of closes keeps the carried value nonnegative and leaves none of it
  on a closed position.
-/

namespace Gears.Ledger

open Money Except List PostedMoney ExactAmount

variable {relief : PostedMoney}

/-- Malformed closing data, or a failure of the exact arithmetic. -/
inductive RealizedFxError
  | nonPositiveCarriedTransaction
  | relievedOutOfRange
  | negativeCarriedFunctional
  | exact (error : ExactError)
  deriving DecidableEq, Repr

/-- The carried value a close relieves: the exact ratio rounded once at the functional scale.  A
full close returns the carried posting unchanged. -/
def carriedRelief (carriedFunctional carriedTransaction relievedTransaction : PostedMoney) :
    Except RealizedFxError PostedMoney := do
  (carriedTransaction.currency.ensureSame relievedTransaction.currency).mapError
    fun e => .exact (.money e)
  rejectIf (carriedTransaction.amount ≤ Decimal.zero) .nonPositiveCarriedTransaction
  rejectIf (relievedTransaction.amount ≤ Decimal.zero ∨
    carriedTransaction.amount < relievedTransaction.amount) .relievedOutOfRange
  rejectIf (carriedFunctional.amount < Decimal.zero) .negativeCarriedFunctional
  if relievedTransaction.amount = carriedTransaction.amount then
    return carriedFunctional
  else
    (proRata carriedFunctional relievedTransaction carriedTransaction
      carriedFunctional.currency).mapError .exact

/-- The carried functional value and the transaction balance of a position. -/
structure Position where
  functional : PostedMoney
  transaction : PostedMoney
  deriving DecidableEq, Repr

/-- Close a part of a position: relieve the carried value, then reduce both balances. -/
def Position.close (p : Position) (relieved : PostedMoney) :
    Except RealizedFxError (PostedMoney × Position) := do
  let relief ← carriedRelief p.functional p.transaction relieved
  let functional ← (subtract p.functional relief).mapError .exact
  let transaction ← (subtract p.transaction relieved).mapError .exact
  return (relief, ⟨functional, transaction⟩)

/-- The amount can be closed: it is in the position's currency, positive and within the balance. -/
structure Position.Closable (p : Position) (relieved : PostedMoney) : Prop where
  currency : p.transaction.currency = relieved.currency
  carried : 0 ≤ p.functional.value
  pos : 0 < relieved.value
  le : relieved.value ≤ p.transaction.value

variable {p : Position} {r : PostedMoney} {rs : List PostedMoney}

/-- **The relief of a closable amount** is the rounded share of the carried value. -/
theorem carriedRelief_eq (h : p.Closable r) : carriedRelief p.functional p.transaction r =
      (ExactAmount.posted (halfEven (p.functional.units.toNat * r.units.toNat)
        p.transaction.units.toNat) p.functional.currency).mapError .exact := by
  have hr := value_pos_iff.1 h.pos
  have ht := value_pos_iff.1 (h.pos.trans_le h.le)
  have hf := value_nonneg_iff.1 h.carried
  have hcur : p.transaction.currency.ensureSame r.currency = .ok () :=
    CurrencySpec.ensureSame_eq_ok_iff.2 h.currency
  have h₁ : ¬ p.transaction.amount ≤ Decimal.zero := by
    rw [Decimal.le_iff, Decimal.toRat_zero]
    exact not_le.2 (h.pos.trans_le h.le)
  have h₂ : ¬ (r.amount ≤ Decimal.zero ∨ p.transaction.amount < r.amount) := by
    rw [Decimal.le_iff, Decimal.lt_iff, Decimal.toRat_zero, not_or, not_le, not_lt]
    exact ⟨h.pos, h.le⟩
  have h₃ : ¬ p.functional.amount < Decimal.zero := by
    rw [Decimal.lt_iff, Decimal.toRat_zero]
    exact not_lt.2 h.carried
  rw [carriedRelief, hcur, rejectIf_of_not h₁, rejectIf_of_not h₂, rejectIf_of_not h₃]
  simp only [Except.mapError, ok_bind]
  split
  · -- a full close: the share of the whole is the whole
    rename_i heq
    have hunits : r.units = p.transaction.units := by
      rw [PostedMoney.units, PostedMoney.units, heq, h.currency]
    rw [hunits, halfEven_mul_self (by omega), Int.toNat_of_nonneg hf, posted_eq,
      dif_pos p.functional.fits_units]
    exact congrArg Except.ok (ext_units rfl (units_ofUnits _).symm)
  · rw [proRata_eq (Int.toNat_of_nonneg hf).symm (Int.toNat_of_nonneg hr.le).symm
      (Int.toNat_of_nonneg ht.le).symm (by omega) h.currency.symm]

/-- **One close.**  The relief lies between zero and the carried value, both balances fall by what
was taken, and closing the whole balance leaves no carried value. -/
theorem Position.close_spec {q : Position} (h : p.Closable r) (hc : p.close r = .ok (relief, q)) :
    (relief.currency = p.functional.currency ∧ 0 ≤ relief.value ∧
        relief.value ≤ p.functional.value) ∧ (q.functional.currency = p.functional.currency ∧
        q.functional.value = p.functional.value - relief.value) ∧
      (q.transaction.currency = p.transaction.currency ∧
        q.transaction.value = p.transaction.value - r.value) ∧
      (q.transaction.value = 0 → q.functional.value = 0) := by
  have hr := value_pos_iff.1 h.pos
  have hf := value_nonneg_iff.1 h.carried
  have hle := (units_le h.currency.symm).2 h.le
  simp only [Position.close, carriedRelief_eq h, ok_iffs, posted_eq_ok_iff_units,
    Prod.mk.injEq] at hc
  obtain ⟨m, ⟨hmc, hmu⟩, f, hfs, t, hts, rfl, rfl⟩ := hc
  obtain ⟨hfc, hfv⟩ := subtract_value hmc.symm hfs
  obtain ⟨htc, htv⟩ := subtract_value h.currency hts
  -- the share of a part of the balance is at most the carried value
  have hshare : halfEven (p.functional.units.toNat * r.units.toNat) p.transaction.units.toNat ≤
      p.functional.units.toNat :=
    halfEven_le (by omega) (Nat.mul_le_mul_left _ (by omega))
  refine ⟨⟨hmc, ?_, ?_⟩, ⟨hfc, hfv⟩, ⟨htc, htv⟩, fun hzero => ?_⟩
  · rw [m.value_eq_units, hmu]
    positivity
  · rw [← units_le hmc]
    omega
  · have hru : r.units = p.transaction.units := by
      refine le_antisymm hle ((units_le h.currency).2 ?_)
      linarith
    have hmf : m = p.functional := by
      refine ext_units hmc ?_
      rw [hmu, hru, halfEven_mul_self (by omega), Int.toNat_of_nonneg hf]
    rw [hfv, hmf, sub_self]

/-- A closable amount can fail to close only because a result has too many digits. -/
theorem Position.close_onlyFails (h : p.Closable r) :
    OnlyFails (.exact (.money .amountOutOfRange)) (p.close r) := by
  rw [Position.close, carriedRelief_eq h]
  refine ((onlyFails_posted _ _).mapError _).bind fun m hm => ?_
  rw [mapError_eq_ok_iff, posted_eq_ok_iff_units] at hm
  rw [subtract_eq hm.1.symm, subtract_eq h.currency]
  refine ((onlyFails_posted _ _).mapError _).bind fun _ _ => ?_
  exact ((onlyFails_posted _ _).mapError _).bind fun _ _ => onlyFails_ok _ _

/-! ### Any sequence of closes -/

/-- Close amounts one after another, keeping each position with the relief taken from it. -/
def Position.drain (p : Position) :
    List PostedMoney → Except RealizedFxError (Position × List (Position × PostedMoney))
  | [] => .ok (p, [])
  | r :: rs => do
    let (relief, q) ← p.close r
    let (last, steps) ← q.drain rs
    return (last, (p, relief) :: steps)

/-- The amounts can be closed one after another: they are positive, in the currency of the
balance, and never more than what is left of it. -/
def Drainable (p : Position) (rs : List PostedMoney) : Prop :=
  0 ≤ p.functional.value ∧ (∀ r ∈ rs, r.currency = p.transaction.currency ∧ 0 < r.value) ∧
    (rs.map value).sum ≤ p.transaction.value

theorem Drainable.closable (h : Drainable p (r :: rs)) : p.Closable r := by
  obtain ⟨hf, hrs, hsum⟩ := h
  obtain ⟨hc, hpos⟩ := hrs r mem_cons_self
  refine ⟨hc.symm, hf, hpos, le_trans ?_ hsum⟩
  rw [map_cons, sum_cons, le_add_iff_nonneg_right]
  refine sum_nonneg fun v hv => ?_
  obtain ⟨r', hr', rfl⟩ := mem_map.1 hv
  exact (hrs r' (mem_cons_of_mem _ hr')).2.le

theorem Drainable.tail {q : Position} (h : Drainable p (r :: rs)) (hc : p.close r = .ok (relief, q))
    : Drainable q rs := by
  obtain ⟨⟨-, -, hle⟩, ⟨-, hf⟩, ⟨htc, ht⟩, -⟩ := Position.close_spec h.closable hc
  obtain ⟨-, hrs, hsum⟩ := h
  refine ⟨by rw [hf]; linarith, fun r' hr' => ?_, ?_⟩
  · rw [htc]
    exact hrs r' (mem_cons_of_mem _ hr')
  · rw [map_cons, sum_cons] at hsum
    linarith

theorem Position.drain_onlyFails (h : Drainable p rs) :
    OnlyFails (.exact (.money .amountOutOfRange)) (p.drain rs) := by
  induction rs generalizing p with
  | nil => exact onlyFails_ok _ _
  | cons r rs ih =>
    refine (Position.close_onlyFails h.closable).bind fun ⟨relief, q⟩ hq => ?_
    exact (ih (h.tail hq)).bind fun _ _ => onlyFails_ok _ _

/-- What a run of closes does, from any position that carries nothing on a zero balance. -/
theorem Position.drain_spec {last : Position} {steps : List (Position × PostedMoney)}
    (h : Drainable p rs) (hz : p.transaction.value = 0 → p.functional.value = 0)
    (hrun : p.drain rs = .ok (last, steps)) :
    (∀ step ∈ steps, 0 ≤ step.2.value ∧ step.2.value ≤ step.1.functional.value) ∧
      0 ≤ last.functional.value ∧
      last.functional.value = p.functional.value - (steps.map fun s => s.2.value).sum ∧
      last.transaction.value = p.transaction.value - (rs.map value).sum ∧
      (last.transaction.value = 0 → last.functional.value = 0) := by
  induction rs generalizing p steps with
  | nil =>
    cases hrun
    refine ⟨by simp, h.1, by simp, by simp, hz⟩
  | cons r rs ih =>
    simp only [Position.drain, ok_iffs, Prod.exists] at hrun
    obtain ⟨relief, q, hq, last', steps', hrest, rfl, rfl⟩ := hrun
    obtain ⟨⟨-, h₀, hle⟩, ⟨-, hf⟩, ⟨-, ht⟩, hzero⟩ := Position.close_spec h.closable hq
    obtain ⟨hsteps, hlast, hfun, htrans, hend⟩ := ih (h.tail hq) hzero hrest
    refine ⟨fun step hstep => ?_, hlast, ?_, ?_, hend⟩
    · rcases mem_cons.1 hstep with rfl | hstep
      · exact ⟨h₀, hle⟩
      · exact hsteps step hstep
    · rw [hfun, hf, map_cons, sum_cons]
      ring
    · rw [htrans, ht, map_cons, sum_cons]
      ring

/-- **Draining a position is exact.**  Whatever amounts are closed one after another, a close can
fail only on the digits of a result.  Otherwise every relief lies between zero and the value
carried at that time, the carried value never becomes negative and falls by the reliefs, the
balance by the amounts, and a balance of zero carries nothing: the reliefs then add up to the
initial value. -/
theorem drain_exact {p : Position} {rs : List PostedMoney} (h : Drainable p rs)
    (hpos : 0 < p.transaction.value) : OnlyFails (.exact (.money .amountOutOfRange)) (p.drain rs) ∧
      ∀ last steps, p.drain rs = .ok (last, steps) →
        (∀ step ∈ steps, 0 ≤ step.2.value ∧ step.2.value ≤ step.1.functional.value) ∧
        0 ≤ last.functional.value ∧
        last.functional.value = p.functional.value - (steps.map fun s => s.2.value).sum ∧
        last.transaction.value = p.transaction.value - (rs.map value).sum ∧
        (last.transaction.value = 0 → last.functional.value = 0 ∧
            (steps.map fun s => s.2.value).sum = p.functional.value) := by
  refine ⟨Position.drain_onlyFails h, fun last steps hrun => ?_⟩
  obtain ⟨hsteps, hlast, hfun, htrans, hend⟩ :=
    Position.drain_spec h (fun hz => absurd hz hpos.ne') hrun
  refine ⟨hsteps, hlast, hfun, htrans, fun hz => ⟨hend hz, ?_⟩⟩
  have hzero := hend hz
  linarith

/-- A position of 1.00 that carries 0.05, closed in three parts. -/
def samplePosition : Position := ⟨.cents 5, .cents 100⟩

/-- The three parts. -/
def sampleCloses : List PostedMoney := [.cents 33, .cents 33, .cents 34]

theorem drain_exact_sample : ∃ last steps, samplePosition.drain sampleCloses = .ok (last, steps) ∧
    last.functional.value = 0 ∧ (steps.map fun s => s.2.value).sum = 5 / 100 := by
  have hdrain : Drainable samplePosition sampleCloses := by
    refine ⟨?_, ?_, ?_⟩ <;> decide +kernel
  have hpos : 0 < samplePosition.transaction.value := by decide +kernel
  obtain ⟨⟨last, steps⟩, hrun, hzero⟩ : ∃ out, samplePosition.drain sampleCloses = .ok out ∧
      out.1.transaction.value = 0 := by decide +kernel
  obtain ⟨-, -, -, -, hend⟩ := (drain_exact hdrain hpos).2 last steps hrun
  obtain ⟨hf, hsum⟩ := hend hzero
  refine ⟨last, steps, hrun, hf, hsum.trans ?_⟩
  decide +kernel

end Gears.Ledger
