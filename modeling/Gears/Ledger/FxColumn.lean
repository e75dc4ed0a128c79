import Gears.Ledger.Posting
import Gears.Ledger.RealizedFx

/-!
# Balancing the functional column

A close relieves each leg from its own grain, and a period end remeasures each grain.  Both add up
the functional legs and post one more line where they do not balance.

* `Grains.column` : the loop and the balancing line; `realize` and `remeasure` are its instances.
* `fx_columns_balance` : what the two return, in any order of their input.
-/

namespace Gears.Ledger

open Money Except List ExactAmount

/-- A functional-only line: positive money, and the side that carries its sign. -/
structure RealizedFxLine where
  side : Side
  functional : PostedMoney
  deriving DecidableEq, Repr

/-- A line of a revaluation has the same columns. -/
abbrev RevaluationLine := RealizedFxLine

/-- The line of an exact amount: none if it is zero, and on the opposite side if it is negative. -/
def lineOf {ε : Type} (wrap : ExactError → ε) (amount : ExactAmount) (side : Side)
    (currency : CurrencySpec) : Except ε (Option RealizedFxLine) :=
  if amount = .fromDecimal .zero then .ok none
  else if amount.isNegative then do
    let magnitude ← (checkedSub (.fromDecimal .zero) amount).mapError wrap
    let functional ← (magnitude.intoPostedExact currency).mapError wrap
    return some ⟨side.flip, functional⟩
  else do
    let functional ← (amount.intoPostedExact currency).mapError wrap
    return some ⟨side, functional⟩

/-- Add a functional leg to a net, debits positive. -/
def addLeg (net : ExactAmount) (line : RealizedFxLine) : Except ExactError ExactAmount :=
  match line.side with
  | .debit => net.checkedAdd (.fromDecimal line.functional.amount)
  | .credit => net.checkedSub (.fromDecimal line.functional.amount)

/-- What a functional column is computed from: the leg of a grain, the line it posts, the check of a
grain against the first one, and the grain's functional currency. -/
structure Grains (α β ε : Type) where
  leg : α → Except ε β
  line : α → β → Option RealizedFxLine
  check : α → α → Except ε Unit
  currency : α → CurrencySpec
  wrap : ExactError → ε

namespace Grains

variable {α β ε : Type} (G : Grains α β ε)

/-- Append the leg of a grain and add its line to the net. -/
def step (acc : List β × ExactAmount) (a : α) : Except ε (List β × ExactAmount) := do
  let b ← G.leg a
  let net ← ((G.line a b).elim (.ok acc.2) (addLeg acc.2)).mapError G.wrap
  return (acc.1 ++ [b], net)

/-- The legs in the order of their grains, and the line that balances them if one is needed. -/
def column : List α → Except ε (List β × Option RealizedFxLine)
  | [] => .ok ([], none)
  | first :: rest => do
    (first :: rest).forM (G.check first)
    let (legs, net) ← (first :: rest).foldlM G.step ([], .fromDecimal .zero)
    let contra ← lineOf G.wrap net .credit (G.currency first)
    return (legs, contra)

end Grains

/-- A closing leg: the carried amounts of one grain and the amount relieved from it. -/
structure ClosingLeg where
  side : Side
  carriedFunctional : PostedMoney
  carriedTransaction : PostedMoney
  relievedTransaction : PostedMoney
  deriving DecidableEq, Repr

/-- The functional reliefs of the legs, in order, and the balancing line if one is needed. -/
structure RealizedFx where
  legFunctional : List PostedMoney
  fxLine : Option RealizedFxLine
  deriving DecidableEq, Repr

/-- Every leg is relieved from its own grain. -/
def closingGrains : Grains ClosingLeg PostedMoney RealizedFxError where
  leg leg := carriedRelief leg.carriedFunctional leg.carriedTransaction leg.relievedTransaction
  line leg f := some ⟨leg.side, f⟩
  check first leg := (first.carriedFunctional.currency.ensureSame
    leg.carriedFunctional.currency).mapError fun e => .exact (.money e)
  currency leg := leg.carriedFunctional.currency
  wrap := .exact

/-- Relieve every leg from its own grain, then balance the functional column with one line. -/
def realize (legs : List ClosingLeg) : Except RealizedFxError RealizedFx :=
  (closingGrains.column legs).map fun out => ⟨out.1, out.2⟩

/-! ### Revaluation -/

/-- The historical and the remeasured functional value of a grain. -/
structure RevaluationPosition where
  normalSide : Side
  carriedFunctional : PostedMoney
  remeasuredFunctional : PostedMoney
  deriving DecidableEq, Repr

/-- The movements of the grains, in order, and the contra if one is needed. -/
structure Revaluation where
  grainLines : List (Option RevaluationLine)
  fxUnrealized : Option RevaluationLine
  deriving DecidableEq, Repr

/-- A malformed position, or a failure of the exact arithmetic. -/
inductive RevaluationError
  | negativeCarriedFunctional
  | negativeRemeasured
  | exact (error : ExactError)
  deriving DecidableEq, Repr

/-- The two functional values of a position have one currency. -/
def RevaluationPosition.ensureSame (pos : RevaluationPosition) : Except RevaluationError Unit :=
  (pos.carriedFunctional.currency.ensureSame pos.remeasuredFunctional.currency).mapError
    fun e => .exact (.money e)

/-- The exact movement of a grain; an increase is on its normal side. -/
def adjustLeg (pos : RevaluationPosition) : Except RevaluationError (Option RevaluationLine) := do
  pos.ensureSame
  rejectIf (pos.carriedFunctional.amount < Decimal.zero) .negativeCarriedFunctional
  rejectIf (pos.remeasuredFunctional.amount < Decimal.zero) .negativeRemeasured
  let delta ← ((fromDecimal pos.remeasuredFunctional.amount).checkedSub
    (.fromDecimal pos.carriedFunctional.amount)).mapError .exact
  lineOf .exact delta pos.normalSide pos.carriedFunctional.currency

/-- Every position is remeasured by itself. -/
def revaluationGrains : Grains RevaluationPosition (Option RevaluationLine) RevaluationError where
  leg := adjustLeg
  line _ movement := movement
  check first pos := do
    (first.carriedFunctional.currency.ensureSame pos.carriedFunctional.currency).mapError
      fun e => .exact (.money e)
    pos.ensureSame
  currency pos := pos.carriedFunctional.currency
  wrap := .exact

/-- Remeasure every grain, then net the movements into one contra. -/
def remeasure (positions : List RevaluationPosition) : Except RevaluationError Revaluation :=
  (revaluationGrains.column positions).map fun out => ⟨out.1, out.2⟩

/-- A functional amount with the sign of its side: debits positive. -/
def RealizedFxLine.value (l : RealizedFxLine) : ℚ :=
  match l.side with
  | .debit => l.functional.value
  | .credit => -l.functional.value

variable {ε : Type} {wrap : ExactError → ε} {amount net : ExactAmount} {side : Side}
  {c : CurrencySpec} {line : Option RealizedFxLine} {k : ℤ}

theorem lineOf_spec (h : lineOf wrap amount side c = .ok line) : (line = none ↔ amount.toRat = 0) ∧
      ∀ l ∈ line, l.functional.currency = c ∧ 0 < l.functional.value ∧
        (l.side = side ∧ l.functional.value = amount.toRat ∨
          l.side = side.flip ∧ l.functional.value = -amount.toRat) := by
  have hzero : amount = .fromDecimal .zero ↔ amount.toRat = 0 := by
    rw [← toRat_injective.eq_iff, toRat_fromDecimal, Decimal.toRat_zero]
  unfold lineOf at h
  split_ifs at h with hz hneg
  · cases h
    simp [hzero.1 hz]
  · have hlt := isNegative_iff.1 hneg
    simp only [ok_iffs, checkedSub_eq_ok_iff, intoPostedExact_eq_ok_iff, toRat_fromDecimal,
      Decimal.toRat_zero] at h
    obtain ⟨a, ⟨-, -, -, ha⟩, m, ⟨hc, hm⟩, rfl⟩ := h
    rw [zero_sub] at ha
    refine ⟨by simp [hlt.ne], ?_⟩
    rintro l ⟨⟩
    exact ⟨hc, by simpa [hm, ha] using hlt, .inr ⟨rfl, hm.trans ha⟩⟩
  · have hle := not_lt.1 (mt isNegative_iff.2 hneg)
    have hne := mt hzero.2 hz
    simp only [ok_iffs, intoPostedExact_eq_ok_iff] at h
    obtain ⟨m, ⟨hc, hm⟩, rfl⟩ := h
    refine ⟨by simp [hne], ?_⟩
    rintro l ⟨⟩
    exact ⟨hc, hm ▸ lt_of_le_of_ne hle (Ne.symm hne), .inl ⟨rfl, hm⟩⟩

/-- The posting increments of a line, debits positive. -/
def RealizedFxLine.units (l : RealizedFxLine) : ℤ :=
  LineFacts.signedUnits ⟨l.side, l.functional, 0, none⟩

theorem value_eq_units (l : RealizedFxLine) :
    l.value = l.units / 10 ^ l.functional.currency.scale := by
  unfold RealizedFxLine.value RealizedFxLine.units LineFacts.signedUnits
  rw [l.functional.value_eq_units]
  cases l.side with
  | debit => rfl
  | credit =>
    push_cast
    ring

/-! ### What the loop computes -/

namespace Grains

variable {α β : Type} (G : Grains α β ε) {as : List α}

/-- The posting increments that a grain contributes. -/
def units (a : α) : ℤ :=
  match G.leg a with
  | .ok b => (G.line a b).elim 0 RealizedFxLine.units
  | .error _ => 0

/-- The signed total of the legs. -/
def total (as : List α) (legs : List β) : ℚ :=
  (zipWith (fun a b => (G.line a b).elim 0 RealizedFxLine.value) as legs).sum

/-- A check compares the currencies and something of the checked grain, and a leg is posted in the
currency of its grain. -/
structure Lawful (own : α → Prop) : Prop where
  check_iff : ∀ a a', G.check a a' = .ok () ↔ G.currency a = G.currency a' ∧ own a'
  line_currency : ∀ {a b l}, G.leg a = .ok b → l ∈ G.line a b → l.functional.currency = G.currency a

variable {G} {own : α → Prop} (hG : G.Lawful own)

include hG in
theorem addLeg_isNet {a : α} {b : β} (hb : G.leg a = .ok b) (hnet : IsNet (G.currency a) k net)
    (hk : k.natAbs + 10 ^ 56 ≤ 10 ^ 200) :
    (G.units a).natAbs ≤ 10 ^ 56 ∧ ∃ net', (G.line a b).elim (.ok net) (addLeg net) = .ok net' ∧
      IsNet (G.currency a) (k + G.units a) net' := by
  rw [units, hb]
  dsimp only
  cases hl : G.line a b with
  | none => exact ⟨Nat.zero_le _, net, rfl, by simpa using hnet⟩
  | some l =>
    obtain ⟨net', hadd, hnet'⟩ := addSigned_isNet (l := ⟨l.side, l.functional, 0, none⟩) hnet
      (hG.line_currency hb hl) hk
    exact ⟨natAbs_signedUnits_le _, net', mapError_eq_ok_iff.1 hadd, hnet'⟩

include hG in
/-- The loop from a net that fits: every grain has its leg, and the net adds up their increments. -/
theorem foldlM_step_iff (hc : ∀ a ∈ as, G.currency a = c) (hnet : IsNet c k net)
    (hk : k.natAbs + as.length * 10 ^ 56 ≤ 10 ^ 200) {done : List β}
    {out : List β × ExactAmount} : as.foldlM G.step (done, net) = .ok out ↔
      ∃ legs, Forall₂ (fun a b => G.leg a = .ok b) as legs ∧ out.1 = done ++ legs ∧
        IsNet c (k + (as.map G.units).sum) out.2 := by
  induction as generalizing k net done with
  | nil =>
    constructor
    · rintro ⟨⟩
      exact ⟨[], .nil, (append_nil _).symm, by simpa using hnet⟩
    · rintro ⟨_, ⟨⟩, hdone, hout⟩
      rw [map_nil, sum_nil, add_zero] at hout
      exact congrArg ok (Prod.ext (by simpa using hdone.symm)
        (toRat_injective (hnet.trans hout.symm)))
  | cons a as ih =>
    obtain ⟨rfl, hc⟩ := forall_mem_cons.1 hc
    rw [length_cons] at hk
    have hrest {b : β} (hb : G.leg a = .ok b) := addLeg_isNet hG hb hnet (by omega)
    rw [foldlM_cons, bind_eq_ok_iff]
    constructor
    · rintro ⟨acc, hacc, hfold⟩
      simp only [step, ok_iffs] at hacc
      obtain ⟨b, hb, net₁, hadd, rfl⟩ := hacc
      obtain ⟨hsize, net₂, hadd₂, hnet₂⟩ := hrest hb
      cases hadd.symm.trans hadd₂
      obtain ⟨legs, hlegs, hout, hnet'⟩ := (ih hc hnet₂ (by omega)).1 hfold
      exact ⟨b :: legs, .cons hb hlegs, by simpa using hout, by simpa [add_assoc] using hnet'⟩
    · rintro ⟨_, hall, hout, hnet'⟩
      cases hall with
      | @cons _ b _ legs hb hlegs =>
        obtain ⟨hsize, net₁, hadd, hnet₁⟩ := hrest hb
        refine ⟨(done ++ [b], net₁), ?_, (ih hc hnet₁ (by omega)).2
          ⟨legs, hlegs, by simpa using hout, by simpa [add_assoc] using hnet'⟩⟩
        simp [step, hb, hadd, Except.mapError]

include hG in
/-- **When a column is posted**: the grains have one currency and each its leg, and the balancing
line is that of their net. -/
theorem column_iff (hlen : as.length ≤ 10 ^ 100) {legs : List β} :
    G.column as = .ok (legs, line) ↔ ∃ c net, (∀ a ∈ as, G.currency a = c ∧ own a) ∧
      Forall₂ (fun a b => G.leg a = .ok b) as legs ∧ IsNet c (as.map G.units).sum net ∧
      lineOf G.wrap net .credit c = .ok line := by
  have hsize : (0 : ℤ).natAbs + as.length * 10 ^ 56 ≤ 10 ^ 200 := by
    rw [Int.natAbs_zero, zero_add]
    exact (Nat.mul_le_mul_right _ hlen).trans (by norm_num)
  cases as with
  | nil =>
    constructor
    · rintro ⟨⟩
      exact ⟨.usd, .fromDecimal .zero, by simp, .nil, isNet_zero _, by simp [lineOf]⟩
    · rintro ⟨c, net, -, ⟨⟩, hnet, hline⟩
      rw [lineOf, if_pos (hnet.eq_zero_iff.2 rfl)] at hline
      cases hline
      rfl
  | cons first rest =>
    simp only [column, ok_iffs, exists_const, forM_eq_ok_iff, hG.check_iff,
      Prod.exists, Prod.mk.injEq]
    constructor
    · rintro ⟨hcheck, legs', net, hfold, line', hline, rfl, rfl⟩
      have hc : ∀ a ∈ first :: rest, G.currency a = G.currency first ∧ own a := fun a ha =>
        ⟨(hcheck a ha).1.symm, (hcheck a ha).2⟩
      obtain ⟨_, hlegs, rfl, hnet⟩ :=
        (foldlM_step_iff hG (fun a ha => (hc a ha).1) (isNet_zero _) hsize).1 hfold
      rw [zero_add] at hnet
      exact ⟨_, net, hc, hlegs, hnet, hline⟩
    · rintro ⟨c, net, hc, hlegs, hnet, hline⟩
      obtain rfl := (hc first mem_cons_self).1
      refine ⟨fun a ha => ⟨(hc a ha).1.symm, (hc a ha).2⟩, legs, net, ?_, line, hline, rfl, rfl⟩
      exact (foldlM_step_iff hG (fun a ha => (hc a ha).1) (isNet_zero _) hsize).2
        ⟨legs, hlegs, rfl, by rwa [zero_add]⟩

include hG in
theorem total_eq {legs : List β} (hc : ∀ a ∈ as, G.currency a = c)
    (h : Forall₂ (fun a b => G.leg a = .ok b) as legs) :
    G.total as legs = ((as.map G.units).sum : ℤ) / 10 ^ c.scale := by
  induction h with
  | nil => simp [total]
  | @cons a b as legs hb _ ih =>
    obtain ⟨rfl, hc⟩ := forall_mem_cons.1 hc
    have hvalue : (G.line a b).elim 0 RealizedFxLine.value =
        (G.units a : ℚ) / 10 ^ (G.currency a).scale := by
      rw [units, hb]
      dsimp only
      cases hl : G.line a b with
      | none => simp
      | some l => rw [Option.elim_some, value_eq_units, hG.line_currency hb hl, Option.elim_some]
    have htotal : G.total (a :: as) (b :: legs) =
        (G.line a b).elim 0 RealizedFxLine.value + G.total as legs := sum_cons
    rw [htotal, hvalue, ih hc, map_cons, sum_cons, Int.cast_add, add_div]

variable (G) in
/-- Each leg is that of its own grain, and a positive line balances the legs where they need one. -/
structure Balanced (as : List α) (legs : List β) (contra : Option RealizedFxLine) : Prop where
  leg_eq : Forall₂ (fun a b => G.leg a = .ok b) as legs
  balance : G.total as legs + contra.elim 0 RealizedFxLine.value = 0
  none_iff : contra = none ↔ G.total as legs = 0
  pos : ∀ l ∈ contra, 0 < l.functional.value

include hG in
theorem column_balanced {out : List β × Option RealizedFxLine} (hlen : as.length < 2 ^ 64)
    (h : G.column as = .ok out) : G.Balanced as out.1 out.2 ∧
      ∀ as', as.Perm as' → ∃ legs, G.column as' = .ok (legs, out.2) ∧ legs.Perm out.1 := by
  have hsize : as.length ≤ 10 ^ 100 := hlen.le.trans (by norm_num)
  obtain ⟨c, net, hc, hlegs, hnet, hline⟩ := (column_iff hG hsize).1 h
  constructor
  · obtain ⟨hnone, hsome⟩ := lineOf_spec hline
    have htotal : G.total as out.1 = net.toRat :=
      (total_eq hG (fun a ha => (hc a ha).1) hlegs).trans hnet.symm
    refine ⟨hlegs, ?_, htotal ▸ hnone, fun l hl => (hsome l hl).2.1⟩
    rw [htotal]
    cases hcontra : out.2 with
    | none => simp [hnone.1 hcontra]
    | some l =>
      rw [Option.elim_some, RealizedFxLine.value]
      obtain ⟨-, -, ⟨hside, hvalue⟩ | ⟨hside, hvalue⟩⟩ := hsome l hcontra
      · simp [hside, hvalue]
      · simp [hside, hvalue, Side.flip]
  · intro as' hp
    obtain ⟨legs, hlegs', hperm⟩ := perm_comp_forall₂ hp.symm hlegs
    refine ⟨legs, (column_iff hG (hp.length_eq ▸ hsize)).2 ⟨c, net, fun a ha => ?_, hlegs', ?_,
      hline⟩, hperm⟩
    · exact hc a (hp.mem_iff.2 ha)
    · rwa [← (hp.map G.units).sum_eq]

end Grains

theorem closingGrains_lawful : closingGrains.Lawful fun _ => True where
  check_iff := by simp [closingGrains]
  line_currency {leg f l} hleg hl := by
    cases hl
    simp only [closingGrains, carriedRelief, ok_iffs] at hleg
    obtain ⟨-, -, -, -, -, -, -, -, hleg⟩ := hleg
    split at hleg
    · cases hleg
      rfl
    · simp only [proRata, ok_iffs, roundHalfEven_eq_ok_iff] at hleg
      obtain ⟨-, -, -, -, -, hcurrency, -⟩ := hleg
      exact hcurrency

theorem revaluationGrains_lawful : revaluationGrains.Lawful fun pos =>
    pos.carriedFunctional.currency = pos.remeasuredFunctional.currency where
  check_iff := by simp [revaluationGrains, RevaluationPosition.ensureSame]
  line_currency {pos movement l} hleg hl := by
    simp only [revaluationGrains, adjustLeg, ok_iffs] at hleg
    obtain ⟨-, -, -, -, -, -, delta, -, hline⟩ := hleg
    exact ((lineOf_spec hline).2 l hl).1

/-- **A revaluation and a close post a balanced functional column.**  Where they return, the signed
legs and the balancing line add up to zero; that line is there exactly when the legs do not balance
by themselves, and it is positive.  Every leg is that of its own grain, and another order of the
input gives the legs in that order and the same line. -/
theorem fx_columns_balance :
    (∀ positions out, positions.length < 2 ^ 64 → remeasure positions = .ok out →
      revaluationGrains.Balanced positions out.grainLines out.fxUnrealized ∧
      ∀ positions', positions.Perm positions' → ∃ out', remeasure positions' = .ok out' ∧
        out'.grainLines.Perm out.grainLines ∧ out'.fxUnrealized = out.fxUnrealized) ∧
    ∀ legs out, legs.length < 2 ^ 64 → realize legs = .ok out →
      closingGrains.Balanced legs out.legFunctional out.fxLine ∧
      ∀ legs', legs.Perm legs' → ∃ out', realize legs' = .ok out' ∧
        out'.legFunctional.Perm out.legFunctional ∧ out'.fxLine = out.fxLine := by
  constructor
  · intro positions out hlen h
    obtain ⟨column, hcolumn, rfl⟩ := map_eq_ok_iff.1 h
    obtain ⟨hbalanced, hperm⟩ := Grains.column_balanced revaluationGrains_lawful hlen hcolumn
    refine ⟨hbalanced, fun positions' hp => ?_⟩
    obtain ⟨legs, hcolumn', hlegs⟩ := hperm positions' hp
    exact ⟨⟨legs, column.2⟩, map_eq_ok_iff.2 ⟨_, hcolumn', rfl⟩, hlegs, rfl⟩
  · intro legs out hlen h
    obtain ⟨column, hcolumn, rfl⟩ := map_eq_ok_iff.1 h
    obtain ⟨hbalanced, hperm⟩ := Grains.column_balanced closingGrains_lawful hlen hcolumn
    refine ⟨hbalanced, fun legs' hp => ?_⟩
    obtain ⟨reliefs, hcolumn', hreliefs⟩ := hperm legs' hp
    exact ⟨⟨reliefs, column.2⟩, map_eq_ok_iff.2 ⟨_, hcolumn', rfl⟩, hreliefs, rfl⟩

/-- A receivable that rose by a dollar and a wallet that rose by three: the contra is a debit. -/
theorem fx_columns_balance_sample : ∃ out, remeasure [⟨.debit, .cents 400, .cents 500⟩,
      ⟨.credit, .cents 100, .cents 400⟩] = .ok out ∧
      out.fxUnrealized = some ⟨.debit, .cents 200⟩ ∧
      ∃ out', remeasure [⟨.credit, .cents 100, .cents 400⟩,
        ⟨.debit, .cents 400, .cents 500⟩] = .ok out' ∧
        out'.fxUnrealized = some ⟨.debit, .cents 200⟩ := by
  refine exists_ok_of
    (by decide +kernel) fun out hout hcontra => ⟨hcontra, ?_⟩
  obtain ⟨out', hout', -, hsame⟩ :=
    (fx_columns_balance.1 _ out (by decide) hout).2 _ (Perm.swap _ _ [])
  exact ⟨out', hout', hsame.trans hcontra⟩

end Gears.Ledger
