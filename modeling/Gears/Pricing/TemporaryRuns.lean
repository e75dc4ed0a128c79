import Gears.Pricing.PriceUnit
import Gears.Pricing.Windows

/-!
# Temporary prices over runs of units

The stored end of a temporary price is recomputed whenever a unit is applied: unless it is closed
explicitly, it is the next start of its chain.  So a temporary price ends on its date as long as
the chain has a start by that date behind it.

* `EndsOnTime` : the invariant; every approved temporary price ends by its date, and what ends it
  is an explicit end or another price.
* `LeavesEnds` : the units that do not cancel the last price ending a temporary one.
* `temporary_price_ends` : over runs of such units a temporary price is never in force from its
  date on.
* `cancelled_return_reopens` : cancelling the return of a pair leaves the promo in force past its
  date.
-/

namespace Gears.Pricing

open List

/-- `q` is of the chain of `p` and starts behind it, by the date. -/
def Price.StartsWithin (q p : Price) (date : Date) : Prop :=
  q.SameChain p ∧ p.effectiveFrom < q.effectiveFrom ∧ q.effectiveFrom ≤ date

instance (q p : Price) (date : Date) : Decidable (q.StartsWithin p date) :=
  inferInstanceAs (Decidable (_ ∧ _ ∧ _))

namespace EntryPrices

section

variable (L : EntryPrices)

/-- The unit cancels the price. -/
def CancelledBy (u : PriceUnit) (p : Price) : Prop :=
  p.id ∈ ((L.changesOf u).filter (·.isCancel)).map (·.target)

instance (u : PriceUnit) (p : Price) : Decidable (L.CancelledBy u p) :=
  inferInstanceAs (Decidable (_ ∈ _))

/-- Among the prices `chain`, whenever the unit cancels a price that starts behind a temporary
price by its date, it leaves another such price; a temporary price that is closed explicitly, or
that the unit itself names, needs none. -/
def LeavesEndsIn (u : PriceUnit) (chain : List Price) : Prop :=
  ∀ p ∈ chain, ∀ until_ ∈ p.temporaryUntil, p.closedExplicitly = false →
    p.id ∉ (L.changesOf u).map (·.target) →
    (∃ q ∈ chain, L.CancelledBy u q ∧ q.StartsWithin p until_) →
    ∃ q ∈ chain, ¬ L.CancelledBy u q ∧ q.StartsWithin p until_

instance (u : PriceUnit) (chain : List Price) : Decidable (L.LeavesEndsIn u chain) :=
  inferInstanceAs (Decidable (∀ p ∈ chain, ∀ until_ ∈ p.temporaryUntil, _ → _ → _ → _))

/-- The condition on a unit and the entry's prices before it: it leaves every temporary price of
the entry and of the unit an end. -/
def LeavesEnds (u : PriceUnit) : Prop :=
  ∀ proposed, L.proposedBy u = .ok proposed → L.LeavesEndsIn u (L.before proposed)

instance (u : PriceUnit) : Decidable (L.LeavesEnds u) :=
  match h : L.proposedBy u with
  | .ok proposed => decidable_of_iff (L.LeavesEndsIn u (L.before proposed))
      ⟨fun hc _ h' => (by cases h.symm.trans h'; exact hc), fun hall => hall proposed h⟩
  | .error _ => .isTrue fun _ h' => (by cases h.symm.trans h')

/-! ### The invariant -/

/-- What ends the price by the date: an explicit end, or another approved price of `chain`. -/
def HasEnd (chain : List Price) (p : Price) (date : Date) : Prop :=
  (p.closedExplicitly = true ∧ ∃ e ≤ date, p.effectiveTo = some e) ∨
    ∃ q ∈ chain, q.Approved ∧ q.StartsWithin p date

/-- Every approved temporary price ends by its date. -/
def EndsOnTime : Prop :=
  ∀ p ∈ L.prices, p.Approved → ∀ until_ ∈ p.temporaryUntil,
    (∃ e ≤ until_, p.effectiveTo = some e) ∧ HasEnd L.prices p until_

end

end EntryPrices

open EntryPrices

variable {L L' : EntryPrices} {u : PriceUnit} {drafts proposed changed : List Price}
  {a b p q : Price} {until_ : Date}

section

variable (h : Applied L u drafts proposed changed L')
include h

/-- A price of the chain that ends `b` by the date leaves one behind, when the unit leaves ends. -/
theorem Applied.exists_end (hcond : L.LeavesEnds u) (hb : b ∈ L.before proposed)
    (hu : b.temporaryUntil = some until_) (hopen : b.closedExplicitly = false)
    (hname : b.id ∉ (L.changesOf u).map (·.target))
    (hq : ∃ q ∈ L.before proposed, q.StartsWithin b until_) :
    ∃ q ∈ changed, q.Approved ∧ q.StartsWithin b until_ := by
  obtain ⟨q, hq, hcancel, hwithin⟩ :
      ∃ q ∈ L.before proposed, ¬ L.CancelledBy u q ∧ q.StartsWithin b until_ := by
    obtain ⟨q, hq, hwithin⟩ := hq
    by_cases hcancel : L.CancelledBy u q
    · exact hcond proposed h.proposedBy b hb until_ hu hopen hname ⟨q, hq, hcancel, hwithin⟩
    · exact ⟨q, hq, hcancel, hwithin⟩
  obtain ⟨a, hout⟩ := h.outcome q hcancel
  obtain ⟨hchain, hfrom, -, happ⟩ := h.outcome_dates hq hout
  refine ⟨a, (h.changed_iff a).2 ⟨q, hq, hout⟩, happ, ?_⟩
  obtain ⟨hsame, hlt, hle⟩ := hwithin
  exact ⟨⟨hchain.1.trans hsame.1, hchain.2.trans hsame.2⟩, by rwa [hfrom], by rwa [hfrom]⟩

theorem Applied.hasEnd_stored (hcond : L.LeavesEnds u) (hinv : L.EndsOnTime) (hb : b ∈ L.prices)
    (happ : b.Approved) (hu : b.temporaryUntil = some until_)
    (hout : Outcome (L.before proposed) (L.changesOf u) b a) : HasEnd changed a until_ := by
  obtain ⟨⟨e, he, hto⟩, hend⟩ := hinv b hb happ until_ hu
  have hbefore : b ∈ L.before proposed := mem_before_of_mem_prices hb happ
  rcases hout with ⟨hname, rfl⟩ | ⟨_, fin, -, hprice⟩
  · cases hexplicit : a.closedExplicitly with
    | true => exact .inl ⟨hexplicit, e, he, hto⟩
    | false =>
      obtain ⟨hexplicit', -⟩ | ⟨q, hq, hqapp, hwithin⟩ := hend
      · cases hexplicit.symm.trans hexplicit'
      · exact .inr (h.exists_end hcond hbefore hu hexplicit hname
          ⟨q, mem_before_of_mem_prices hq hqapp, hwithin⟩)
  · -- an end is not past the current end, which is by the date
    obtain ⟨price, hin, hid, -, -, hcurrent, rfl⟩ := endPrice_eq_ok hprice
    cases inj_on_of_nodup_map h.before_ids hin hbefore hid
    refine .inl ⟨rfl, fin, ?_, rfl⟩
    obtain ⟨hexplicit, -⟩ | ⟨q, hq, hqapp, hsame, hlt, hle⟩ := hend
    · obtain ⟨c, hc, hcur⟩ := currentEnd_le_explicit (L.before proposed) hexplicit hto
      exact (hcurrent c hcur).trans (hc.trans he)
    · have hne : q.id ≠ b.id := by
        intro heq
        cases inj_on_of_nodup_map h.before_ids
          (mem_before_of_mem_prices hq hqapp) hbefore heq
        exact lt_irrefl _ hlt
      obtain ⟨c, hc, hcur⟩ :=
        currentEnd_le_start (mem_before_of_mem_prices hq hqapp) hne hqapp hsame hlt
      exact (hcurrent c hcur).trans (hc.trans hle)

theorem Applied.hasEnd_proposed (hcond : L.LeavesEnds u) (hp : p ∈ proposed)
    (hu : p.temporaryUntil = some until_) :
    HasEnd changed { p with state := .approved } until_ := by
  have hids : (drafts.map Price.id).Nodup := (nodup_append.1 h.fresh).2.1
  obtain ⟨hlt, hto, hpair⟩ := closes_of_shiftSelection h.built hids h.shifted p hp until_ hu
  have hbefore : { p with state := .approved } ∈ L.before proposed :=
    mem_append_right _ (mem_map_of_mem hp)
  by_cases hexplicit : p.closedExplicitly = true
  · exact .inl ⟨hexplicit, until_, le_rfl, hto⟩
  have hopen : p.closedExplicitly = false := Bool.eq_false_iff.2 hexplicit
  refine .inr (h.exists_end hcond hbefore hu hopen (h.unnamed p hp) ?_)
  rcases hpaired : p.pairedPriceId with - | partner
  · -- no return: the pair rule found a price that starts on the date
    obtain ⟨q, hq, hsame, hfrom⟩ :=
      exists_start_of_temporaryIsCurrent (h.current p hp) hu hpaired hopen
    rcases hq with ⟨hq, -⟩ | hq
    · exact ⟨q, mem_append_left _ hq, hsame, hlt.trans_eq hfrom.symm, hfrom.le⟩
    · exact ⟨_, mem_append_right _ (mem_map_of_mem hq), hsame, hlt.trans_eq hfrom.symm, hfrom.le⟩
  · -- the return starts on the date
    obtain ⟨r, hr, -, hsame, hfrom⟩ := hpair partner hpaired
    exact ⟨_, mem_append_right _ (mem_map_of_mem hr), hsame, hlt.trans_eq hfrom.symm, hfrom.le⟩

end

/-- Normalisation cuts a price that has an end by the date at or before the date. -/
theorem Recut.ends_by (hrecut : Recut changed a p) (ha : a.Approved)
    (hend : HasEnd changed a until_) : ∃ e ≤ until_, p.effectiveTo = some e := by
  rcases hend with ⟨hexplicit, e, he, hto⟩ | ⟨q, hq, hqapp, hsame, hlt, hle⟩
  · obtain ⟨e', he', hto'⟩ := hrecut.explicit hexplicit e hto
    exact ⟨e', he'.trans he, hto'⟩
  · obtain ⟨e, he, hto⟩ := hrecut.successor ha q hq hqapp hsame hlt
    exact ⟨e, he.trans hle, hto⟩

/-- The step lemma: a unit that leaves ends keeps every temporary price ending on time. -/
theorem endsOnTime_apply (hinv : L.EndsOnTime) (hcond : L.LeavesEnds u)
    (hstep : L.apply u = .ok L') : L'.EndsOnTime := by
  rcases apply_eq_ok hstep with ⟨rfl, -⟩ | ⟨drafts, proposed, changed, h⟩
  · exact hinv
  intro p hp happ until_ hu
  obtain ⟨a, ha, hrecut⟩ := h.recut p hp happ
  obtain ⟨b, hb, hout⟩ := (h.changed_iff a).1 ha
  obtain ⟨-, -, huntil, haapp⟩ := h.outcome_dates hb hout
  have hwindow := hrecut.window_only
  have hau : a.temporaryUntil = some until_ :=
    (congrArg Price.temporaryUntil hwindow :).symm.trans hu
  have hend : HasEnd changed a until_ := by
    rcases mem_append.1 hb with hb | hb
    · obtain ⟨hb, hbapp⟩ := mem_filter.1 hb
      exact h.hasEnd_stored hcond hinv hb (by simpa using hbapp) (huntil.symm.trans hau) hout
    · obtain ⟨r, hr, rfl⟩ := mem_map.1 hb
      obtain rfl := (outcome_of_target (p := { r with state := .approved })
        (h.unnamed r hr)).1 hout
      exact h.hasEnd_proposed hcond hr hau
  obtain ⟨e, he, hto⟩ := hrecut.ends_by haapp hend
  refine ⟨⟨e, he, hto⟩, ?_⟩
  rcases hend with ⟨hexplicit, -⟩ | ⟨q, hq, hqapp, hsame, hlt, hle⟩
  · exact .inl ⟨(congrArg Price.closedExplicitly hwindow :).trans hexplicit, e, he, hto⟩
  · -- the price that ends it is approved in the new state too
    obtain ⟨q', hq', hqrecut⟩ := h.kept q hq
    have hqwindow := hqrecut.window_only
    have hfrom : q'.effectiveFrom = q.effectiveFrom :=
      (congrArg Price.effectiveFrom hqwindow :)
    have hpfrom : p.effectiveFrom = a.effectiveFrom := (congrArg Price.effectiveFrom hwindow :)
    refine .inr ⟨q', hq', (congrArg Price.state hqwindow :).trans hqapp, ⟨?_, ?_⟩, ?_, ?_⟩
    · exact (congrArg Price.priceBookEntryId hqwindow :).trans
        (hsame.1.trans (congrArg Price.priceBookEntryId hwindow :).symm)
    · exact (congrArg Price.dimValue hqwindow :).trans
        (hsame.2.trans (congrArg Price.dimValue hwindow :).symm)
    · rwa [hfrom, hpfrom]
    · rwa [hfrom]

/-! ### Runs -/

theorem endsOnTime_empty (id : Uuid) : (empty id).EndsOnTime := by
  intro p hp
  cases hp

/-- **A temporary price does not outlive its date** over any run of units that leave every
temporary price an end. -/
theorem temporary_price_ends {id : Uuid} {units : List PriceUnit}
    (hrun : Machine.run apply (empty id) units = .ok L)
    (hends : Machine.AllSteps apply LeavesEnds (empty id) units)
    {date : Date} (hp : p.temporaryUntil = some until_) (hdate : until_ ≤ date) (entry : Uuid)
    (dim : Option String) :
    ownVersionAt L.prices entry date dim ≠ some p ∧ versionAt L.prices entry date dim ≠ some p := by
  have hinv : L.EndsOnTime :=
    Machine.run_guarded (fun L u L' hi hc h => endsOnTime_apply hi hc h) hrun hends
      (endsOnTime_empty id)
  have hout (hmem : p ∈ L.prices) (happ : p.Approved) : ¬ p.InForceOn date := by
    rintro ⟨-, hto⟩
    obtain ⟨⟨e, he, heq⟩, -⟩ := hinv p hmem happ until_ hp
    exact absurd (hto e heq) (not_lt.2 (he.trans hdate))
  constructor
  · intro h
    obtain ⟨hmem, -, -, happ, hforce⟩ := ownVersionAt_eq_some h
    exact hout hmem happ hforce
  · intro h
    obtain ⟨hmem, happ, hforce⟩ := versionAt_eq_some h
    exact hout hmem happ hforce

/-- What judging the sample entry reads. -/
def sampleReads : EntryReads where
  inBook := true
  referenceState := .confirmed
  bookArchived := false
  meterRefused := false
  kind := .recurring
  values := none
  currency := "USD"
  current := some .usd
  refusesMinimumFee := false
  metering := fun _ => .ok ⟨none, none⟩
  pending := []
  bound := []

/-- The unit that opens the sample chain. -/
def sampleOpening : PriceUnit where
  drafts := [.plain (samplePrice 1 1 30 0)]
  items := [1]
  changes := []
  commonEffectiveDate := none
  today := sampleDate 0
  reads := sampleReads

/-- The unit of a sample promo from day 10 to day 20 and its return. -/
def samplePromo : PriceUnit where
  drafts := [.temporary [{ samplePrice 1 1 30 0 with state := .approved }]
    (samplePrice 2 2 20 10) (sampleDate 20) 3]
  items := [2, 3]
  changes := []
  commonEffectiveDate := none
  today := sampleDate 1
  reads := sampleReads

/-- A unit of one change of the sample chain. -/
def sampleChange (change : Change) (today : ℕ) : PriceUnit where
  drafts := []
  items := []
  changes := [change]
  commonEffectiveDate := none
  today := sampleDate today
  reads := sampleReads

theorem temporary_price_ends_sample :
    ∃ L p, Machine.run apply (empty 100) [sampleOpening, samplePromo] =
        .ok L ∧ p ∈ L.prices ∧ p.temporaryUntil = some (sampleDate 20) ∧
      ownVersionAt L.prices 100 (sampleDate 15) none = some p ∧
      ownVersionAt L.prices 100 (sampleDate 20) none ≠ some p ∧
      versionAt L.prices 100 (sampleDate 20) none ≠ some p := by
  simp only [exists_and_left]
  refine Except.exists_ok_of (P := fun L => ∃ p, ownVersionAt L.prices 100 (sampleDate 15) none =
    some p ∧
    p.temporaryUntil = some (sampleDate 20)) (by decide +kernel) ?_
  rintro L hL ⟨p, hforce, hp⟩
  obtain ⟨hown, hversion⟩ := temporary_price_ends hL (by decide +kernel) hp le_rfl 100 none
  exact ⟨p, (ownVersionAt_eq_some hforce).1, hp, hforce, hown, hversion⟩

/-- Cancelling the return re-opens the promo: it is in force on and after its date. -/
theorem cancelled_return_reopens : ∃ L p, Machine.run apply (empty 100)
        [sampleOpening, samplePromo, sampleChange (.cancel 4 3) 5] = .ok L ∧
      p.temporaryUntil = some (sampleDate 20) ∧
      ownVersionAt L.prices 100 (sampleDate 25) none = some p ∧
      versionAt L.prices 100 (sampleDate 25) none = some p := by
  simp only [exists_and_left]
  refine Except.exists_ok_of (P := fun L => ∃ p, ownVersionAt L.prices 100 (sampleDate 25) none =
    some p ∧
    p.temporaryUntil = some (sampleDate 20)) (by decide +kernel) ?_
  rintro L - ⟨p, hforce, hp⟩
  exact ⟨p, hp, hforce, by rw [versionAt, hforce, Option.some_or]⟩

end Gears.Pricing
