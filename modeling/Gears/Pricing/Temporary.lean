import Gears.Pricing.Chain

/-!
# Temporary prices

A temporary price ends on its own date.  On a chain that has a price in force on that date it is
drafted as a pair: the promo and a return that starts on the end with the money of that price.

* `temporary` : build a temporary price, with its return where there is something to return to.
* `temporaryIsCurrent`, `temporaryHolding`, `startSpanned` : the rules of temporary windows.
* `shiftSelection` : move a selection to a common start; a return moves with its promo.
* `Built` : what drafts built by `temporary` look like; `Closes` : what is left of it after a
  shift (`closes_of_shiftSelection`).
-/

namespace Gears.Pricing

open Money Except List

variable {common : Option Date}

/-- A price's own end: a temporary price's date, else an explicitly closed price's end. -/
def Price.ownEnd (p : Price) : Option Date :=
  p.temporaryUntil.or (p.effectiveTo.filter fun _ => p.closedExplicitly)

/-- The version number after, within 32 bits. -/
def nextVersion (versionNo : ℤ) : Except RuleError ℤ := do
  rejectIf (2 ^ 31 - 1 ≤ versionNo) ⟨"VERSION_EXHAUSTED"⟩
  pure (versionNo + 1)

/-- The return of a promo to the price `back`: its money, until its own end. -/
def Price.returnTo (promo back : Price) (until_ : Date) (returnId : Uuid) (versionNo : ℤ) : Price :=
  { promo with
    id := returnId
    versionNo := versionNo
    effectiveFrom := until_
    effectiveTo := back.ownEnd
    temporaryUntil := none
    closedExplicitly := back.ownEnd.isSome
    price := back.price
    minFee := back.minFee
    returnOfPriceId := some back.id
    pairedPriceId := some promo.id }

section

variable (prices : List Price)

/-- A temporary price against the prices of its chain: a pair when a price is in force on the end,
the promo alone when the next price starts exactly there, and an explicitly closed price when
nothing is in force. -/
def temporary (promo : Price) (until_ : Date) (returnId : Uuid) :
    Except RuleError (List Price) := do
  rejectIf (until_ ≤ promo.effectiveFrom) ⟨"WINDOW_END_INVALID"⟩
  let promo := { promo with
    temporaryUntil := some until_, pairedPriceId := none, returnOfPriceId := none,
    effectiveTo := some until_ }
  match ownVersionAt prices promo.priceBookEntryId until_ promo.dimValue with
  | none => pure [{ promo with closedExplicitly := true }]
  | some back =>
    if back.effectiveFrom = until_ then pure [{ promo with closedExplicitly := false }] else do
      let versionNo ← nextVersion promo.versionNo
      pure [{ promo with pairedPriceId := some returnId, closedExplicitly := false },
        promo.returnTo back until_ returnId versionNo]

/-- Equality of optional price bodies. -/
def sameMoney : Option PriceData → Option PriceData → Bool
  | none, none => true
  | some a, some b => a.same b
  | _, _ => false

/-- The chain a temporary price is judged on: the approved prices and the unit's other prices of
its entry. -/
def futureWithout (temporary : Price) (unit : List Price) : List Price :=
  prices ++ (unit.filter fun r => r.id ≠ temporary.id ∧ some r.id ≠ temporary.pairedPriceId ∧
    r.priceBookEntryId = temporary.priceBookEntryId).map fun r => { r with state := .approved }

/-- The return `r` restores the price `b` in force on the end: `b` itself, or the price `b` is
a return to when `b` is of the same unit. -/
def restores (unit : List Price) (r b : Price) : Bool :=
  (if unit.any (·.id = b.id) then
    b.returnOfPriceId.isSome && b.returnOfPriceId == r.returnOfPriceId
  else r.returnOfPriceId == some b.id) &&
    sameMoney r.price b.price && sameOptional r.minFee b.minFee

/-- A temporary price still matches its chain as it will stand once the unit applies. -/
def temporaryIsCurrent (temporary : Price) (unit : List Price) : Bool :=
  match temporary.temporaryUntil with
  | none => true
  | some until_ =>
    let back := ownVersionAt (normalizeWindows (futureWithout prices temporary unit))
      temporary.priceBookEntryId until_ temporary.dimValue
    match temporary.pairedPriceId with
    | some partner =>
      match unit.find? (·.id = partner), back with
      | some r, some b => restores unit r b
      | _, _ => false
    | none =>
      match back with
      | some b => b.effectiveFrom == until_
      | none => temporary.closedExplicitly

/-- The other prices of a price's chain. -/
def chainOf (price : Price) (others : List Price) : List Price :=
  others.filter fun o => o.id ≠ price.id ∧ o.SameChain price

/-- The temporary price whose window holds the start of a price that is neither temporary nor a
return. -/
def temporaryHolding (price : Price) (others : List Price) : Option Price :=
  if price.temporaryUntil.isSome || price.returnOfPriceId.isSome then none else
    (chainOf price others).find? fun o => o.temporaryUntil.any fun until_ =>
      o.effectiveFrom ≤ price.effectiveFrom ∧ price.effectiveFrom < until_

/-- The price of the chain that starts strictly inside a price's temporary window. -/
def startSpanned (price : Price) (others : List Price) : Option Price :=
  price.temporaryUntil.bind fun until_ =>
    (chainOf price others).find? fun o =>
      price.effectiveFrom < o.effectiveFrom ∧ o.effectiveFrom < until_

/-- Move an optional date. -/
def moveBy (days : ℤ) : Option Date → Except RuleError (Option Date)
  | none => pure none
  | some date =>
    match date.checkedAdd days with
    | some moved => pure (some moved)
    | none => throw ⟨"WINDOW_END_INVALID"⟩

/-- Shift a price and its explicit or temporary end by the same duration. -/
def shift (price : Price) (newFrom : Date) : Except RuleError Price := do
  let days := newFrom.daysSince price.effectiveFrom
  let temporaryUntil ← moveBy days price.temporaryUntil
  let effectiveTo ← moveBy days price.effectiveTo
  pure { price with effectiveFrom := newFrom, temporaryUntil, effectiveTo }

/-- The promo of a return half, when it is in the selection. -/
def promoOf (r : Price) : Option Price :=
  if r.returnOfPriceId.isSome then
    r.pairedPriceId.bind fun partner => prices.find? (·.id = partner)
  else none

/-- One price of a selection moved to the common date: a return moves by its promo's
displacement, and keeps an end it is closed at. -/
def shiftOne (date : Date) (r : Price) : Except RuleError Price :=
  match promoOf prices r with
  | some promo =>
    match r.effectiveFrom.checkedAdd (date.daysSince promo.effectiveFrom) with
    | none => throw ⟨"WINDOW_START_INVALID"⟩
    | some start => do
      let moved ← shift r start
      pure (if r.closedExplicitly then { moved with effectiveTo := r.effectiveTo } else moved)
  | none => shift r date

/-- Apply a common effective date to a selection. -/
def shiftSelection : Option Date → Except RuleError (List Price)
  | none => pure prices
  | some date => prices.mapM (shiftOne prices date)

end

/-- Temporary drafts as they are built: each ends on its own date, and a paired one has a return
that starts there. -/
def Built (drafts : List Price) : Prop :=
  ∀ p ∈ drafts, ∀ u ∈ p.temporaryUntil,
    p.effectiveFrom < u ∧ p.effectiveTo = some u ∧ p.returnOfPriceId = none ∧
      ∀ partner ∈ p.pairedPriceId, ∃ r ∈ drafts, r.id = partner ∧ r.SameChain p ∧
        r.effectiveFrom = u ∧ r.returnOfPriceId.isSome ∧ r.pairedPriceId = some p.id

variable {prices drafts proposed unit : List Price} {p q r : Price} {u date until_ : Date}
  {returnId : Uuid}

theorem Built.select {selected : List Price} (h : Built drafts) (hsub : ∀ p ∈ selected, p ∈ drafts)
    (hwhole : ∀ p ∈ selected, ∀ r ∈ drafts, p.pairedPriceId = some r.id → r.SameChain p →
      r ∈ selected) : Built selected := by
  intro p hp u hu
  obtain ⟨hlt, hto, hret, hpair⟩ := h p (hsub p hp) u hu
  refine ⟨hlt, hto, hret, fun partner hpartner => ?_⟩
  obtain ⟨r, hr, rfl, hchain, hrest⟩ := hpair partner hpartner
  exact ⟨r, hwhole p hp r hr hpartner hchain, rfl, hchain, hrest⟩

theorem Built.flatten {groups : List (List Price)} (h : ∀ g ∈ groups, Built g) :
    Built groups.flatten := by
  intro p hp u hu
  obtain ⟨g, hg, hp⟩ := mem_flatten.1 hp
  obtain ⟨hlt, hto, hret, hpair⟩ := h g hg p hp u hu
  refine ⟨hlt, hto, hret, fun partner hpartner => ?_⟩
  -- a draft and its partner are written together
  obtain ⟨r, hr, hfacts⟩ := hpair partner hpartner
  exact ⟨r, mem_flatten.2 ⟨g, hg, hr⟩, hfacts⟩

theorem Built.withState (h : Built drafts) (state : PriceState) :
    Built (drafts.map fun r => { r with state := state }) := by
  intro q hq u hu
  obtain ⟨p, hp, rfl⟩ := mem_map.1 hq
  obtain ⟨hlt, hto, hret, hpair⟩ := h p hp u hu
  refine ⟨hlt, hto, hret, fun partner hpartner => ?_⟩
  obtain ⟨r, hr, hfacts⟩ := hpair partner hpartner
  exact ⟨_, mem_map_of_mem hr, hfacts⟩

/-- **`temporary` builds whole pairs.** -/
theorem built_temporary {built : List Price}
    (h : temporary prices p until_ returnId = .ok built) : Built built := by
  simp only [temporary, ok_iffs, exists_const, not_le] at h
  obtain ⟨hlt, h⟩ := h
  split at h
  · -- nothing is in force on the end
    cases h
    intro q hq u hu
    cases mem_singleton.1 hq
    cases hu
    exact ⟨hlt, rfl, rfl, by rintro _ ⟨⟩⟩
  · split at h
    · -- the next price starts on the end
      cases h
      intro q hq u hu
      cases mem_singleton.1 hq
      cases hu
      exact ⟨hlt, rfl, rfl, by rintro _ ⟨⟩⟩
    · simp only [ok_iffs] at h
      obtain ⟨versionNo, -, rfl⟩ := h
      intro q hq u hu
      simp only [mem_cons, not_mem_nil, or_false] at hq
      rcases hq with rfl | rfl
      · cases hu
        refine ⟨hlt, rfl, rfl, ?_⟩
        rintro _ ⟨⟩
        exact ⟨_, mem_cons_of_mem _ (mem_singleton_self _), rfl, ⟨rfl, rfl⟩, rfl, rfl, rfl⟩
      · cases hu

/-! ### What shifting keeps -/

/-- Temporary prices as they are proposed: each ends on its own date, and a paired one has its
partner start there. -/
def Closes (proposed : List Price) : Prop :=
  ∀ p ∈ proposed, ∀ u ∈ p.temporaryUntil, p.effectiveFrom < u ∧ p.effectiveTo = some u ∧
      ∀ partner ∈ p.pairedPriceId, ∃ r ∈ proposed, r.id = partner ∧ r.SameChain p ∧
        r.effectiveFrom = u

/-- `q` is `p` on other dates. -/
def Moved (p q : Price) : Prop :=
  q = { p with
    effectiveFrom := q.effectiveFrom, temporaryUntil := q.temporaryUntil,
    effectiveTo := q.effectiveTo }

theorem map_julianDay_of_moveBy {days : ℤ} {d d' : Option Date} (h : moveBy days d = .ok d') :
    d'.map Date.julianDay = d.map fun d => d.julianDay + days := by
  cases d with
  | none =>
    cases h
    rfl
  | some d =>
    rw [moveBy] at h
    split at h
    · rename_i moved hmoved
      cases h
      simp [Date.julianDay_of_checkedAdd hmoved]
    · cases h

theorem shift_eq_ok (h : shift p date = .ok q) : Moved p q ∧ q.effectiveFrom = date ∧
      q.temporaryUntil.map Date.julianDay =
        p.temporaryUntil.map (fun d => d.julianDay + date.daysSince p.effectiveFrom) ∧
      q.effectiveTo.map Date.julianDay =
        p.effectiveTo.map (fun d => d.julianDay + date.daysSince p.effectiveFrom) := by
  simp only [shift, ok_iffs] at h
  obtain ⟨untilMoved, huntil, toMoved, hto, rfl⟩ := h
  exact ⟨rfl, rfl, map_julianDay_of_moveBy huntil, map_julianDay_of_moveBy hto⟩

theorem Moved.sameChain (h : Moved p q) : q.SameChain p :=
  ⟨(congrArg Price.priceBookEntryId h :), (congrArg Price.dimValue h :)⟩

theorem shiftOne_eq_ok (h : shiftOne prices date r = .ok q) :
    Moved r q ∧ (r.temporaryUntil = none → q.temporaryUntil = none) ∧
      (promoOf prices r = none → shift r date = .ok q) ∧
      ∀ promo ∈ promoOf prices r, q.effectiveFrom.julianDay =
          r.effectiveFrom.julianDay + date.daysSince promo.effectiveFrom := by
  rw [shiftOne] at h
  split at h
  · rename_i promo hpromo
    split at h
    · cases h
    · rename_i start hstart
      simp only [ok_iffs] at h
      obtain ⟨moved, hshift, rfl⟩ := h
      obtain ⟨hmoved, hfrom, huntil, -⟩ := shift_eq_ok hshift
      have hday := Date.julianDay_of_checkedAdd hstart
      have hnone (hr : r.temporaryUntil = none) : moved.temporaryUntil = none := by
        rw [hr] at huntil
        exact Option.map_eq_none_iff.1 huntil
      -- a return that keeps its end moves all the same
      refine ⟨?_, ?_, fun h => absurd (hpromo.symm.trans h) (by simp), fun promo' h => ?_⟩
      · split
        · rw [hmoved]
          rfl
        · exact hmoved
      · intro hr
        split <;> exact hnone hr
      · cases hpromo.symm.trans h
        split <;> exact (congrArg Date.julianDay hfrom).trans hday
  · rename_i hpromo
    obtain ⟨hmoved, -, huntil, -⟩ := shift_eq_ok h
    refine ⟨hmoved, fun hr => ?_, fun _ => h, fun promo h => absurd (hpromo.symm.trans h) (by simp)⟩
    rw [hr] at huntil
    exact Option.map_eq_none_iff.1 huntil

theorem moved_of_shiftSelection (h : shiftSelection drafts common = .ok proposed) :
    Forall₂ Moved drafts proposed := by
  cases common with
  | none =>
    cases h
    exact forall₂_same.2 fun p _ => rfl
  | some date => exact (mapM_eq_ok_iff.1 h).imp fun _ _ hq => (shiftOne_eq_ok hq).1

/-- **Shifting keeps every temporary price closed**: promo and return move together. -/
theorem closes_of_shiftSelection (hbuilt : Built drafts) (hids : (drafts.map Price.id).Nodup)
    (h : shiftSelection drafts common = .ok proposed) : Closes proposed := by
  cases common with
  | none =>
    cases h
    intro p hp u hu
    obtain ⟨hlt, hto, -, hpair⟩ := hbuilt p hp u hu
    refine ⟨hlt, hto, fun partner hpartner => ?_⟩
    obtain ⟨r, hr, hid, hchain, hfrom, -⟩ := hpair partner hpartner
    exact ⟨r, hr, hid, hchain, hfrom⟩
  | some date =>
    have hall := mapM_eq_ok_iff.1 h
    intro q hq u' hu'
    obtain ⟨p, hp, hpq⟩ := hall.flip.exists_of_mem_left hq
    obtain ⟨hmoved, hnone, hpromo, -⟩ := shiftOne_eq_ok hpq
    -- only a temporary draft gives a temporary price, and it is no return
    obtain ⟨u, hu⟩ : ∃ u, p.temporaryUntil = some u := by
      cases hu : p.temporaryUntil with
      | none => cases (hnone hu).symm.trans hu'
      | some u => exact ⟨u, rfl⟩
    obtain ⟨hlt, hto, hret, hpair⟩ := hbuilt p hp u hu
    obtain ⟨-, hfrom, huntil, htoMoved⟩ :=
      shift_eq_ok (hpromo (by simp [promoOf, hret]))
    have hday : u'.julianDay = u.julianDay + date.daysSince p.effectiveFrom := by
      rw [hu, show q.temporaryUntil = some u' from hu'] at huntil
      exact Option.some.inj huntil
    refine ⟨?_, ?_, fun partner hpartner => ?_⟩
    · rw [hfrom, Date.lt_iff, hday, Date.daysSince]
      have := Date.lt_iff.1 hlt
      omega
    · rw [hto] at htoMoved
      obtain ⟨e, he, heday⟩ := Option.map_eq_some_iff.1 htoMoved
      rw [he, Date.julianDay_injective (heday.trans hday.symm)]
    · -- the return finds its promo in the selection and moves by the same days
      have hpaired : p.pairedPriceId = some partner :=
        (congrArg Price.pairedPriceId hmoved).symm.trans hpartner
      obtain ⟨r, hr, hid, hchain, hrfrom, hrret, hrpair⟩ := hpair partner hpaired
      obtain ⟨r', hr', hrr'⟩ := hall.exists_of_mem_left hr
      obtain ⟨hrmoved, -, -, hrpromo⟩ := shiftOne_eq_ok hrr'
      have hfind : promoOf drafts r = some p := by
        rw [promoOf, if_pos hrret, hrpair]
        exact List.find?_key hids hp
      refine ⟨r', hr', (congrArg Price.id hrmoved).trans hid, ?_, ?_⟩
      · have h₁ := hrmoved.sameChain
        have h₂ := hmoved.sameChain
        exact ⟨h₁.1.trans (hchain.1.trans h₂.1.symm), h₁.2.trans (hchain.2.trans h₂.2.symm)⟩
      · apply Date.julianDay_injective
        rw [hrpromo p hfind, hrfrom, hday]

/-- A temporary price without a return and without an explicit end passes the rule only when a
price of its chain starts on its end. -/
theorem exists_start_of_temporaryIsCurrent (h : temporaryIsCurrent prices p unit = true)
    (hu : p.temporaryUntil = some u) (hpair : p.pairedPriceId = none)
    (hopen : p.closedExplicitly = false) :
    ∃ b, ((b ∈ prices ∧ b.Approved) ∨ b ∈ unit) ∧ b.SameChain p ∧ b.effectiveFrom = u := by
  simp only [temporaryIsCurrent, hu, hpair] at h
  split at h
  · rename_i b hb
    obtain ⟨hmem, hentry, hdim, happroved, -⟩ := ownVersionAt_eq_some hb
    -- normalising recuts ends only: the price starts there before it, too
    obtain ⟨a, ha, hrecut⟩ := (normalizeWindows_recut _).flip.exists_of_mem_left hmem
    have hwindow := hrecut.window_only
    have hfrom : a.effectiveFrom = u :=
      (congrArg Price.effectiveFrom hwindow :).symm.trans (eq_of_beq h)
    have hchain : a.SameChain p :=
      ⟨(congrArg Price.priceBookEntryId hwindow :).symm.trans hentry,
        (congrArg Price.dimValue hwindow :).symm.trans hdim⟩
    have hstate : a.Approved := (congrArg Price.state hwindow :).symm.trans happroved
    rcases mem_append.1 ha with ha | ha
    · exact ⟨a, .inl ⟨ha, hstate⟩, hchain, hfrom⟩
    · obtain ⟨r, hr, rfl⟩ := mem_map.1 ha
      exact ⟨r, .inr (mem_filter.1 hr).1, hchain, hfrom⟩
  · rw [hopen] at h
    cases h

end Gears.Pricing
