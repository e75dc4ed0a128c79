import Gears.Pricing.Resolve
import Gears.Pricing.TemporaryRuns

/-!
# Ended prices over runs of units

An end closes an approved price explicitly, and no later unit moves that end back.  What a pinned
consumer is bound to is read from another field, the price's own end, which for a temporary price
is the date it was drafted with.

* `EntryPrices.WellKept` : ids are distinct, and so are the starts of a chain.
* `EntryPrices.EndedAt` : the price stays closed at the end.
* `ended_price_binds_no_one_iff` : an ended price stops binding everyone exactly when it is not a
  temporary price with a date past the end.
* `ended_promo_still_binds` : a promo ended early still binds its pinned consumers.
-/

namespace Gears.Pricing

open Except List

namespace EntryPrices

/-- The rows have distinct ids, and the approved prices of a chain distinct starts. -/
structure WellKept (L : EntryPrices) : Prop where
  ids : (L.prices.map (·.id)).Nodup
  starts : ∀ p ∈ L.prices, ∀ q ∈ L.prices, p.Approved → q.Approved → q.SameChain p →
    q.effectiveFrom = p.effectiveFrom → q = p

/-- The price `target`, which starts on `start` and was drafted with the date `until_`, is closed
at `fin` or before as long as it is approved. -/
structure EndedAt (L : EntryPrices) (target : Uuid) (fin start : Date) (until_ : Option Date) :
    Prop where
  stored : target ∈ L.prices.map (·.id)
  closed : ∀ q ∈ L.prices, q.id = target → q.Approved →
    q.closedExplicitly = true ∧ (∃ e ≤ fin, q.effectiveTo = some e) ∧
      q.effectiveFrom = start ∧ q.temporaryUntil = until_

end EntryPrices

open EntryPrices

variable {L L' : EntryPrices} {u : PriceUnit} {drafts proposed changed : List Price}
  {a b c d p q : Price} {target : Uuid} {fin start : Date} {until_ : Option Date}

theorem Applied.nodup_ids (h : Applied L u drafts proposed changed L') :
    (L'.prices.map (·.id)).Nodup := by
  rw [h.ids, map_id_of_moved (moved_of_shiftSelection h.shifted)]
  exact h.fresh

theorem Applied.before_starts (h : Applied L u drafts proposed changed L') (hinv : L.WellKept)
    (hb : b ∈ L.before proposed) (hd : d ∈ L.before proposed) (hchain : d.SameChain b)
    (hfrom : d.effectiveFrom = b.effectiveFrom) : d = b := by
  have hids := map_id_of_moved (moved_of_shiftSelection h.shifted)
  -- a proposed price takes no approved start
  have hcross (s r : Price) (hs : s ∈ L.approved) (hr : r ∈ proposed) (hsame : s.SameChain r)
      (heq : s.effectiveFrom = r.effectiveFrom) : False := by
    have hsid := mem_map_of_mem (f := (·.id)) (mem_filter.1 hs).1
    have hrid : r.id ∈ drafts.map (·.id) := hids ▸ mem_map_of_mem hr
    exact h.untaken r hr ⟨s, hs, (nodup_append.1 h.fresh).2.2 _ hsid _ hrid, hsame,
      by simpa using (mem_filter.1 hs).2, heq⟩
  rcases mem_append.1 hb with hb | hb <;> rcases mem_append.1 hd with hd | hd
  · obtain ⟨hbL, hbapp⟩ := mem_filter.1 hb
    obtain ⟨hdL, hdapp⟩ := mem_filter.1 hd
    exact hinv.starts b hbL d hdL (by simpa using hbapp) (by simpa using hdapp) hchain hfrom
  · obtain ⟨r, hr, rfl⟩ := mem_map.1 hd
    exact (hcross b r hb hr ⟨hchain.1.symm, hchain.2.symm⟩ hfrom.symm).elim
  · obtain ⟨r, hr, rfl⟩ := mem_map.1 hb
    exact (hcross d r hd hr hchain hfrom).elim
  · obtain ⟨r, hr, rfl⟩ := mem_map.1 hb
    obtain ⟨s, hs, rfl⟩ := mem_map.1 hd
    rw [inj_on_of_nodup_map h.starts hs hr (Prod.ext hchain.2 hfrom)]

theorem wellKept_apply (hinv : L.WellKept) (hstep : L.apply u = .ok L') : L'.WellKept := by
  rcases apply_eq_ok hstep with ⟨rfl, -⟩ | ⟨drafts, proposed, changed, h⟩
  · exact hinv
  refine ⟨h.nodup_ids, fun p hp q hq hpapp hqapp hchain hfrom => ?_⟩
  obtain ⟨a, ha, hpa⟩ := h.recut p hp hpapp
  obtain ⟨c, hc, hqc⟩ := h.recut q hq hqapp
  obtain ⟨b, hb, hout⟩ := (h.changed_iff a).1 ha
  obtain ⟨d, hd, hout'⟩ := (h.changed_iff c).1 hc
  obtain ⟨hab, hafrom, -⟩ := h.outcome_dates hb hout
  obtain ⟨hcd, hcfrom, -⟩ := h.outcome_dates hd hout'
  have hpw := hpa.window_only
  have hqw := hqc.window_only
  have hchain' : c.SameChain a :=
    ⟨(congrArg Price.priceBookEntryId hqw :).symm.trans
        (hchain.1.trans (congrArg Price.priceBookEntryId hpw :)),
      (congrArg Price.dimValue hqw :).symm.trans
        (hchain.2.trans (congrArg Price.dimValue hpw :))⟩
  have hfrom' : c.effectiveFrom = a.effectiveFrom :=
    (congrArg Price.effectiveFrom hqw :).symm.trans
      (hfrom.trans (congrArg Price.effectiveFrom hpw :))
  have hbd : d = b := h.before_starts hinv hb hd
    ⟨hcd.1.symm.trans (hchain'.1.trans hab.1), hcd.2.symm.trans (hchain'.2.trans hab.2)⟩
    (hcfrom.symm.trans (hfrom'.trans hafrom))
  refine inj_on_of_nodup_map h.nodup_ids hq hp ?_
  calc q.id = c.id := (congrArg Price.id hqw :)
    _ = d.id := id_of_outcome hout'
    _ = b.id := by rw [hbd]
    _ = a.id := (id_of_outcome hout).symm
    _ = p.id := (congrArg Price.id hpw :).symm

theorem wellKept_empty (id : Uuid) : (empty id).WellKept :=
  ⟨nodup_nil, fun p hp => by cases hp⟩

/-- An approved row of the new state under an id the entry had comes from its approved row. -/
theorem Applied.origin (h : Applied L u drafts proposed changed L') (hp : p ∈ L'.prices)
    (happ : p.Approved) (hid : p.id ∈ L.prices.map (·.id)) :
    ∃ b a, b ∈ L.prices ∧ b.Approved ∧ b.id = p.id ∧ Recut changed a p ∧
      b ∈ L.before proposed ∧ Outcome (L.before proposed) (L.changesOf u) b a := by
  obtain ⟨a, ha, hrecut⟩ := h.recut p hp happ
  obtain ⟨b, hb, hout⟩ := (h.changed_iff a).1 ha
  have hbid : b.id = p.id :=
    (id_of_outcome hout).symm.trans (congrArg Price.id hrecut.window_only :).symm
  refine ⟨b, a, ?_, approved_of_mem_before hb, hbid, hrecut, hb, hout⟩
  rcases mem_append.1 hb with hb | hb
  · exact (mem_filter.1 hb).1
  · obtain ⟨r, hr, rfl⟩ := mem_map.1 hb
    have hrid : r.id ∈ drafts.map (·.id) :=
      map_id_of_moved (moved_of_shiftSelection h.shifted) ▸ mem_map_of_mem hr
    exact absurd rfl ((nodup_append.1 h.fresh).2.2 _ hid _ (hbid ▸ hrid))

theorem Recut.closed (hrecut : Recut changed a p) (hexplicit : a.closedExplicitly = true)
    (hto : ∃ e ≤ fin, a.effectiveTo = some e) :
    p.closedExplicitly = true ∧ (∃ e ≤ fin, p.effectiveTo = some e) ∧
      p.effectiveFrom = a.effectiveFrom ∧ p.temporaryUntil = a.temporaryUntil := by
  have hwindow := hrecut.window_only
  obtain ⟨e, he, hto⟩ := hto
  obtain ⟨e', he', hto'⟩ := hrecut.explicit hexplicit e hto
  exact ⟨(congrArg Price.closedExplicitly hwindow :).trans hexplicit, ⟨e', he'.trans he, hto'⟩,
    (congrArg Price.effectiveFrom hwindow :), (congrArg Price.temporaryUntil hwindow :)⟩

theorem endedAt_apply (hended : L.EndedAt target fin start until_)
    (hstep : L.apply u = .ok L') : L'.EndedAt target fin start until_ := by
  rcases apply_eq_ok hstep with ⟨rfl, -⟩ | ⟨drafts, proposed, changed, h⟩
  · exact hended
  refine ⟨by rw [h.ids]; exact mem_append_left _ hended.stored, ?_⟩
  rintro p hp rfl happ
  obtain ⟨b, a, hb, hbapp, hid, hrecut, hbefore, hout⟩ := h.origin hp happ hended.stored
  obtain ⟨hexplicit, ⟨e, he, hto⟩, hstart, huntil⟩ := hended.closed b hb hid hbapp
  rcases hout with ⟨-, rfl⟩ | ⟨_, fin', -, hprice⟩
  · obtain ⟨h₁, h₂, h₃, h₄⟩ := hrecut.closed hexplicit ⟨e, he, hto⟩
    exact ⟨h₁, h₂, h₃.trans hstart, h₄.trans huntil⟩
  · -- a further end is not past the explicit one
    obtain ⟨price, hin, hpid, -, -, hcurrent, rfl⟩ := endPrice_eq_ok hprice
    cases inj_on_of_nodup_map h.before_ids hin hbefore hpid
    obtain ⟨c, hc, hcur⟩ := currentEnd_le_explicit (L.before proposed) hexplicit hto
    have hle : fin' ≤ fin := (hcurrent c hcur).trans (hc.trans he)
    obtain ⟨h₁, h₂, h₃, h₄⟩ := hrecut.closed rfl ⟨fin', hle, rfl⟩
    exact ⟨h₁, h₂, h₃.trans hstart, h₄.trans huntil⟩

theorem endedAt_of_end {id : Uuid} (hinv : L.WellKept) (hstep : L.apply u = .ok L')
    (hend : Change.endAt id target fin ∈ u.changes) (hp : p ∈ L.prices) (hid : p.id = target) :
    p.effectiveFrom < fin ∧ L'.EndedAt target fin p.effectiveFrom p.temporaryUntil := by
  subst hid
  have hchange : Change.endAt id p.id fin ∈ L.changesOf u :=
    mem_changesOf.2 ⟨hend, mem_map_of_mem hp⟩
  rcases apply_eq_ok hstep with ⟨-, hnone⟩ | ⟨drafts, proposed, changed, h⟩
  · rw [hnone] at hchange
    cases hchange
  have hout {a : Price} (hout : Outcome (L.before proposed) (L.changesOf u) p a) :
      p.effectiveFrom < fin ∧ a = { p with effectiveTo := some fin, closedExplicitly := true } := by
    rcases hout with ⟨hkeep, -⟩ | ⟨id', fin', hend', hprice⟩
    · exact absurd (mem_map_of_mem hchange) hkeep
    · -- one unit names a price once, so this is the end
      cases inj_on_of_nodup_map h.targets hend' hchange rfl
      obtain ⟨price, hin, hpid, -, hlt, -, rfl⟩ := endPrice_eq_ok hprice
      obtain rfl : price = p := by
        rcases mem_append.1 hin with hin | hin
        · exact inj_on_of_nodup_map hinv.ids (mem_filter.1 hin).1 hp hpid
        · obtain ⟨r, hr, rfl⟩ := mem_map.1 hin
          exact absurd (hpid ▸ mem_map_of_mem hchange) (h.unnamed r hr)
      exact ⟨hlt, rfl⟩
  have hlive : p.id ∉ ((L.changesOf u).filter (·.isCancel)).map (·.target) := by
    intro hin
    obtain ⟨other, hother, htarget⟩ := mem_map.1 hin
    obtain ⟨hother, hcancel⟩ := mem_filter.1 hother
    cases inj_on_of_nodup_map h.targets hother hchange htarget
    cases hcancel
  obtain ⟨a, ha⟩ := h.outcome p hlive
  refine ⟨(hout ha).1, by rw [h.ids]; exact mem_append_left _ (mem_map_of_mem hp), ?_⟩
  intro q hq hid happ
  obtain ⟨b, a', hb, -, hbid, hrecut, -, hout'⟩ :=
    h.origin hq happ (hid ▸ mem_map_of_mem hp)
  cases inj_on_of_nodup_map hinv.ids hb hp (hbid.trans hid)
  obtain ⟨-, rfl⟩ := hout hout'
  exact hrecut.closed rfl ⟨fin, le_rfl, rfl⟩

/-! ### What an ended price still binds -/

/-- The context holds the entry's approved prices, and no other entry holds a price of it. -/
def ResolveContext.Reads (ctx : ResolveContext) (L : EntryPrices) : Prop :=
  ∀ item ∈ ctx.items, ∀ entry ∈ item.entry,
    (entry.id = L.id ∧ ∀ q, q.Approved → (q ∈ entry.prices ↔ q ∈ L.prices)) ∨
      (entry.id ≠ L.id ∧ ∀ q ∈ entry.prices, q.id ∉ L.prices.map (·.id))

/-- From the date on the price binds no one, and a binding before it reports an end by the
date. -/
def StopsBinding (L : EntryPrices) (target : Uuid) (fin : Date) : Prop :=
  ∀ ctx : ResolveContext, ctx.Reads L → ∀ date pins res, matrix ctx date pins = .ok res →
    ∀ i ∈ res, ∀ c ∈ i.chains, ∀ b ∈ c.binding, b.price.id = target →
      date < fin ∧ ∃ e ≤ fin, b.endsOn = some e

theorem stopsBinding_of_endedAt (hended : L.EndedAt target fin start until_)
    (huntil : ∀ e ∈ until_, e ≤ fin) : StopsBinding L target fin := by
  intro ctx hreads date pins res hmatrix i hi c hc b hb hid
  obtain ⟨⟨happ, item, hitem, entry, hentry, hmem⟩, hbinds⟩ := matrix_binding hmatrix hi hc hb
  have hin : b.price ∈ L.prices := by
    rcases hreads item hitem entry hentry with ⟨-, hprices⟩ | ⟨-, hother⟩
    · exact (hprices b.price happ).1 hmem
    · exact absurd (hid ▸ hended.stored) (hother b.price hmem)
  obtain ⟨hexplicit, ⟨e, he, hto⟩, -, htemporary⟩ := hended.closed b.price hin hid happ
  obtain ⟨x, hx, hown⟩ : ∃ x ≤ fin, b.price.ownEnd = some x := by
    rw [Price.ownEnd, htemporary]
    cases until_ with
    | none => exact ⟨e, he, by simp [hto, hexplicit]⟩
    | some t => exact ⟨t, huntil t rfl, rfl⟩
  refine ⟨?_, x, hx, hown⟩
  rcases hbinds with hforce | hbinds
  · exact (hforce.2 e hto).trans_le he
  · exact (hbinds.2 x hown).trans_le hx

theorem walk_start (hinv : L.WellKept) (hp : p ∈ L.prices) (happ : p.Approved) :
    walk L.prices p p.effectiveFrom = p := by
  rw [walk]
  have hsorted := pairwise_sortByKey
    (fun r : Price => toLex (r.effectiveFrom, r.versionNo))
    (L.prices.filter fun r => r.priceBookEntryId = p.priceBookEntryId ∧
      r.dimValue = p.dimValue ∧ r.state = .approved)
  have hall : ∀ q ∈ approvedPrices L.prices p.priceBookEntryId p.dimValue,
      q ∈ L.prices ∧ q.SameChain p ∧ q.Approved := by
    intro q hq
    obtain ⟨hmem, he, hd, ha⟩ := mem_approvedPrices.1 hq
    exact ⟨hmem, ⟨he, hd⟩, ha⟩
  have hin : p ∈ approvedPrices L.prices p.priceBookEntryId p.dimValue :=
    mem_approvedPrices.2 ⟨hp, rfl, rfl, happ⟩
  have hnodup : (approvedPrices L.prices p.priceBookEntryId p.dimValue).Nodup :=
    (sortByKey_perm _ _).nodup_iff.2 ((Nodup.of_map _ hinv.ids).filter _)
  change Pairwise _ (approvedPrices L.prices p.priceBookEntryId p.dimValue) at hsorted
  generalize approvedPrices L.prices p.priceBookEntryId p.dimValue = chain at *
  induction chain with
  | nil => cases hin
  | cons q rest ih =>
    obtain ⟨hq, hsorted'⟩ := pairwise_cons.1 hsorted
    obtain ⟨hqrest, hnodup'⟩ := nodup_cons.1 hnodup
    by_cases hid : q.id = p.id
    · obtain rfl : q = p :=
        inj_on_of_nodup_map hinv.ids (hall q mem_cons_self).1 hp hid
      rw [dropWhile_cons_of_neg (by simp), drop_one, tail_cons]
      cases rest with
      | nil => rfl
      | cons next rest =>
        -- the next start is later, so the walk stops at once
        obtain ⟨hmem, hchain, hnapp⟩ := hall next (by simp)
        have hle : q.effectiveFrom ≤ next.effectiveFrom := by
          rcases Prod.Lex.toLex_le_toLex.1 (hq next mem_cons_self) with h | h
          · exact le_of_lt h
          · exact h.1.le
        have hne : q.effectiveFrom ≠ next.effectiveFrom := by
          intro heq
          rw [hinv.starts q hp next hmem happ hnapp hchain heq.symm] at hqrest
          exact hqrest mem_cons_self
        rw [walkFrom, if_pos (.inl (lt_of_le_of_ne hle hne))]
    · rw [dropWhile_cons_of_pos (by simpa using hid)]
      have hin' : p ∈ rest := (mem_cons.1 hin).resolve_left (by rintro rfl; exact hid rfl)
      exact ih (fun r hr => hall r (mem_cons_of_mem _ hr)) hin' hnodup' hsorted'

/-- The context of a plan with one item, which names the entry. -/
def soleContext (L : EntryPrices) : ResolveContext where
  items := [{ id := 0, skuId := 0, entry := some {
    id := L.id, chargeKind := .recurring, period := none, model := .flat, values := []
    prices := L.prices } }]
  keepForBound := []

theorem reads_soleContext (L : EntryPrices) : (soleContext L).Reads L := by
  intro item hitem entry hentry
  cases mem_singleton.1 hitem
  cases hentry
  exact .inl ⟨rfl, fun q _ => Iff.rfl⟩

/-- A pin on a price binds it on its first day, when its own end lies behind that day. -/
theorem matrix_soleContext (hinv : L.WellKept) (hp : p ∈ L.prices) (happ : p.Approved)
    (hown : ∀ e ∈ p.ownEnd, p.effectiveFrom < e) :
    ∃ res, matrix (soleContext L) p.effectiveFrom [⟨p.id, none⟩] = .ok res ∧
      ∃ i ∈ res, ∃ c ∈ i.chains, ∃ b ∈ c.binding, b.price = p := by
  have howners : owners (soleContext L) p.id = [(0, p)] := by
    simp [owners, soleContext, List.find?_key hinv.ids hp]
  have hpins : judgePins (soleContext L) [⟨p.id, none⟩] = .ok [((0, p.dimValue), p)] := by
    simp [judgePins, judgePin, howners, happ, insertPin]
  have hbinds : p.BindsOn p.effectiveFrom := ⟨le_rfl, hown⟩
  refine ⟨_, by rw [matrix, hpins]; rfl, _, mem_singleton_self _, ?_⟩
  refine ⟨_, mem_map_of_mem (a := p.dimValue) ?_, ?_⟩
  · -- the pinned value has its row
    simp only [rowValues, map_cons, map_nil, List.sortByKey, insertionSort_cons,
      insertionSort_nil, orderedInsert_nil, filter_cons, decide_true, if_true, foldl_cons]
    split
    · assumption
    · simp
  · have hmove (entry : Entry) : ownMove entry p.dimValue p p.effectiveFrom = none := by
      rw [ownMove, if_neg]
      rintro ⟨hsome, hnone⟩
      rw [hnone] at hsome
      cases hsome
    refine ⟨⟨p, some p.id, decide (p.id ∈ (soleContext L).keepForBound)⟩, ?_, rfl⟩
    simp only [resolveRow, find?_cons, decide_true, Option.map_some, Pricing.bind, renewal,
      hmove, walk_start hinv hp happ, hbinds]
    rfl

/-- **An ended price stops binding everyone exactly when no temporary date outlives the end.**
After any run of units, one that ends the price `p` at `fin`, and any further run, the price as
long as it is approved binds no one from `fin` on and reports an end by `fin` before, iff the
price was not temporary or its date was not past `fin`. -/
theorem ended_price_binds_no_one_iff {id : Uuid} {units units' : List PriceUnit}
    {L₁ L₂ : EntryPrices}
    (hbefore : Machine.run apply (empty id) units = .ok L₁)
    (hstep : L₁.apply u = .ok L₂) (hafter : Machine.run apply L₂ units' = .ok L)
    {change : Uuid} (hp : p ∈ L₁.prices) (hend : Change.endAt change p.id fin ∈ u.changes)
    (hq : q ∈ L.prices) (hid : q.id = p.id) (happ : q.Approved) :
    StopsBinding L q.id fin ↔ ∀ e ∈ p.temporaryUntil, e ≤ fin := by
  have hkept₁ : L₁.WellKept :=
    Machine.run_invariant (fun L u L' hi h => wellKept_apply hi h) hbefore (wellKept_empty id)
  have hkept : L.WellKept :=
    Machine.run_invariant (fun L u L' hi h => wellKept_apply hi h) hafter
      (wellKept_apply hkept₁ hstep)
  obtain ⟨hlt, hended₂⟩ := endedAt_of_end hkept₁ hstep hend hp rfl
  have hended : L.EndedAt p.id fin p.effectiveFrom p.temporaryUntil :=
    Machine.run_invariant (fun L u L' hi h => endedAt_apply hi h) hafter hended₂
  obtain ⟨-, -, hstart, huntil⟩ := hended.closed q hq hid happ
  rw [hid]
  refine ⟨fun hstops e he => ?_, stopsBinding_of_endedAt hended⟩
  -- a pin on the first day reports the temporary date
  have hown : q.ownEnd = some e := by
    rw [Price.ownEnd, huntil, show p.temporaryUntil = some e from he, Option.some_or]
  by_contra hpast
  rw [not_le] at hpast
  obtain ⟨res, hmatrix, i, hi, c, hc, b, hb, rfl⟩ := matrix_soleContext hkept hq happ
    (fun x hx => by cases hown.symm.trans hx; rw [hstart]; exact hlt.trans hpast)
  obtain ⟨-, x, hx, hendsOn⟩ :=
    hstops _ (reads_soleContext L) _ _ _ hmatrix i hi c hc b hb hid
  cases hown.symm.trans hendsOn
  exact absurd hx (not_le.2 hpast)

theorem ended_price_binds_no_one_iff_sample :
    ∃ L₁ L p, Machine.run apply (empty 100) [sampleOpening] = .ok L₁ ∧
      L₁.apply (sampleChange (.endAt 5 1 (sampleDate 40)) 5) = .ok L ∧ p ∈ L.prices ∧
      p.effectiveTo = some (sampleDate 40) ∧ StopsBinding L p.id (sampleDate 40) := by
  simp only [exists_and_left]
  refine exists_ok_of (P := fun L₁ => (∃ p ∈ L₁.prices, p.id = 1 ∧ p.temporaryUntil = none) ∧
    ∃ L, L₁.apply (sampleChange (.endAt 5 1 (sampleDate 40)) 5) = .ok L ∧
      ∃ q ∈ L.prices, q.id = 1 ∧ q.state = .approved ∧ q.effectiveTo = some (sampleDate 40))
    (by decide +kernel) ?_
  rintro L₁ h₁ ⟨⟨p, hp, hid, hopen⟩, L, hL, q, hq, hqid, hstate, hto⟩
  have hend : Change.endAt 5 p.id (sampleDate 40) ∈
      (sampleChange (.endAt 5 1 (sampleDate 40)) 5).changes := by
    rw [hid]
    exact mem_singleton_self _
  have hafter : Machine.run apply L [] = .ok L := rfl
  refine ⟨L, hL, q, hq, hto, (ended_price_binds_no_one_iff h₁ hL hafter hp hend hq
    (hqid.trans hid.symm) hstate).2 ?_⟩
  rw [hopen]
  rintro _ ⟨⟩

/-- A promo from day 10 to day 20 that is ended on day 15 still binds a pinned consumer on day
17, although its chain has no price in force then. -/
theorem ended_promo_still_binds : ∃ L res, Machine.run apply (empty 100)
        [sampleOpening, samplePromo, sampleChange (.endAt 5 2 (sampleDate 15)) 11] = .ok L ∧
      ownVersionAt L.prices 100 (sampleDate 17) none = none ∧
      matrix (soleContext L) (sampleDate 17) [⟨2, none⟩] = .ok res ∧
      ∃ i ∈ res, ∃ c ∈ i.chains, ∃ b ∈ c.binding,
        b.price.id = 2 ∧ b.endsOn = some (sampleDate 20) := by
  simp only [exists_and_left]
  decide +kernel

end Gears.Pricing
