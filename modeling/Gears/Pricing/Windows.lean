import Gears.Pricing.Chain

/-!
# The windows of a chain with distinct starts

When the approved prices of a chain have distinct starts, normalisation closes each of them at the
least start behind it.  So it can be read off the starts alone, whatever the order of the list.

* `normalizeWindows_eq_map` : the closed form.
* `normalizeWindows_projection` : normalisation rewrites ends only, separates the windows of a
  chain, and is a projection that does not see the order of the list.
-/

namespace Gears.Pricing

open List

theorem Price.SameChain.symm {p q : Price} (h : p.SameChain q) : q.SameChain p :=
  ⟨h.1.symm, h.2.symm⟩

/-- Not two approved prices of one chain with one start. -/
def Price.StartsApart (p q : Price) : Prop :=
  p.Approved → q.Approved → p.SameChain q → p.effectiveFrom ≠ q.effectiveFrom

instance : Std.Symm Price.StartsApart :=
  ⟨fun _ _ h hq hp hchain => (h hp hq hchain.symm).symm⟩

instance (p q : Price) : Decidable (p.StartsApart q) :=
  inferInstanceAs (Decidable (_ → _ → _ → _ ≠ _))

/-- The approved prices of one chain have distinct starts. -/
def DistinctStarts (prices : List Price) : Prop := prices.Pairwise Price.StartsApart

instance (prices : List Price) : Decidable (DistinctStarts prices) :=
  inferInstanceAs (Decidable (Pairwise _ prices))

/-- The starts of the chain of a price behind its own. -/
def startsAfter (prices : List Price) (p : Price) : List Date :=
  (prices.filter fun r => r.Approved ∧ r.SameChain p ∧ p.effectiveFrom < r.effectiveFrom).map
    (·.effectiveFrom)

/-- A price closed at the least start behind it. -/
def Price.recutIn (prices : List Price) (p : Price) : Price :=
  if p.Approved then p.closeAt (startsAfter prices p).min? else p

variable {prices prices' : List Price} {p q r : Price} {date : Date} {entry : Uuid}
  {dim : Option String}

theorem mem_startsAfter : date ∈ startsAfter prices p ↔ ∃ r ∈ prices, r.Approved ∧ r.SameChain p ∧
    p.effectiveFrom < r.effectiveFrom ∧ r.effectiveFrom = date := by
  simp [startsAfter, and_assoc]

theorem follower_eq_some {α : Type*} {s : α → Bool} {l : List α} {c : α}
    (h : l.follower s = some c) : ∃ a pre post, s a = true ∧ l = pre ++ a :: c :: post := by
  induction l with
  | nil => cases h
  | cons x l ih =>
    rw [follower] at h
    split at h
    · obtain ⟨post, rfl⟩ := head?_eq_some_iff.1 h
      exact ⟨x, [], post, ‹_›, rfl⟩
    · obtain ⟨a, pre, post, ha, rfl⟩ := ih h
      exact ⟨a, x :: pre, post, ha, rfl⟩

theorem pairwise_chainOrder (h : DistinctStarts prices) :
    (chainOrder prices).Pairwise fun a b => a.1.StartsApart b.1 := by
  refine ((sortByKey_perm ..).pairwise_iff fun h => symm h).2 (Pairwise.filter _ ?_)
  rw [DistinctStarts, ← zipIdx_map_fst 0 prices, pairwise_map] at h
  exact h

theorem nextStart_eq {i : ℕ} (h : DistinctStarts prices) (hp : prices[i]? = some p)
    (ha : p.Approved) : nextStart (chainOrder prices) p i = (startsAfter prices p).min? := by
  have hle : ∀ d ∈ startsAfter prices p, ∃ e ≤ d, nextStart (chainOrder prices) p i = some e := by
    intro d hd
    obtain ⟨r, hr, har, hchain, hlt, rfl⟩ := mem_startsAfter.1 hd
    exact nextStart_le hp ha hr har hchain hlt
  cases hnext : nextStart (chainOrder prices) p i with
  | none =>
    symm
    rw [min?_eq_none_iff, eq_nil_iff_forall_not_mem]
    intro d hd
    obtain ⟨e, -, he⟩ := hle d hd
    cases hnext.symm.trans he
  | some e =>
    symm
    refine min?_eq_some_iff.2 ⟨?_, fun d hd => ?_⟩
    · obtain ⟨⟨c, k⟩, hfollow, hc⟩ := Option.bind_eq_some_iff.1 hnext
      obtain ⟨hchain, ⟨⟩⟩ := Option.ite_none_right_eq_some.1 hc
      obtain ⟨⟨a, j⟩, pre, post, hj, horder⟩ := follower_eq_some hfollow
      obtain rfl := eq_of_beq hj
      obtain ⟨hpa, -⟩ := mem_chainOrder.1 (show (a, j) ∈ chainOrder prices by simp [horder])
      cases hpa.symm.trans hp
      obtain ⟨hck, hca⟩ := mem_chainOrder.1 (show (c, k) ∈ chainOrder prices by simp [horder])
      -- neighbours in the order, of one chain, with different starts
      have hsorted : (chainOrder prices).Pairwise _ := pairwise_sortByKey ..
      have hapart := pairwise_chainOrder h
      rw [horder, pairwise_append, pairwise_cons] at hsorted hapart
      have hkey := hsorted.2.1.1 _ mem_cons_self
      have hle := (sameChain_of_between hchain le_rfl hkey).2
      have hne := hapart.2.1.1 _ mem_cons_self ha hca hchain.symm
      exact mem_startsAfter.2 ⟨c, mem_of_getElem? hck, hca, hchain, lt_of_le_of_ne hle hne, rfl⟩
    · obtain ⟨e', hle, he⟩ := hle d hd
      cases hnext.symm.trans he
      exact hle

/-- **The closed form of normalisation.** -/
theorem normalizeWindows_eq_map (h : DistinctStarts prices) :
    normalizeWindows prices = prices.map (·.recutIn prices) := by
  refine ext_getElem? fun i => ?_
  rw [normalizeWindows, getElem?_map, getElem?_map, getElem?_zipIdx]
  cases hp : prices[i]? with
  | none => rfl
  | some p =>
    simp only [Option.map_some, Nat.zero_add, Price.recutIn]
    split
    · rw [nextStart_eq h hp ‹_›]
    · rfl

theorem recutIn_fields (prices : List Price) (p : Price) :
    (p.recutIn prices).priceBookEntryId = p.priceBookEntryId ∧
      (p.recutIn prices).dimValue = p.dimValue ∧ (p.recutIn prices).state = p.state ∧
      (p.recutIn prices).effectiveFrom = p.effectiveFrom := by
  unfold Price.recutIn
  split <;> exact ⟨rfl, rfl, rfl, rfl⟩

theorem DistinctStarts.perm (h : DistinctStarts prices) (hperm : prices'.Perm prices) :
    DistinctStarts prices' :=
  (hperm.pairwise_iff fun h => symm h).2 h

theorem min?_congr {l l' : List Date} (h : ∀ d, d ∈ l ↔ d ∈ l') : l.min? = l'.min? := by
  cases hm : l.min? with
  | none =>
    obtain rfl := min?_eq_none_iff.1 hm
    rw [eq_comm, min?_eq_none_iff, eq_nil_iff_forall_not_mem]
    exact fun d hd => by simpa using (h d).2 hd
  | some m =>
    obtain ⟨hmem, hle⟩ := min?_eq_some_iff.1 hm
    exact (min?_eq_some_iff.2 ⟨(h m).1 hmem, fun d hd => hle d ((h d).2 hd)⟩).symm

theorem earliest_earliest (a b : Option Date) : earliest (earliest a b) b = earliest a b := by
  cases a <;> cases b <;> simp [earliest]

theorem recutIn_recutIn (prices : List Price) (p : Price) :
    (p.recutIn prices).recutIn (prices.map (·.recutIn prices)) = p.recutIn prices := by
  by_cases ha : p.Approved
  · have hstarts : (startsAfter (prices.map (·.recutIn prices)) (p.recutIn prices)).min? =
        (startsAfter prices p).min? := min?_congr fun d => by
      simp [mem_startsAfter, Price.Approved, Price.SameChain, recutIn_fields]
    have ha' : (p.recutIn prices).Approved := (recutIn_fields prices p).2.2.1.trans ha
    rw [Price.recutIn, if_pos ha', hstarts, Price.recutIn, if_pos ha]
    simp only [Price.closeAt]
    split
    · rw [earliest_earliest]
    · rfl
  · exact if_neg fun h => ha ((recutIn_fields prices p).2.2.1.symm.trans h)

theorem before_earliest {a b : Option Date} : (∀ fin ∈ earliest a b, date < fin) ↔
    (∀ fin ∈ a, date < fin) ∧ ∀ fin ∈ b, date < fin := by
  cases a <;> cases b <;> simp [earliest]

theorem before_min? {l : List Date} : (∀ fin ∈ l.min?, date < fin) ↔ ∀ d ∈ l, date < d := by
  constructor
  · intro h d hd
    obtain ⟨m, hle, hm⟩ := min?_le hd
    exact (h m hm).trans_le hle
  · intro h m hm
    exact h m (min?_eq_some_iff.1 hm).1

theorem inForceOn_recutIn (ha : p.Approved) : (p.recutIn prices).InForceOn date ↔
    p.effectiveFrom ≤ date ∧ (p.closedExplicitly = true → ∀ fin ∈ p.effectiveTo, date < fin) ∧
      ∀ d ∈ startsAfter prices p, date < d := by
  rw [Price.recutIn, if_pos ha, ← before_min?]
  refine and_congr_right fun _ => ?_
  cases h : p.closedExplicitly
  · simp [Price.closeAt, h]
  · simp only [Price.closeAt, h, ↓reduceIte, before_earliest, forall_const]

theorem not_both_inForce (hp : p.Approved) (hq : q ∈ prices) (hqa : q.Approved)
    (hchain : p.SameChain q) (hlt : p.effectiveFrom < q.effectiveFrom) :
    ¬ ((p.recutIn prices).InForceOn date ∧ (q.recutIn prices).InForceOn date) := by
  rintro ⟨hforce, hforce'⟩
  rw [inForceOn_recutIn hp] at hforce
  rw [inForceOn_recutIn hqa] at hforce'
  have hmem := mem_startsAfter.2 ⟨q, hq, hqa, hchain.symm, hlt, rfl⟩
  exact absurd hforce'.1 (not_le.2 (hforce.2.2 _ hmem))

/-- **Normalisation is a projection.** -/
theorem normalizeWindows_projection (prices : List Price) (h : DistinctStarts prices) :
    Forall₂ (fun p q => q = { p with effectiveTo := q.effectiveTo } ∧ (¬ p.Approved → q = p) ∧
      (p.closedExplicitly = true → ∀ fin ∈ p.effectiveTo, ∃ e ∈ q.effectiveTo, e ≤ fin))
      prices (normalizeWindows prices) ∧
    (normalizeWindows prices).Pairwise (fun p q => p.Approved → q.Approved → p.SameChain q →
      ∀ date, ¬ (p.InForceOn date ∧ q.InForceOn date)) ∧
    normalizeWindows (normalizeWindows prices) = normalizeWindows prices ∧
    ∀ prices', prices'.Perm prices → ∃ recut : Price → Price,
      normalizeWindows prices = prices.map recut ∧
      normalizeWindows prices' = prices'.map recut := by
  have hfields := recutIn_fields prices
  refine ⟨(normalizeWindows_recut prices).imp fun p q hq => ?_, ?_, ?_, fun prices' hperm =>
    ⟨_, normalizeWindows_eq_map h, ?_⟩⟩
  · refine ⟨hq.window_only, hq.unapproved, fun hexplicit fin hfin => ?_⟩
    obtain ⟨e, hle, he⟩ := hq.explicit hexplicit fin hfin
    exact ⟨e, he, hle⟩
  · rw [normalizeWindows_eq_map h, pairwise_map]
    refine h.imp_of_mem fun {p q} hp hq hne hpa hqa hchain date => ?_
    simp only [Price.Approved, Price.SameChain, hfields] at hpa hqa hchain
    rcases lt_or_gt_of_ne (hne hpa hqa hchain) with hlt | hlt
    · exact not_both_inForce hpa hq hqa hchain hlt
    · exact fun hboth => not_both_inForce hqa hp hpa (Price.SameChain.symm hchain) hlt hboth.symm
  · have hdistinct : DistinctStarts (prices.map (·.recutIn prices)) :=
      pairwise_map.2 (h.imp fun h => by
        simpa only [Price.StartsApart, Price.Approved, Price.SameChain, hfields] using h)
    rw [normalizeWindows_eq_map h, normalizeWindows_eq_map hdistinct, map_map]
    exact map_congr_left fun p _ => recutIn_recutIn prices p
  · rw [normalizeWindows_eq_map (h.perm hperm)]
    refine map_congr_left fun p _ => ?_
    rw [Price.recutIn, Price.recutIn, min?_congr fun d => ?_]
    simp [mem_startsAfter, hperm.mem_iff]

/-- A day of the sample calendar. -/
def sampleDate (n : ℕ) : Date := ⟨2461000 + (n % 1000 : ℕ), by omega, by omega⟩

/-- A monthly price of the sample entry in its default chain. -/
def samplePrice (id : Uuid) (versionNo amount start : ℕ) : Price where
  id := id
  priceBookEntryId := 100
  versionNo := versionNo
  dimValue := none
  model := .flat
  currency := .usd
  price := some (.flat
    { Money.Decimal.zero with mantissa := (amount % 1000 : ℕ), mantissa_lt := by omega })
  minFee := none
  eligibility := .all
  effectiveFrom := sampleDate start
  effectiveTo := none
  temporaryUntil := none
  pairedPriceId := none
  returnOfPriceId := none
  closedExplicitly := false
  state := .draft

/-- Two prices of the default chain, the first closed on day 15, a price for `eu`, and a draft. -/
def samplePrices : List Price :=
  [{ samplePrice 1 1 30 0 with
      state := .approved, closedExplicitly := true, effectiveTo := some (sampleDate 15) },
    { samplePrice 2 2 20 10 with state := .approved },
    { samplePrice 3 3 25 5 with state := .approved, dimValue := some "eu" },
    { samplePrice 4 4 15 10 with effectiveTo := some (sampleDate 12) }]

/-- The second price cuts the first one short and nothing else moves, in either order. -/
theorem normalizeWindows_projection_sample : DistinctStarts samplePrices ∧
    (normalizeWindows samplePrices).map (·.effectiveTo) =
      [some (sampleDate 10), none, none, some (sampleDate 12)] ∧
    (∀ p ∈ (normalizeWindows samplePrices)[0]?, ∀ q ∈ (normalizeWindows samplePrices)[1]?,
      ∀ date, ¬ (p.InForceOn date ∧ q.InForceOn date)) ∧
    normalizeWindows (normalizeWindows samplePrices) = normalizeWindows samplePrices ∧
    normalizeWindows samplePrices.reverse = (normalizeWindows samplePrices).reverse := by
  have hstarts : DistinctStarts samplePrices := by decide
  obtain ⟨-, hapart, hidem, hperm⟩ := normalizeWindows_projection samplePrices hstarts
  obtain ⟨recut, hrecut, hreverse⟩ := hperm _ (reverse_perm samplePrices)
  have hchain : ∀ p ∈ (normalizeWindows samplePrices)[0]?,
      ∀ q ∈ (normalizeWindows samplePrices)[1]?, p.Approved ∧ q.Approved ∧ p.SameChain q := by
    decide +kernel
  refine ⟨hstarts, by decide +kernel, fun p hp q hq => ?_, hidem, ?_⟩
  · obtain ⟨hpa, hqa, hpq⟩ := hchain p hp q hq
    obtain ⟨h₀, rfl⟩ := List.getElem?_eq_some_iff.1 hp
    obtain ⟨h₁, rfl⟩ := List.getElem?_eq_some_iff.1 hq
    exact pairwise_iff_getElem.1 hapart 0 1 h₀ h₁ Nat.one_pos hpa hqa hpq
  · rw [hreverse, hrecut, map_reverse]

end Gears.Pricing
