import Gears.Pricing.Model
import Gears.Lib.Keyed
import Mathlib.Data.Prod.Lex
import Mathlib.Order.WithBot
import Mathlib.Data.String.Basic

/-!
# Chains of prices

The approved prices of one entry and one dimension value form a chain: each price is in force
from its start to the next start, or to an explicit end before it.

* `normalizeWindows` : recompute every end from the starts.
* `ownVersionAt`, `versionAt` : the price in force on a date, without and with the default chain.
* `endPrice` : close an approved price at a date.
-/

namespace Gears.Pricing

open List

/-- Approved prices of exactly one chain, ordered by start and version. -/
def approvedPrices (prices : List Price) (entry : Uuid) (dim : Option String) : List Price :=
  (prices.filter fun r =>
    r.priceBookEntryId = entry ∧ r.dimValue = dim ∧ r.state = .approved).sortByKey
      fun r => toLex (r.effectiveFrom, r.versionNo)

/-- The date lies in the stored window. -/
def Price.InForceOn (r : Price) (date : Date) : Prop :=
  r.effectiveFrom ≤ date ∧ ∀ fin ∈ r.effectiveTo, date < fin

instance (r : Price) (date : Date) : Decidable (r.InForceOn date) :=
  inferInstanceAs (Decidable (_ ∧ ∀ _ ∈ _, _))

/-- The price of exactly one chain in force on a date. -/
def ownVersionAt (prices : List Price) (entry : Uuid) (date : Date) (dim : Option String) :
    Option Price :=
  (approvedPrices prices entry dim).reverse.find? fun r => r.InForceOn date

/-- The value's price in force, else the default chain's. -/
def versionAt (prices : List Price) (entry : Uuid) (date : Date) (dim : Option String) :
    Option Price :=
  (ownVersionAt prices entry date dim).or
    (dim.bind fun _ => ownVersionAt prices entry date none)

/-- The price of the same chain in force on the day before `price` starts. -/
def inForceBefore (chain : List Price) (price : Price) : Option Price :=
  price.effectiveFrom.previousDay.bind fun eve =>
    ownVersionAt chain price.priceBookEntryId eve price.dimValue

/-! ### Recomputing the windows -/

/-- The earlier of two ends, either of which may be missing. -/
def earliest : Option Date → Option Date → Option Date
  | some a, some b => some (min a b)
  | a, b => a.or b

/-- The dimension value in its order: the default chain comes first. -/
def Price.dimKey (p : Price) : WithBot String := p.dimValue

/-- The order normalisation walks the prices in: chain by chain, by start and version. -/
def Price.chainKey (p : Price) : ℕ ×ₗ WithBot String ×ₗ Date ×ₗ ℤ :=
  toLex (p.priceBookEntryId.toNat, toLex (p.dimKey, toLex (p.effectiveFrom, p.versionNo)))

/-- The approved prices with their positions, in that order. -/
def chainOrder (prices : List Price) : List (Price × ℕ) :=
  (prices.zipIdx.filter fun r => r.1.Approved).sortByKey fun r => r.1.chainKey

/-- The start right behind the price at a position, when it is of the same chain. -/
def nextStart (order : List (Price × ℕ)) (p : Price) (i : ℕ) : Option Date :=
  (order.follower fun r => r.2 == i).bind fun next =>
    if next.1.SameChain p then some next.1.effectiveFrom else none

/-- Close a price at the next start; an explicit end is kept unless that start lies inside it. -/
def Price.closeAt (p : Price) (next : Option Date) : Price :=
  { p with effectiveTo := if p.closedExplicitly then earliest p.effectiveTo next else next }

/-- Recompute the ends of the approved prices. -/
def normalizeWindows (prices : List Price) : List Price :=
  prices.zipIdx.map fun r =>
    if r.1.Approved then r.1.closeAt (nextStart (chainOrder prices) r.1 r.2) else r.1

/-- The starts of the other approved prices of the chain behind `price`. -/
def laterStarts (chain : List Price) (price : Price) : List Date :=
  (chain.filter fun row => row.id ≠ price.id ∧ row.Approved ∧ row.SameChain price ∧
    price.effectiveFrom < row.effectiveFrom).map (·.effectiveFrom)

/-- The end an approved price has in its chain. -/
def currentEnd (chain : List Price) (price : Price) : Option Date :=
  if price.closedExplicitly then earliest price.effectiveTo (laterStarts chain price).min?
  else (laterStarts chain price).min?

/-- Close an approved price at `fin`, after its start and no later than its current end. -/
def endPrice (chain : List Price) (target : Uuid) (fin : Date) : Except RuleError Price := do
  let some price := chain.find? (·.id = target) | throw ⟨"END_DATE_INVALID"⟩
  Except.rejectIf (¬ price.Approved ∨ fin ≤ price.effectiveFrom) ⟨"END_DATE_INVALID"⟩
  Except.rejectIf (∃ until_ ∈ currentEnd chain price, until_ < fin) ⟨"END_DATE_INVALID"⟩
  pure { price with effectiveTo := some fin, closedExplicitly := true }

variable {prices chain : List Price} {p q r : Price} {entry : Uuid} {dim : Option String}
  {date fin : Date}

theorem mem_approvedPrices : p ∈ approvedPrices prices entry dim ↔
    p ∈ prices ∧ p.priceBookEntryId = entry ∧ p.dimValue = dim ∧ p.Approved := by
  simp [approvedPrices, Price.Approved]

theorem ownVersionAt_eq_some (h : ownVersionAt prices entry date dim = some p) :
    p ∈ prices ∧ p.priceBookEntryId = entry ∧ p.dimValue = dim ∧ p.Approved ∧
      p.InForceOn date := by
  have hforce := find?_some h
  have hmem := mem_approvedPrices.1 (mem_reverse.1 (mem_of_find?_eq_some h))
  exact ⟨hmem.1, hmem.2.1, hmem.2.2.1, hmem.2.2.2, of_decide_eq_true hforce⟩

theorem versionAt_eq_some (h : versionAt prices entry date dim = some p) :
    p ∈ prices ∧ p.Approved ∧ p.InForceOn date := by
  rcases Option.or_eq_some_iff.1 h with hown | ⟨-, hdefault⟩
  · obtain ⟨hp, -, -, ha, hf⟩ := ownVersionAt_eq_some hown
    exact ⟨hp, ha, hf⟩
  · obtain ⟨_, -, hdefault⟩ := Option.bind_eq_some_iff.1 hdefault
    obtain ⟨hp, -, -, ha, hf⟩ := ownVersionAt_eq_some hdefault
    exact ⟨hp, ha, hf⟩

/-! ### What normalisation does -/

theorem earliest_le_left {a : Date} {b : Option Date} : ∃ e ≤ a, earliest (some a) b = some e := by
  cases b with
  | none => exact ⟨a, le_rfl, rfl⟩
  | some b => exact ⟨min a b, min_le_left a b, rfl⟩

theorem earliest_le_right {a : Option Date} {b : Date} : ∃ e ≤ b, earliest a (some b) = some e := by
  cases a with
  | none => exact ⟨b, le_rfl, rfl⟩
  | some a => exact ⟨min a b, min_le_right a b, rfl⟩

theorem chainKey_lt (hchain : r.SameChain p) (hlt : p.effectiveFrom < r.effectiveFrom) :
    p.chainKey < r.chainKey := by
  have hdim : p.dimKey = r.dimKey := hchain.2.symm
  simp only [Price.chainKey, Prod.Lex.toLex_lt_toLex, hchain.1, hdim]
  exact .inr ⟨trivial, .inr ⟨trivial, .inl hlt⟩⟩

/-- A price between two prices of one chain is of that chain, and its start lies between. -/
theorem sameChain_of_between (hchain : r.SameChain p) (h₁ : p.chainKey ≤ q.chainKey)
    (h₂ : q.chainKey ≤ r.chainKey) : q.SameChain p ∧ q.effectiveFrom ≤ r.effectiveFrom := by
  have hdim' : r.dimKey = p.dimKey := hchain.2
  simp only [Price.chainKey, Prod.Lex.toLex_le_toLex, hchain.1, hdim'] at h₁ h₂
  -- antisymmetry of each component in turn
  have hentry : p.priceBookEntryId.toNat = q.priceBookEntryId.toNat :=
    le_antisymm (h₁.elim le_of_lt fun h => h.1.le) (h₂.elim le_of_lt fun h => h.1.le)
  replace h₁ := (h₁.resolve_left hentry.not_lt).2
  replace h₂ := (h₂.resolve_left hentry.symm.not_lt).2
  have hdim : p.dimKey = q.dimKey :=
    le_antisymm (h₁.elim le_of_lt fun h => h.1.le) (h₂.elim le_of_lt fun h => h.1.le)
  replace h₂ := (h₂.resolve_left hdim.symm.not_lt).2
  exact ⟨⟨BitVec.eq_of_toNat_eq hentry.symm, hdim.symm⟩, h₂.elim le_of_lt fun h => h.1.le⟩

/-- `q` is `p` after normalisation among `prices`. -/
structure Recut (prices : List Price) (p q : Price) : Prop where
  /-- Nothing but the end is rewritten. -/
  window_only : q = { p with effectiveTo := q.effectiveTo }
  /-- A price outside the chains is not touched. -/
  unapproved : ¬ p.Approved → q = p
  /-- An explicit end never moves later. -/
  explicit : p.closedExplicitly = true → ∀ fin ∈ p.effectiveTo, ∃ e ≤ fin, q.effectiveTo = some e
  /-- The price ends by every later start of its chain. -/
  successor : p.Approved → ∀ r ∈ prices, r.Approved → r.SameChain p →
    p.effectiveFrom < r.effectiveFrom → ∃ e ≤ r.effectiveFrom, q.effectiveTo = some e

theorem mem_chainOrder {i : ℕ} : (p, i) ∈ chainOrder prices ↔ prices[i]? = some p ∧ p.Approved := by
  simp [chainOrder, mem_zipIdx_iff_getElem?]

theorem nextStart_le {i : ℕ} (hp : prices[i]? = some p) (ha : p.Approved) (hr : r ∈ prices)
    (har : r.Approved) (hchain : r.SameChain p) (hlt : p.effectiveFrom < r.effectiveFrom) :
    ∃ e ≤ r.effectiveFrom, nextStart (chainOrder prices) p i = some e := by
  obtain ⟨j, hj⟩ := getElem?_of_mem hr
  have hsorted := List.pairwise_sortByKey (fun r : Price × ℕ => r.1.chainKey)
    (prices.zipIdx.filter fun r => r.1.Approved)
  obtain ⟨⟨c, k⟩, -, hfollow, h₁, h₂⟩ := List.follower_le hsorted
    (mem_chainOrder.2 ⟨hp, ha⟩) (p := fun r => r.2 == i) (by
      rintro ⟨c, k⟩ hc
      have hck := (mem_chainOrder.1 hc).1
      constructor
      · intro hk
        obtain rfl := eq_of_beq hk
        cases hck.symm.trans hp
        rfl
      · rintro ⟨⟩
        exact beq_self_eq_true i)
    (mem_chainOrder.2 ⟨hj, har⟩) (chainKey_lt hchain hlt)
  obtain ⟨hsame, hle⟩ := sameChain_of_between hchain h₁ h₂
  refine ⟨c.effectiveFrom, hle, ?_⟩
  rw [nextStart, show (chainOrder prices).follower _ = _ from hfollow, Option.bind_some,
    if_pos hsame]

/-- **Normalisation recuts every price.** -/
theorem normalizeWindows_recut (prices : List Price) :
    Forall₂ (Recut prices) prices (normalizeWindows prices) := by
  rw [forall₂_iff_get]
  refine ⟨by simp [normalizeWindows], fun i h₁ h₂ => ?_⟩
  simp only [normalizeWindows, get_eq_getElem, getElem_map, getElem_zipIdx, Nat.zero_add]
  have hp : prices[i]? = some prices[i] := getElem?_eq_getElem h₁
  generalize prices[i] = p at hp
  by_cases ha : p.Approved
  · rw [if_pos ha]
    refine ⟨rfl, fun h => absurd ha h, fun hexplicit fin hfin => ?_,
      fun _ r hr har hchain hlt => ?_⟩
    · obtain ⟨e, he, heq⟩ := earliest_le_left
      exact ⟨e, he, by rw [Price.closeAt, hexplicit, if_pos rfl, hfin, heq]⟩
    · obtain ⟨n, hn, hnext⟩ := nextStart_le hp ha hr har hchain hlt
      rw [hnext]
      unfold Price.closeAt
      split
      · obtain ⟨e, he, heq⟩ := earliest_le_right
        exact ⟨e, he.trans hn, heq⟩
      · exact ⟨n, hn, rfl⟩
  · rw [if_neg ha]
    exact ⟨rfl, fun _ => rfl, fun _ fin hfin => ⟨fin, le_rfl, hfin⟩, fun h => absurd h ha⟩

theorem map_id_normalizeWindows (prices : List Price) :
    (normalizeWindows prices).map (·.id) = prices.map (·.id) := by
  have hrow (r : Price × ℕ) : (if r.1.Approved then
      r.1.closeAt (nextStart (chainOrder prices) r.1 r.2) else r.1).id = r.1.id := by
    split <;> rfl
  rw [normalizeWindows, map_map]
  simp only [Function.comp_def, hrow]
  conv_rhs => rw [← zipIdx_map_fst 0 prices, map_map]
  rfl

theorem min?_le {dates : List Date} {d : Date} (hd : d ∈ dates) : ∃ m ≤ d, dates.min? = some m := by
  cases hmin : dates.min? with
  | none => exact absurd (min?_eq_none_iff.1 hmin) (ne_nil_of_mem hd)
  | some m => exact ⟨m, (min?_eq_some_iff.1 hmin).2 d hd, rfl⟩

theorem currentEnd_le_explicit (chain : List Price) (hexplicit : p.closedExplicitly = true)
    (hfin : p.effectiveTo = some fin) : ∃ u ≤ fin, currentEnd chain p = some u := by
  rw [currentEnd, if_pos hexplicit, hfin]
  exact earliest_le_left

theorem currentEnd_le_start (hr : r ∈ chain) (hid : r.id ≠ p.id) (har : r.Approved)
    (hchain : r.SameChain p) (hlt : p.effectiveFrom < r.effectiveFrom) :
    ∃ u ≤ r.effectiveFrom, currentEnd chain p = some u := by
  have hmem : r.effectiveFrom ∈ laterStarts chain p :=
    mem_map.2 ⟨r, mem_filter.2 ⟨hr, by simp [hid, har, hchain, hlt]⟩, rfl⟩
  obtain ⟨m, hm, hmin⟩ := min?_le hmem
  rw [currentEnd, hmin]
  split
  · obtain ⟨e, he, heq⟩ := earliest_le_right
    exact ⟨e, he.trans hm, heq⟩
  · exact ⟨m, hm, rfl⟩

/-- A closed price was approved, and its new end lies behind its start and not behind its end in
the chain. -/
theorem endPrice_eq_ok {target : Uuid} {closed : Price}
    (h : endPrice chain target fin = .ok closed) :
    ∃ price ∈ chain, price.id = target ∧ price.Approved ∧ price.effectiveFrom < fin ∧
      (∀ u ∈ currentEnd chain price, fin ≤ u) ∧
      closed = { price with effectiveTo := some fin, closedExplicitly := true } := by
  unfold endPrice at h
  cases hfind : chain.find? (·.id = target) with
  | none =>
    rw [hfind] at h
    cases h
  | some price =>
    rw [hfind] at h
    simp only [Except.ok_iffs, exists_const, not_or, not_not, not_le, not_exists, not_and, not_lt]
      at h
    obtain ⟨⟨happroved, hstart⟩, hcurrent, rfl⟩ := h
    exact ⟨price, mem_of_find?_eq_some hfind, by simpa using find?_some hfind,
      happroved, hstart, hcurrent, rfl⟩

end Gears.Pricing
