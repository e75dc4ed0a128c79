import Gears.Pricing.Temporary
import Mathlib

/-!
# Resolving a plan on a date

The matrix a subscription binds from: per item and dimension value, the price bound on a date,
for a signup or for the pins a renewal sends back.

* `matrix` : judge the pins, then resolve every item.
* `renewal`, `walk`, `Price.BindsOn` : what a pinned value is bound to.
-/

namespace Gears.Pricing

open Except List

/-! ### Plans and pins -/

/-- A subscription's current binding for one item and value, sent back on renewal. -/
structure Pin where
  priceId : Uuid
  /-- Set only for a default-chain price that this value was bound to. -/
  dimValue : Option String
  deriving DecidableEq, Repr

/-- The entry an item names, with every one of its prices. -/
structure Entry where
  id : Uuid
  chargeKind : ChargeKind
  period : Option String
  model : Model
  /-- The values registered today for the entry's dimension key. -/
  values : List String
  /-- All the entry's prices, of every state. -/
  prices : List Price

/-- One item of a plan revision. -/
structure Item where
  id : Uuid
  skuId : Uuid
  entry : Option Entry

/-- Everything the matrix reads. -/
structure ResolveContext where
  items : List Item
  keepForBound : List Uuid

/-- The price bound for one item and value on the date. -/
structure Binding where
  price : Price
  /-- The pin the renewal walk started from; none for a signup. -/
  pinnedFrom : Option Uuid
  keepForBound : Bool

/-- Where the binding ends for its holder. -/
def Binding.endsOn (b : Binding) : Option Date := b.price.ownEnd

/-- One row of an item's matrix: the default chain or one value. -/
structure Chain where
  dimValue : Option String
  binding : Option Binding

/-- One item of the revision resolved on the date. -/
structure ItemResolution where
  itemId : Uuid
  skuId : Uuid
  priceBookEntryId : Option Uuid
  chargeKind : Option ChargeKind
  period : Option String
  model : Option Model
  chains : List Chain

/-- The most pins one request carries. -/
def maxPins : ℕ := 1000

/-- What the accepted pins bind: the pinned price of each item and value. -/
abbrev Pinned := List ((Uuid × Option String) × Price)

section

variable (ctx : ResolveContext)

/-- Every item whose entry holds the price, with the price. -/
def owners (priceId : Uuid) : List (Uuid × Price) :=
  ctx.items.filterMap fun item => item.entry.bind fun entry =>
    (entry.prices.find? (·.id = priceId)).map fun found => (item.id, found)

/-- A pin names an approved price of an entry, and a value pin one of the default chain. -/
def judgePin (pin : Pin) : Except RuleError (Pin × List (Uuid × Price)) := do
  let owners := owners ctx pin.priceId
  rejectIf (¬ (owners ≠ [] ∧ ∀ owner ∈ owners, owner.2.Approved ∧
    (pin.dimValue = none ∨ owner.2.dimValue = none))) ⟨"PIN_FOREIGN"⟩
  pure (pin, owners)

/-- Each item and value takes at most one pin. -/
def insertPin (pin : Pin) (pinned : Pinned) (owner : Uuid × Price) : Except RuleError Pinned := do
  let key := (owner.1, pin.dimValue.or owner.2.dimValue)
  rejectIf (key ∈ pinned.map Prod.fst) ⟨"PIN_DUPLICATE"⟩
  pure (pinned ++ [(key, owner.2)])

/-- Every pin first proves its ownership; then they are taken one by one. -/
def judgePins (pins : List Pin) : Except RuleError Pinned := do
  let judged ← pins.mapM (judgePin ctx)
  judged.foldlM (fun pinned j => j.2.foldlM (insertPin j.1) pinned) []

/-- Take the successors that start by the date with eligibility `all`, up to the first `new`
one. -/
def walkFrom (date : Date) (reached : Price) : List Price → Price
  | [] => reached
  | next :: rest =>
    if date < next.effectiveFrom ∨ next.eligibility = .new then reached
    else walkFrom date next rest

/-- The price a pin has come to on the date, along its own chain. -/
def walk (prices : List Price) (pinned : Price) (date : Date) : Price :=
  walkFrom date pinned (((approvedPrices prices pinned.priceBookEntryId pinned.dimValue).dropWhile
    fun p => p.id ≠ pinned.id).drop 1)

/-- A price the walk reached still binds: it has started and its own end has not passed. -/
def Price.BindsOn (price : Price) (date : Date) : Prop :=
  price.effectiveFrom ≤ date ∧ ∀ fin ∈ price.ownEnd, date < fin

instance (price : Price) (date : Date) : Decidable (price.BindsOn date) :=
  inferInstanceAs (Decidable (_ ∧ ∀ _ ∈ _, _))

/-- The value's own price that a default-chain pin moves to. -/
def ownMove (entry : Entry) (dim : Option String) (pinned : Price) (date : Date) : Option Price :=
  if dim.isSome ∧ pinned.dimValue = none then
    (ownVersionAt entry.prices entry.id date dim).filter fun own =>
      own.eligibility = .all ∧ pinned.effectiveFrom < own.effectiveFrom
  else none

/-- What a pinned value is bound to. -/
def renewal (entry : Entry) (dim : Option String) (pinned : Price) (date : Date) : Option Price :=
  match ownMove entry dim pinned date with
  | some own => some own
  | none =>
    let reached := walk entry.prices pinned date
    if reached.BindsOn date then some reached else versionAt entry.prices entry.id date dim

/-- The binding of one item and value, and the pin it came from. -/
def bind (entry : Entry) (dim : Option String) (pin : Option Price) (date : Date) :
    Option (Price × Option Uuid) :=
  match pin with
  | none => (versionAt entry.prices entry.id date dim).map fun p => (p, none)
  | some pinned => (renewal entry dim pinned date).map fun p => (p, some pinned.id)

/-- The order of the pinned keys. -/
def pinKey (key : Uuid × Option String) : ℕ ×ₗ WithBot String :=
  toLex (key.1.toNat, (key.2 : WithBot String))

/-- The rows of an item: the default chain, the registered values, then the other pinned ones. -/
def rowValues (entry : Entry) (item : Uuid) (pinned : Pinned) : List (Option String) :=
  (((pinned.map Prod.fst).sortByKey pinKey).filter (·.1 = item)).foldl
    (fun values key => if key.2 ∈ values then values else values ++ [key.2])
    (none :: entry.values.map some)

/-- One row of an item's matrix. -/
def resolveRow (item : Uuid) (entry : Entry) (date : Date)
    (pinned : Pinned) (dim : Option String) : Chain where
  dimValue := dim
  binding := (bind entry dim ((pinned.find? (·.1 = (item, dim))).map Prod.snd) date).map fun r =>
    { price := r.1, pinnedFrom := r.2, keepForBound := decide (r.1.id ∈ ctx.keepForBound) }

/-- One item on the date. -/
def resolveItem (date : Date) (pinned : Pinned) (item : Item) : ItemResolution where
  itemId := item.id
  skuId := item.skuId
  priceBookEntryId := item.entry.map (·.id)
  chargeKind := item.entry.map (·.chargeKind)
  period := item.entry.bind (·.period)
  model := item.entry.map (·.model)
  chains := match item.entry with
    | none => []
    | some entry =>
      (rowValues entry item.id pinned).map (resolveRow ctx item.id entry date pinned)

/-- Resolve every item on the date with the caller's pins. -/
def matrix (date : Date) (pins : List Pin) : Except RuleError (List ItemResolution) := do
  rejectIf (maxPins < pins.length) ⟨"PINS_TOO_MANY"⟩
  let pinned ← judgePins ctx pins
  pure (ctx.items.map (resolveItem ctx date pinned))

/-! ### Where a bound price comes from -/

/-- An approved price of an entry the context holds. -/
def ResolveContext.Offers (p : Price) : Prop :=
  p.Approved ∧ ∃ item ∈ ctx.items, ∃ entry ∈ item.entry, p ∈ entry.prices

end

variable {ctx : ResolveContext} {pins : List Pin} {pin : Pin} {pinned pinned' : Pinned}
  {entry : Entry} {item : Item} {dim : Option String} {date : Date} {p q : Price}

theorem offers_of_judgePin {j : Pin × List (Uuid × Price)} (h : judgePin ctx pin = .ok j) :
    ∀ owner ∈ j.2, ctx.Offers owner.2 := by
  simp only [judgePin, ok_iffs, exists_const, not_not] at h
  obtain ⟨⟨-, hvalid⟩, rfl⟩ := h
  intro owner howner
  refine ⟨(hvalid owner howner).1, ?_⟩
  obtain ⟨item, hitem, hfound⟩ := mem_filterMap.1 howner
  obtain ⟨entry, hentry, hpair⟩ := Option.bind_eq_some_iff.1 hfound
  obtain ⟨found, hfind, rfl⟩ := Option.map_eq_some_iff.1 hpair
  exact ⟨item, hitem, entry, hentry, mem_of_find?_eq_some hfind⟩

theorem insertPin_eq_ok {owner : Uuid × Price} (h : insertPin pin pinned owner = .ok pinned') :
    pinned' = pinned ++ [((owner.1, pin.dimValue.or owner.2.dimValue), owner.2)] := by
  simp only [insertPin, ok_iffs] at h
  obtain ⟨-, -, rfl⟩ := h
  rfl

/-- Every accepted pin is on an approved price of an entry that an item names. -/
theorem offers_of_judgePins (h : judgePins ctx pins = .ok pinned) :
    ∀ row ∈ pinned, ctx.Offers row.2 := by
  simp only [judgePins, bind_eq_ok_iff] at h
  obtain ⟨judged, hjudged, hfold⟩ := h
  have hall : ∀ j ∈ judged, ∀ owner ∈ j.2, ctx.Offers owner.2 := by
    intro j hj
    obtain ⟨pin, -, hpin⟩ := (mapM_eq_ok_iff.1 hjudged).flip.exists_of_mem_left hj
    exact offers_of_judgePin hpin
  refine foldlM_invariant (I := fun pinned => ∀ row ∈ pinned, ctx.Offers row.2)
    (fun pinned j hj pinned' hpinned hinner => ?_) hfold (by simp)
  refine foldlM_invariant (I := fun pinned => ∀ row ∈ pinned, ctx.Offers row.2)
    (fun pinned owner howner pinned' hpinned hinsert => ?_) hinner hpinned
  rw [insertPin_eq_ok hinsert]
  intro row hrow
  rcases mem_append.1 hrow with hrow | hrow
  · exact hpinned row hrow
  · cases mem_singleton.1 hrow
    exact hall j hj owner howner

theorem walkFrom_mem (date : Date) (reached : Price) (rest : List Price) :
    walkFrom date reached rest = reached ∨ walkFrom date reached rest ∈ rest := by
  induction rest generalizing reached with
  | nil => exact .inl rfl
  | cons next rest ih =>
    rw [walkFrom]
    split
    · exact .inl rfl
    · rcases ih next with h | h
      · rw [h]
        exact .inr mem_cons_self
      · exact .inr (mem_cons_of_mem _ h)

theorem walk_eq_or_mem (prices : List Price) (p : Price) (date : Date) :
    walk prices p date = p ∨ (walk prices p date ∈ prices ∧ (walk prices p date).Approved) := by
  rcases walkFrom_mem date p _ with h | h
  · exact .inl h
  · right
    obtain ⟨hmem, -, -, happ⟩ := mem_approvedPrices.1
      ((dropWhile_sublist _).subset ((drop_sublist _ _).subset h))
    exact ⟨hmem, happ⟩

/-- A price bound by renewal is offered, and it is in force or still binds. -/
theorem renewal_eq_some (hitem : item ∈ ctx.items) (hentry : item.entry = some entry)
    (hpinned : ctx.Offers q) (h : renewal entry dim q date = some p) :
    ctx.Offers p ∧ (p.InForceOn date ∨ p.BindsOn date) := by
  rw [renewal] at h
  split at h
  · rename_i own hown
    cases h
    unfold ownMove at hown
    split at hown
    · obtain ⟨hmem, -, -, happ, hforce⟩ := ownVersionAt_eq_some (Option.filter_eq_some_iff.1 hown).1
      exact ⟨⟨happ, item, hitem, entry, hentry, hmem⟩, .inl hforce⟩
    · cases hown
  · dsimp only at h
    split at h
    · rename_i hbinds
      cases h
      refine ⟨?_, .inr hbinds⟩
      rcases walk_eq_or_mem entry.prices q date with heq | ⟨hmem, happ⟩
      · rwa [heq]
      · exact ⟨happ, item, hitem, entry, hentry, hmem⟩
    · obtain ⟨hmem, happ, hforce⟩ := versionAt_eq_some h
      exact ⟨⟨happ, item, hitem, entry, hentry, hmem⟩, .inl hforce⟩

/-- **Every bound price is an approved price of the context**, in force by its stored window or
reached by the walk with its own end ahead. -/
theorem matrix_binding {res : List ItemResolution} {i : ItemResolution} {c : Chain} {b : Binding}
    (h : matrix ctx date pins = .ok res) (hi : i ∈ res) (hc : c ∈ i.chains)
    (hb : c.binding = some b) :
    ctx.Offers b.price ∧ (b.price.InForceOn date ∨ b.price.BindsOn date) := by
  simp only [matrix, ok_iffs] at h
  obtain ⟨-, -, pinned, hpinned, rfl⟩ := h
  obtain ⟨item, hitem, rfl⟩ := mem_map.1 hi
  rw [resolveItem] at hc
  split at hc
  · cases hc
  · rename_i entry hentry
    obtain ⟨dim, -, rfl⟩ := mem_map.1 hc
    obtain ⟨⟨p, from_⟩, hbind, rfl⟩ := Option.map_eq_some_iff.1 hb
    unfold Pricing.bind at hbind
    split at hbind
    · obtain ⟨q, hq, heq⟩ := Option.map_eq_some_iff.1 hbind
      cases heq
      obtain ⟨hmem, happ, hforce⟩ := versionAt_eq_some hq
      exact ⟨⟨happ, item, hitem, entry, hentry, hmem⟩, .inl hforce⟩
    · rename_i q hq
      obtain ⟨p', hp', heq⟩ := Option.map_eq_some_iff.1 hbind
      cases heq
      obtain ⟨row, hrow, rfl⟩ := Option.map_eq_some_iff.1 hq
      exact renewal_eq_some hitem hentry
        (offers_of_judgePins hpinned row (mem_of_find?_eq_some hrow)) hp'

end Gears.Pricing
