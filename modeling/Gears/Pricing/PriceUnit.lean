import Gears.Pricing.Temporary
import Gears.Lib.Machine
import Mathlib

/-!
# Price units

A unit proposes prices of an entry and changes of its approved prices, a cancel or an end.  When
it is approved it is judged once more against the entry's current prices and applied.

* `guardChange` : the guards of a cancel or an end.
* `judge` : shift, validate against the approved prices, change and normalise one entry's chain.
* `EntryPrices.apply` : the rows an applied unit leaves; runs of units are runs of this step.
-/

namespace Gears.Pricing

open Money Except List

/-- The input field a refusal code names. -/
def fieldOf (code : String) : String :=
  if code ∈ ["WINDOW_START_IN_PAST", "WINDOW_START_INVALID", "WINDOW_OVERLAP",
    "PRICE_INSIDE_TEMPORARY"] then "effective_from"
  else if code ∈ ["WINDOW_END_INVALID", "PAIR_RETURN_STALE", "TEMPORARY_SPANS_A_CHANGE"] then
    "temporary_until"
  else if code = "END_DATE_INVALID" then "effective_to"
  else if code ∈ ["DIM_NOT_DECLARED", "DIM_VALUE_UNKNOWN"] then "dim_value"
  else if code = "MIN_FEE_INVALID" then "min_fee"
  else if code = "ELIGIBILITY_INVALID" then "eligibility"
  else if code ∈ ["PAIR_SPLIT", "PRICE_NOT_IN_BOOK", "PRICE_NOT_DRAFT"] then "price_ids"
  else "price"

/-- Why a unit is refused. -/
inductive ApprovalError
  | invalidSubmit (code field detail : String)
  | applyRefused (code detail : String)
  | store (detail : String)
  deriving DecidableEq, Repr

/-- A refusal of the submitted content. -/
def invalid (code detail : String) : ApprovalError := .invalidSubmit code (fieldOf code) detail

/-- A rule's refusal of one price. -/
def rule (error : RuleError) (id : Uuid) : ApprovalError := invalid error.code ("price " ++ id.text)

/-- A refusal met again at apply is a change of the environment. -/
def applied : ApprovalError → ApprovalError
  | .invalidSubmit code _ detail => .applyRefused code detail
  | other => other

/-! ### Changes of approved prices -/

/-- A cancel or an end of the approved price `target`; `id` is the change's own row. -/
inductive Change
  | cancel (id target : Uuid)
  | endAt (id target : Uuid) (fin : Date)
  deriving DecidableEq, Repr

namespace Change

/-- The change row. -/
def id : Change → Uuid
  | .cancel id _ => id
  | .endAt id _ _ => id

/-- The approved price the change names. -/
def target : Change → Uuid
  | .cancel _ target => target
  | .endAt _ target _ => target

/-- Whether the change is a cancel. -/
def isCancel : Change → Bool
  | .cancel _ _ => true
  | .endAt _ _ _ => false

end Change

/-- Where the guards of a change run: at its door or at submit, or at the unit's apply. -/
inductive Stage
  | judge
  | apply
  deriving DecidableEq, Repr

/-- The guards of a cancel or an end against the chain the unit's own prices leave; `pending` are
the pending change rows with their targets, and `bound` says whether a binding names the target.
An end answers its price closed at the new end. -/
def guardChange (change : Change) (chain : List Price) (pending : List (Uuid × Uuid))
    (today : Date) (stage : Stage) (bound : Bool) : Except ApprovalError (Option Price) :=
  let refusal (code : String) := invalid code ("price " ++ change.target.text)
  let target := chain.find? fun row => row.id = change.target ∧ row.Approved
  let isPending := pending.any fun row => row.1 ≠ change.id ∧ row.2 = change.target
  match change with
  | .cancel _ _ => do
    rejectIf (target = none) (refusal "PRICE_NOT_SCHEDULED")
    rejectIf (target.any fun t => t.effectiveFrom ≤ today)
      (refusal (match stage with
        | .judge => "PRICE_NOT_SCHEDULED"
        | .apply => "PRICE_ALREADY_STARTED"))
    rejectIf isPending (refusal "PRICE_CHANGE_PENDING")
    rejectIf bound (refusal "PRICE_BOUND")
    pure none
  | .endAt _ named fin => do
    rejectIf (target.all fun t => t.effectiveTo.any (· ≤ today))
      (refusal "PRICE_ALREADY_ENDED")
    rejectIf isPending (refusal "PRICE_CHANGE_PENDING")
    rejectIf (fin ≤ today) (refusal "END_DATE_INVALID")
    let closed ← (endPrice chain named fin).mapError (rule · named)
    pure (some closed)

/-- The metering of a SKU version. -/
structure SkuMetering where
  meterUnit : Option String
  usageTypeRef : Option String
  deriving DecidableEq, Repr

/-- The package size of a package price. -/
def Price.packageSize (p : Price) : Option Decimal :=
  match p.price with
  | some (.package size _) => some size
  | _ => none

/-- A usage chain keeps its package size and its metering. -/
def chainGuard (kind : ChargeKind) (predecessor : Price) (was : SkuMetering) (successor : Price)
    (is : SkuMetering) : Except RuleError Unit :=
  onlyIf (kind = .usage) (rejectIf (was ≠ is ∨ (predecessor.model = .package ∧
    !sameOptional predecessor.packageSize successor.packageSize)) ⟨"CHAIN_MODEL_CHANGED"⟩)

/-- The chain guard over every link that touches the unit. -/
def guardUsage (metering : Date → Except ApprovalError SkuMetering) (chain : List Price)
    (unit : List Uuid) : Except ApprovalError Unit :=
  chain.forM fun successor =>
    forSome (inForceBefore chain successor) fun predecessor =>
      onlyIf (successor.id ∈ unit ∨ predecessor.id ∈ unit) do
        let was ← metering predecessor.effectiveFrom
        let is ← metering successor.effectiveFrom
        (chainGuard .usage predecessor was successor is).mapError (rule · successor.id)

/-! ### Judging an entry's part of a unit -/

/-- The state of an entry's reference in the product registry. -/
inductive ReferenceState
  | confirmationPending
  | confirmed
  | lost
  | released
  deriving DecidableEq, Repr

/-- What judging an entry reads beside the entry's prices. -/
structure EntryReads where
  /-- The entry is of the unit's book. -/
  inBook : Bool
  referenceState : ReferenceState
  bookArchived : Bool
  /-- The usage policy refuses the entry's meter. -/
  meterRefused : Bool
  kind : ChargeKind
  /-- The values declared for the entry's dimension key. -/
  values : Option (List String)
  /-- The book's currency, and its spec at today's scale. -/
  currency : String
  current : Option CurrencySpec
  /-- The usage policy refuses a minimum fee. -/
  refusesMinimumFee : Bool
  metering : Date → Except ApprovalError SkuMetering
  /-- The pending change rows of the entry with their targets. -/
  pending : List (Uuid × Uuid)
  /-- The prices that a consumer's binding names. -/
  bound : List Uuid

variable (reads : EntryReads)

/-- The refusals of the entry itself. -/
def checkEntry (entry : Uuid) : Except ApprovalError Unit := do
  let refusal (code : String) := invalid code ("entry " ++ entry.text)
  rejectIf (!reads.inBook) (refusal "PRICE_NOT_IN_BOOK")
  rejectIf (reads.referenceState = .lost) (refusal "ENTRY_REFERENCE_LOST")
  rejectIf (reads.referenceState = .released)
    (refusal (if reads.bookArchived then "BOOK_ARCHIVED" else "ENTRY_REFERENCE_RELEASED"))
  rejectIf reads.meterRefused (refusal "METER_POLICY_REFUSED")

/-- A draft of another scale than the currency's is refused. -/
def checkCurrency (drafts : List Price) : Except ApprovalError Unit :=
  match reads.current with
  | none => refuse (drafts.head?.map fun draft =>
      invalid "BOOK_CURRENCY_INVALID"
        ("price " ++ draft.id.text ++ ": currency " ++ reads.currency))
  | some current =>
    refuse ((drafts.find? fun r => r.currency ≠ current).map fun stale =>
      invalid "CURRENCY_SCALE_CHANGED"
        ("price " ++ stale.id.text ++ ": stored at scale " ++ toString stale.currency.scale ++
          ", the table now gives " ++ current.code ++ " scale " ++ toString current.scale))

/-- The first rule that refuses a price against the approved ones. -/
def firstRefusal (candidate : Price) (siblings : List Price) (today : Date) : Option RuleError :=
  if candidate.minFee.isSome && reads.refusesMinimumFee then some ⟨"UNSUPPORTED_TERMS"⟩
  else (candidate.validate reads.kind reads.values siblings today).head?

/-- The proposed prices one by one; `starts` are the starts the unit has taken. -/
def checkPrices (reads : EntryReads) (siblings : List Price) (today : Date) :
    List (Option String × Date) → List Price → Except ApprovalError Unit
  | _, [] => pure ()
  | starts, r :: rest => do
    refuse ((firstRefusal reads r siblings today).map (rule · r.id))
    rejectIf ((r.dimValue, r.effectiveFrom) ∈ starts)
      (invalid "WINDOW_OVERLAP" ("price " ++ r.id.text))
    checkPrices reads siblings today ((r.dimValue, r.effectiveFrom) :: starts) rest

/-- The window rules between the proposed prices and the approved ones. -/
def checkWindows (siblings proposed : List Price) : Except ApprovalError Unit := do
  let around := siblings ++ proposed
  refuse ((proposed.find? fun r => !temporaryIsCurrent siblings r proposed).map fun stale =>
    invalid "PAIR_RETURN_STALE" ("price " ++ stale.id.text))
  refuse (proposed.findSome? fun r => (temporaryHolding r around).map fun promo =>
    invalid "PRICE_INSIDE_TEMPORARY"
      ("price " ++ r.id.text ++ " starts inside temporary price " ++ promo.id.text))
  refuse (proposed.findSome? fun r => (startSpanned r around).map fun start =>
    invalid "TEMPORARY_SPANS_A_CHANGE"
      ("temporary price " ++ r.id.text ++ " spans the start of price " ++ start.id.text))

/-- The chain while the unit's changes are judged one after another. -/
structure Changing where
  chain : List Price
  named : List Uuid
  /-- The dimension values whose chains the unit touches. -/
  touched : List (Option String)

/-- Put a closed price in the place of its row. -/
def replaceRow (closed : Price) : List Price → List Price
  | [] => []
  | row :: rest => if row.id = closed.id then closed :: rest else row :: replaceRow closed rest

/-- One change, against the chain `before` any of them. -/
def judgeChange (before : List Price) (today : Date) (stage : Stage)
    (c : Changing) (change : Change) : Except ApprovalError Changing := do
  rejectIf (change.target ∈ c.named)
    (invalid "PRICE_CHANGE_PENDING" ("price " ++ change.target.text))
  let ended ← guardChange change before reads.pending today stage
    (change.isCancel && reads.bound.contains change.target)
  pure {
    chain := match ended with
      | some closed => replaceRow closed c.chain
      | none => c.chain.filter fun row => row.id ≠ change.target
    named := change.target :: c.named
    touched := ((before.find? fun row => row.id = change.target).map (·.dimValue)).toList ++
      c.touched }

/-- One entry's part of a unit, judged. -/
structure Judged where
  proposed : List Price
  chain : List Price
  touched : List (Option String)

/-- The approved prices of the entry outside the unit. -/
def siblingsOf (stored : List Price) (unit : List Uuid) : List Price :=
  stored.filter fun r => r.Approved ∧ r.id ∉ unit

/-- Shift, validate against the current approved prices, change, normalise and guard one entry's
prices. -/
def judge (entry : Uuid) (stored drafts : List Price)
    (changes : List Change) (common : Option Date) (today : Date) (stage : Stage) :
    Except ApprovalError Judged := do
  checkEntry reads entry
  let unit := drafts.map (·.id) ++ changes.map (·.id)
  let siblings := siblingsOf stored unit
  checkCurrency reads drafts
  let proposed ← (shiftSelection drafts common).mapError (rule · entry)
  checkPrices reads siblings today [] proposed
  checkWindows siblings proposed
  let before := siblings ++ proposed.map fun r => { r with state := .approved }
  let changed ← changes.foldlM (judgeChange reads before today stage)
    { chain := before, named := [], touched := proposed.map (·.dimValue) }
  let chain := normalizeWindows changed.chain
  onlyIf (reads.kind = .usage) (guardUsage reads.metering chain unit)
  pure { proposed, chain, touched := changed.touched }

/-- A draft as its author opens it: a plain price, or a temporary price drafted against the
prices `seen` at that time. -/
inductive Draft
  | plain (price : Price)
  | temporary (seen : List Price) (promo : Price) (until_ : Date) (returnId : Uuid)

/-- A draft row carries no end and no pair. -/
def Price.asDraft (p : Price) : Price :=
  { p with
    effectiveTo := none, temporaryUntil := none, pairedPriceId := none, returnOfPriceId := none,
    closedExplicitly := false, state := .draft }

/-- The rows a draft is written as. -/
def Draft.build : Draft → Except RuleError (List Price)
  | .plain price => pure [price.asDraft]
  | .temporary seen promo until_ returnId => Pricing.temporary seen promo.asDraft until_ returnId

/-- A unit at its apply: the drafts it selects from, the rows it selects, its changes, its common
start, and what the apply reads. -/
structure PriceUnit where
  drafts : List Draft
  items : List Uuid
  changes : List Change
  commonEffectiveDate : Option Date
  today : Date
  reads : EntryReads

namespace PriceUnit

/-- All draft rows, whole pairs. -/
def rows (u : PriceUnit) : Except RuleError (List Price) :=
  (u.drafts.mapM Draft.build).map flatten

/-- The selected rows, locked by the unit. -/
def selected (u : PriceUnit) (rows : List Price) : List Price :=
  (rows.filter fun r => r.id ∈ u.items).map fun r => { r with state := .pending }

/-- A submitted unit holds whole pairs. -/
def validateSubmit (selected : List Price) : Except ApprovalError Unit :=
  refuse ((selected.find? fun m => m.pairedPriceId.any fun partner =>
    partner ∉ selected.map (·.id)).map fun m => invalid "PAIR_SPLIT" ("price " ++ m.id.text))

end PriceUnit

/-! ### Applying a unit to an entry -/

/-- A price row with its mark for consumers that stay bound to it. -/
structure StoredPrice where
  price : Price
  keepForBound : Bool
  deriving DecidableEq, Repr

/-- The price rows of one entry. -/
structure EntryPrices where
  id : Uuid
  rows : List StoredPrice
  deriving DecidableEq, Repr

namespace EntryPrices

/-- An entry without prices. -/
def empty (id : Uuid) : EntryPrices := ⟨id, []⟩

/-- The prices of the entry. -/
def prices (L : EntryPrices) : List Price := L.rows.map (·.price)

end EntryPrices

namespace Judged

/-- The normalised row of a price. -/
def normalised (j : Judged) (id : Uuid) : Option Price := j.chain.find? fun c => c.id = id

/-- The current predecessors of the `new` prices of the touched chains. -/
def keep (j : Judged) : List Uuid :=
  (j.chain.filter fun c => c.eligibility = .new ∧ c.dimValue ∈ j.touched).filterMap fun c =>
    (inForceBefore j.chain c).map (·.id)

/-- A proposed price approved with its normalised end. -/
def approve (j : Judged) (r : Price) : StoredPrice where
  price := { r with
    state := .approved, effectiveTo := (j.normalised r.id).bind (·.effectiveTo) }
  keepForBound := decide (r.id ∈ j.keep)

/-- A stored row after the apply: cancelled, ended, or closed where its chain closes it. -/
def rewriteRow (j : Judged) (changes : List Change) (stored : StoredPrice) :
    Except ApprovalError StoredPrice :=
  if ¬ stored.price.Approved then pure stored
  else if stored.price.id ∈ (changes.filter (·.isCancel)).map (·.target) then
    pure { stored with price := { stored.price with state := .cancelled } }
  else
    match j.normalised stored.price.id with
    | none => pure stored
    | some row =>
      let keepForBound := stored.keepForBound || decide (stored.price.id ∈ j.keep)
      if stored.price.id ∈ (changes.filter (!·.isCancel)).map (·.target) then
        match row.effectiveTo with
        | none => throw (.store ("price " ++ stored.price.id.text ++ " lost its new end"))
        | some fin => pure
            { price := { stored.price with effectiveTo := some fin, closedExplicitly := true }
              keepForBound }
      else pure { price := { stored.price with effectiveTo := row.effectiveTo }, keepForBound }

end Judged

namespace EntryPrices

variable (L : EntryPrices)

/-- The unit's draft rows of the entry, by id. -/
def draftsOf (selected : List Price) : List Price :=
  (selected.filter fun r => r.priceBookEntryId = L.id).sortByKey fun r => r.id.toNat

/-- The unit's changes of the entry's prices, by id. -/
def changesOf (u : PriceUnit) : List Change :=
  (u.changes.filter fun c => c.target ∈ L.prices.map (·.id)).sortByKey fun c => c.id.toNat

/-- Judge the entry's part of a unit and write its rows. -/
def applyPart (u : PriceUnit) (drafts : List Price) (changes : List Change) :
    Except ApprovalError EntryPrices := do
  let judged ← (judge u.reads L.id L.prices drafts changes u.commonEffectiveDate u.today
    .apply).mapError applied
  let rewritten ← L.rows.mapM (judged.rewriteRow changes)
  pure { L with rows := rewritten ++ judged.proposed.map judged.approve }

/-- Apply a unit: its rows were written under fresh ids and submitted as whole pairs; an entry it
has no rows of is not touched. -/
def apply (u : PriceUnit) : Except ApprovalError EntryPrices := do
  let rows ← u.rows.mapError (rule · L.id)
  rejectIf (¬ (L.prices.map (·.id) ++ (rows.map (·.id) ++ u.changes.map (·.id))).Nodup)
    (.store "duplicate key")
  let selected := u.selected rows
  PriceUnit.validateSubmit selected
  let drafts := L.draftsOf selected
  let changes := L.changesOf u
  if drafts.isEmpty && changes.isEmpty then pure L else L.applyPart u drafts changes

/-- The prices a unit proposes for the entry, on the dates they would be approved with. -/
def proposedBy (u : PriceUnit) : Except RuleError (List Price) := do
  let rows ← u.rows
  shiftSelection (L.draftsOf (u.selected rows)) u.commonEffectiveDate

/-- The approved prices of the entry. -/
def approved : List Price := L.prices.filter fun r => r.Approved

/-- The chain the unit's own prices leave, before its changes. -/
def before (proposed : List Price) : List Price :=
  L.approved ++ proposed.map fun r => { r with state := .approved }

end EntryPrices

/-! ### What the changes do to the chain -/

/-- What a unit's changes make of the price `b`: a price no change names is kept, and a price an
end names is closed; a cancelled price is gone. -/
def Outcome (before : List Price) (changes : List Change) (b a : Price) : Prop :=
  (b.id ∉ changes.map (·.target) ∧ a = b) ∨
    ∃ id fin, Change.endAt id b.id fin ∈ changes ∧ endPrice before b.id fin = .ok a

section Changes

variable {reads : EntryReads} {before : List Price} {today : Date} {stage : Stage}
  {changes : List Change} {change : Change} {c c' : Changing} {p q : Price}

theorem id_of_endPrice {target : Uuid} {fin : Date} (h : endPrice before target fin = .ok p) :
    p.id = target := by
  obtain ⟨price, -, hid, -, -, -, rfl⟩ := endPrice_eq_ok h
  exact hid

/-- What one change makes of a price: a cancelled price is gone, an ended one is closed. -/
def Change.effect (before : List Price) (change : Change) (p : Price) : Option Price :=
  if p.id = change.target then
    match change with
    | .cancel _ _ => none
    | .endAt _ target fin => (endPrice before target fin).toOption
  else some p

theorem replaceRow_eq_map {closed : Price} {rows : List Price} (hrows : (rows.map (·.id)).Nodup) :
    replaceRow closed rows = rows.map fun row => if row.id = closed.id then closed else row := by
  induction rows with
  | nil => rfl
  | cons row rest ih =>
    obtain ⟨hrow, hrest⟩ := nodup_cons.1 hrows
    rw [replaceRow, map_cons]
    split_ifs with h
    · have hothers : rest.map (fun row => if row.id = closed.id then closed else row) =
        rest.map id :=
        map_congr_left fun r hr =>
          if_neg fun hid => hrow (mem_map.2 ⟨r, hr, hid.trans h.symm⟩)
      rw [hothers, List.map_id]
    · rw [ih hrest]

theorem judgeChange_eq_ok (hids : (c.chain.map (·.id)).Nodup)
    (h : judgeChange reads before today stage c change = .ok c') :
    change.target ∉ c.named ∧ c'.named = change.target :: c.named ∧
      c'.chain = c.chain.filterMap (change.effect before) := by
  simp only [judgeChange, ok_iffs, exists_const] at h
  obtain ⟨hnamed, o, hguard, rfl⟩ := h
  refine ⟨hnamed, rfl, ?_⟩
  cases change with
  | cancel id target =>
    simp only [guardChange, ok_iffs] at hguard
    obtain ⟨-, -, -, -, -, -, -, -, rfl⟩ := hguard
    rw [← filterMap_eq_filter]
    refine filterMap_congr fun p _ => ?_
    by_cases hp : p.id = target <;> simp [Change.effect, Change.target, hp]
  | endAt id target fin =>
    simp only [guardChange, ok_iffs] at hguard
    obtain ⟨-, -, -, -, -, -, closed, hclosed, rfl⟩ := hguard
    dsimp only
    rw [replaceRow_eq_map hids, ← filterMap_eq_map]
    refine filterMap_congr fun p _ => ?_
    rw [id_of_endPrice hclosed]
    by_cases hp : p.id = target
      <;> simp [Change.effect, Change.target, hp, hclosed, Except.toOption]

theorem id_of_effect (h : change.effect before p = some q) : q.id = p.id := by
  unfold Change.effect at h
  split_ifs at h with hid
  · cases change with
    | cancel _ _ => cases h
    | endAt _ target fin =>
      cases hclosed : endPrice before target fin with
      | error e => simp [hclosed, Except.toOption] at h
      | ok closed =>
        simp only [hclosed, Except.toOption, Option.some.injEq] at h
        exact h ▸ (id_of_endPrice hclosed).trans hid.symm
  · cases h
    rfl

theorem outcome_of_target (h : p.id ∉ changes.map (·.target)) :
    Outcome before changes p q ↔ q = p := by
  constructor
  · rintro (⟨-, rfl⟩ | ⟨id, fin, hmem, -⟩)
    · rfl
    · exact absurd (mem_map_of_mem hmem) h
  · intro hq
    exact .inl ⟨h, hq⟩

theorem outcome_cons (hfresh : change.target ∉ changes.map (·.target)) :
    Outcome before (change :: changes) p q ↔
      ∃ p₁, change.effect before p = some p₁ ∧ Outcome before changes p₁ q := by
  by_cases hid : p.id = change.target
  · have hlater (id : Uuid) (fin : Date) : Change.endAt id p.id fin ∉ changes := fun hin =>
      hfresh (hid ▸ mem_map_of_mem hin)
    cases change with
    | cancel id target =>
      obtain rfl : p.id = target := hid
      simp [Outcome, Change.effect, Change.target, hlater]
    | endAt id target fin =>
      obtain rfl : p.id = target := hid
      cases hclosed : endPrice before p.id fin with
      | error e => simp [Outcome, Change.effect, Change.target, hlater, hclosed, Except.toOption]
      | ok closed =>
        have hkept : Outcome before changes closed q ↔ q = closed :=
          outcome_of_target ((id_of_endPrice hclosed).symm ▸ hfresh)
        have heffect : (Change.endAt id p.id fin).effect before p = some closed := by
          simp [Change.effect, Change.target, hclosed, Except.toOption]
        simp only [heffect, Option.some.injEq, exists_eq_left', hkept]
        simp [Outcome, Change.target, hlater, hclosed, eq_comm]
  · have hend (id : Uuid) (fin : Date) : Change.endAt id p.id fin ≠ change := by
      rintro rfl
      exact hid rfl
    simp [Outcome, Change.effect, hid, hend]

/-- **The changes of a unit, one after another**, each name another price, and the chain they
leave holds the outcome of every price. -/
theorem foldlM_judgeChange (hids : (c.chain.map (·.id)).Nodup)
    (h : changes.foldlM (judgeChange reads before today stage) c = .ok c') :
    (∀ change ∈ changes, change.target ∉ c.named) ∧ (changes.map (·.target)).Nodup ∧
      (c'.chain.map (·.id)).Nodup ∧
      ∀ a, a ∈ c'.chain ↔ ∃ b ∈ c.chain, Outcome before changes b a := by
  induction changes generalizing c with
  | nil =>
    cases h
    exact ⟨by simp, by simp, hids, fun a => by simp [Outcome]⟩
  | cons change rest ih =>
    rw [foldlM_cons, bind_eq_ok_iff] at h
    obtain ⟨c₁, hfirst, hrest⟩ := h
    obtain ⟨hnew, hnamed, hchain⟩ := judgeChange_eq_ok hids hfirst
    have hids₁ : (c₁.chain.map (·.id)).Nodup := by
      rw [hchain, Nodup, pairwise_map]
      refine (pairwise_map.1 hids).filterMap _ fun b b' hne a ha a' ha' => ?_
      rwa [id_of_effect ha, id_of_effect ha']
    obtain ⟨hothers, hnodup, hids', hmem⟩ := ih hids₁ hrest
    simp only [hnamed, mem_cons, not_or] at hothers
    have hfresh : change.target ∉ rest.map (·.target) := by
      intro hin
      obtain ⟨other, hother, heq⟩ := mem_map.1 hin
      exact (hothers other hother).1 heq
    refine ⟨forall_mem_cons.2 ⟨hnew, fun other hother => (hothers other hother).2⟩,
      nodup_cons.2 ⟨hfresh, hnodup⟩, hids', fun a => ?_⟩
    simp only [hmem, hchain, mem_filterMap, outcome_cons hfresh]
    constructor
    · rintro ⟨b₁, ⟨b, hb, heffect⟩, hout⟩
      exact ⟨b, hb, b₁, heffect, hout⟩
    · rintro ⟨b, hb, b₁, heffect, hout⟩
      exact ⟨b₁, ⟨b, hb, heffect⟩, hout⟩

theorem endPrice_of_foldlM_judgeChange {id target : Uuid} {fin : Date}
    (h : changes.foldlM (judgeChange reads before today stage) c = .ok c')
    (hend : Change.endAt id target fin ∈ changes) :
    ∃ closed, endPrice before target fin = .ok closed := by
  obtain ⟨c₁, c₂, hstep⟩ := exists_of_foldlM h hend
  simp only [judgeChange, guardChange, ok_iffs] at hstep
  obtain ⟨-, -, -, ⟨-, -, -, -, -, -, closed, hclosed, -⟩, -⟩ := hstep
  exact ⟨closed, hclosed⟩

end Changes

section Checks

variable {reads : EntryReads} {siblings proposed : List Price} {today : Date}

theorem checkPrices_eq_ok {starts : List (Option String × Date)}
    (h : checkPrices reads siblings today starts proposed = .ok ()) :
    (∀ r ∈ proposed, ¬ r.StartTaken siblings) ∧
      (proposed.map fun r => (r.dimValue, r.effectiveFrom)).Nodup ∧
      ∀ r ∈ proposed, (r.dimValue, r.effectiveFrom) ∉ starts := by
  induction proposed generalizing starts with
  | nil => simp
  | cons r rest ih =>
    simp only [checkPrices, ok_iffs, refuse_eq_ok_iff, exists_const] at h
    obtain ⟨hrefusal, hstart, hrest⟩ := h
    obtain ⟨htaken, hnodup, hstarts⟩ := ih hrest
    have hfirst : ¬ r.StartTaken siblings := by
      rw [Option.map_eq_none_iff, firstRefusal] at hrefusal
      split at hrefusal
      · cases hrefusal
      · exact Price.not_startTaken_of_validate (head?_eq_none_iff.1 hrefusal)
    refine ⟨forall_mem_cons.2 ⟨hfirst, htaken⟩, nodup_cons.2 ⟨?_, hnodup⟩,
      forall_mem_cons.2 ⟨hstart, fun q hq hin => hstarts q hq (mem_cons_of_mem _ hin)⟩⟩
    intro hin
    obtain ⟨q, hq, heq⟩ := mem_map.1 hin
    exact hstarts q hq (heq ▸ mem_cons_self)

theorem temporaryIsCurrent_of_checkWindows (h : checkWindows siblings proposed = .ok ()) :
    ∀ r ∈ proposed, temporaryIsCurrent siblings r proposed = true := by
  simp only [checkWindows, bind_eq_ok_iff, refuse_eq_ok_iff,
    Option.map_eq_none_iff, find?_eq_none] at h
  obtain ⟨-, hcurrent, -⟩ := h
  intro r hr
  simpa using hcurrent r hr

end Checks

/-! ### What an applied unit did -/

/-- Everything a unit that was applied to an entry did: `drafts` are its rows of the entry,
`proposed` the same on their new dates, and `changed` the chain before it was normalised. -/
structure Applied (L : EntryPrices) (u : PriceUnit) (drafts proposed changed : List Price)
    (L' : EntryPrices) : Prop where
  id_eq : L'.id = L.id
  built : Built drafts
  entry : ∀ p ∈ drafts, p.priceBookEntryId = L.id
  fresh : (L.prices.map (·.id) ++ drafts.map (·.id)).Nodup
  proposedBy : L.proposedBy u = .ok proposed
  shifted : shiftSelection drafts u.commonEffectiveDate = .ok proposed
  current : ∀ r ∈ proposed, temporaryIsCurrent L.approved r proposed = true
  untaken : ∀ r ∈ proposed, ¬ r.StartTaken L.approved
  starts : (proposed.map fun r => (r.dimValue, r.effectiveFrom)).Nodup
  targets : ((L.changesOf u).map (·.target)).Nodup
  before_ids : ((L.before proposed).map (·.id)).Nodup
  /-- No change names a proposed price. -/
  unnamed : ∀ r ∈ proposed, r.id ∉ (L.changesOf u).map (·.target)
  /-- A price that no cancel names has an outcome. -/
  outcome : ∀ b : Price, b.id ∉ ((L.changesOf u).filter (·.isCancel)).map (·.target) →
    ∃ a, Outcome (L.before proposed) (L.changesOf u) b a
  changed_iff : ∀ a, a ∈ changed ↔
    ∃ b ∈ L.before proposed, Outcome (L.before proposed) (L.changesOf u) b a
  /-- The approved rows are the changed chain, recut. -/
  recut : ∀ p ∈ L'.prices, p.Approved → ∃ a ∈ changed, Recut changed a p
  kept : ∀ a ∈ changed, ∃ p ∈ L'.prices, Recut changed a p
  ids : L'.prices.map (·.id) = L.prices.map (·.id) ++ proposed.map (·.id)

variable {reads : EntryReads}

section Apply

variable {L L' : EntryPrices} {u : PriceUnit} {rows drafts proposed changed : List Price}
  {changes : List Change} {judged : Judged} {p a : Price} {s s' : StoredPrice}

theorem built_rows (h : u.rows = .ok rows) : Built rows := by
  simp only [PriceUnit.rows, map_eq_ok_iff] at h
  obtain ⟨groups, hgroups, rfl⟩ := h
  refine Built.flatten fun g hg => ?_
  obtain ⟨draft, -, hbuild⟩ :=
    (mapM_eq_ok_iff.1 hgroups).flip.exists_of_mem_left hg
  cases draft with
  | plain price =>
    cases hbuild
    intro q hq u hu
    cases mem_singleton.1 hq
    cases hu
  | temporary seen promo until_ returnId => exact built_temporary hbuild

theorem built_selected (hrows : Built rows)
    (h : PriceUnit.validateSubmit (u.selected rows) = .ok ()) : Built (u.selected rows) := by
  refine Built.withState (hrows.select (fun p hp => (mem_filter.1 hp).1) ?_) .pending
  intro p hp r hr hpair _
  simp only [PriceUnit.validateSubmit, refuse_eq_ok_iff, Option.map_eq_none_iff, find?_eq_none] at h
  have hin : r.id ∈ (u.selected rows).map (·.id) := by
    by_contra hout
    exact h _ (mem_map_of_mem hp) (by simpa [hpair] using hout)
  obtain ⟨r', hr', hid⟩ := mem_map.1 hin
  obtain ⟨r'', hr'', rfl⟩ := mem_map.1 hr'
  have hitems := (mem_filter.1 hr'').2
  exact mem_filter.2 ⟨hr, by rwa [show r''.id = r.id from hid] at hitems⟩

theorem built_draftsOf (hselected : Built (u.selected rows)) :
    Built (L.draftsOf (u.selected rows)) := by
  refine hselected.select (fun p hp => ?_) fun p hp r hr _ hchain => ?_
  · exact (mem_filter.1 (mem_sortByKey.1 hp)).1
  · have hentry := (mem_filter.1 (mem_sortByKey.1 hp)).2
    refine mem_sortByKey.2 (mem_filter.2 ⟨hr, ?_⟩)
    simpa [hchain.1] using hentry

theorem map_id_draftsOf_subperm (L : EntryPrices) (u : PriceUnit) (rows : List Price) :
    ((L.draftsOf (u.selected rows)).map (·.id)).Subperm (rows.map (·.id)) := by
  have hperm : ((L.draftsOf (u.selected rows)).map (·.id)).Perm
      (((u.selected rows).filter fun r => r.priceBookEntryId = L.id).map (·.id)) :=
    (sortByKey_perm _ _).map _
  have hsub : (((u.selected rows).filter fun r => r.priceBookEntryId = L.id).map
      (·.id)).Sublist ((rows.filter fun r => r.id ∈ u.items).map (·.id)) := by
    have := (filter_sublist (l := u.selected rows)
      (p := fun r => decide (r.priceBookEntryId = L.id))).map (·.id)
    simpa [PriceUnit.selected, Function.comp_def] using this
  exact hperm.subperm.trans (hsub.trans (filter_sublist.map _)).subperm

theorem normalised_recut (hchain : judged.chain = normalizeWindows changed)
    (hids : (changed.map (·.id)).Nodup) (ha : a ∈ changed) :
    ∃ row, judged.normalised a.id = some row ∧ Recut changed a row := by
  obtain ⟨row, hrow, hrecut⟩ := (normalizeWindows_recut changed).exists_of_mem_left ha
  have hid : row.id = a.id := (congrArg Price.id hrecut.window_only :)
  refine ⟨row, ?_, hrecut⟩
  rw [Judged.normalised, hchain, ← hid]
  exact find?_key (by rwa [map_id_normalizeWindows]) hrow

/-- The row of a price that a unit keeps or ends is the price of the normalised chain. -/
theorem price_rewriteRow {before : List Price} {row : Price}
    (hbefore : (before.map (·.id)).Nodup) (hmem : s.price ∈ before) (hs : s.price.Approved)
    (hout : Outcome before changes s.price a) (hrow : judged.normalised s.price.id = some row)
    (hrecut : Recut changed a row) (htargets : (changes.map (·.target)).Nodup)
    (h : judged.rewriteRow changes s = .ok s') : s'.price = row := by
  have hwindow := hrecut.window_only
  rw [Judged.rewriteRow, if_neg (not_not.2 hs), hrow] at h
  rcases hout with ⟨hkeep, rfl⟩ | ⟨id, fin, hend, hprice⟩
  · -- no change names the price
    have hnot (select : Change → Bool) : s.price.id ∉ (changes.filter select).map (·.target) :=
      fun hin => hkeep ((filter_sublist.map _).subset hin)
    rw [if_neg (hnot _)] at h
    dsimp only at h
    rw [if_neg (hnot _)] at h
    cases h
    exact hwindow.symm
  · -- the price is ended, so it is not cancelled
    have hnot : s.price.id ∉ (changes.filter (·.isCancel)).map (·.target) := by
      intro hin
      obtain ⟨other, hother, htarget⟩ := mem_map.1 hin
      obtain ⟨hother, hcancel⟩ := mem_filter.1 hother
      cases inj_on_of_nodup_map htargets hother hend htarget
      cases hcancel
    have hended : s.price.id ∈ (changes.filter (!·.isCancel)).map (·.target) :=
      mem_map.2 ⟨_, mem_filter.2 ⟨hend, rfl⟩, rfl⟩
    obtain ⟨price, hin, hid, -, -, -, rfl⟩ := endPrice_eq_ok hprice
    cases inj_on_of_nodup_map hbefore hin hmem hid
    rw [if_neg hnot] at h
    dsimp only at h
    rw [if_pos hended] at h
    split at h
    · cases h
    · rename_i e he
      cases h
      rw [hwindow, he]

theorem id_rewriteRow (h : judged.rewriteRow changes s = .ok s') : s'.price.id = s.price.id := by
  unfold Judged.rewriteRow at h
  split at h
  · cases h; rfl
  split at h
  · cases h; rfl
  split at h
  · cases h; rfl
  split at h
  · split at h
    · cases h
    · cases h; rfl
  · cases h; rfl

/-- A row that is approved after the apply was approved, and no cancel names it. -/
theorem approved_of_rewriteRow (h : judged.rewriteRow changes s = .ok s')
    (hs' : s'.price.Approved) :
    s.price.Approved ∧ s.price.id ∉ (changes.filter (·.isCancel)).map (·.target) := by
  unfold Judged.rewriteRow at h
  split at h
  · rename_i hs
    cases h
    exact absurd hs' hs
  rename_i hs
  refine ⟨not_not.1 hs, fun hin => ?_⟩
  rw [if_pos hin] at h
  cases h
  cases hs'

theorem judge_eq_ok {entry : Uuid} {stored siblings : List Price} {common : Option Date}
    {today : Date} {stage : Stage}
    (hsiblings : siblingsOf stored (drafts.map (·.id) ++ changes.map (·.id)) = siblings)
    (h : judge reads entry stored drafts changes common today stage = .ok judged) :
    shiftSelection drafts common = .ok judged.proposed ∧
      checkPrices reads siblings today [] judged.proposed = .ok () ∧
      checkWindows siblings judged.proposed = .ok () ∧
      ∃ c', changes.foldlM (judgeChange reads
          (siblings ++ judged.proposed.map fun r => { r with state := .approved }) today stage)
          { chain := siblings ++ judged.proposed.map fun r => { r with state := .approved }
            named := [], touched := judged.proposed.map (·.dimValue) } = .ok c' ∧
        judged.chain = normalizeWindows c'.chain := by
  simp only [judge, hsiblings, ok_iffs] at h
  obtain ⟨-, -, -, -, proposed, hshift, ⟨⟩, hprices, ⟨⟩, hwindows, c', hfold, -, -, rfl⟩ := h
  exact ⟨hshift, hprices, hwindows, c', hfold, rfl⟩

theorem map_id_of_moved {ps qs : List Price} (h : Forall₂ Moved ps qs) :
    qs.map (·.id) = ps.map (·.id) := by
  induction h with
  | nil => rfl
  | cons hmoved _ ih =>
    rw [map_cons, map_cons, ih, (congrArg Price.id hmoved :)]

theorem id_of_outcome {before : List Price} (h : Outcome before changes p a) : a.id = p.id := by
  rcases h with ⟨-, rfl⟩ | ⟨_, _, -, hprice⟩
  · rfl
  · exact id_of_endPrice hprice

theorem price_approve {row : Price} (hrow : judged.normalised p.id = some row)
    (hrecut : Recut changed { p with state := .approved } row) :
    (judged.approve p).price = row := by
  have hwindow := hrecut.window_only
  rw [Judged.approve, hrow]
  exact hwindow.symm

theorem exists_outcome {before : List Price} {today : Date} {stage : Stage} {c c' : Changing}
    (h : changes.foldlM (judgeChange reads before today stage) c = .ok c')
    (hp : p.id ∉ (changes.filter (·.isCancel)).map (·.target)) :
    ∃ a, Outcome before changes p a := by
  by_cases hin : p.id ∈ changes.map (·.target)
  · obtain ⟨change, hchange, htarget⟩ := mem_map.1 hin
    cases change with
    | cancel id target =>
      exact absurd (mem_map.2 ⟨_, mem_filter.2 ⟨hchange, rfl⟩, htarget⟩) hp
    | endAt id target fin =>
      obtain rfl : target = p.id := htarget
      obtain ⟨closed, hclosed⟩ := endPrice_of_foldlM_judgeChange h hchange
      exact ⟨closed, .inr ⟨id, fin, hchange, hclosed⟩⟩
  · exact ⟨p, .inl ⟨hin, rfl⟩⟩

theorem mem_changesOf {change : Change} :
    change ∈ L.changesOf u ↔ change ∈ u.changes ∧ change.target ∈ L.prices.map (·.id) := by
  simp [EntryPrices.changesOf]

theorem mem_before_of_mem_prices (hb : p ∈ L.prices) (ha : p.Approved) : p ∈ L.before proposed :=
  mem_append_left _ (mem_filter.2 ⟨hb, by simpa using ha⟩)

theorem approved_of_mem_before (h : p ∈ L.before proposed) : p.Approved := by
  rcases mem_append.1 h with h | h
  · simpa using (mem_filter.1 h).2
  · obtain ⟨r, -, rfl⟩ := mem_map.1 h
    rfl

theorem fresh_draftsOf {ids : List Uuid}
    (h : (L.prices.map (·.id) ++ (rows.map (·.id) ++ ids)).Nodup) :
    (L.prices.map (·.id) ++ (L.draftsOf (u.selected rows)).map (·.id)).Nodup := by
  obtain ⟨l, hperm, hsub⟩ := (Subperm.refl (L.prices.map (·.id))).append
    ((map_id_draftsOf_subperm L u rows).trans (sublist_append_left _ ids).subperm)
  exact hperm.nodup_iff.1 (h.sublist hsub)

theorem siblingsOf_draftsOf
    (h : (L.prices.map (·.id) ++ (rows.map (·.id) ++ u.changes.map (·.id))).Nodup) :
    siblingsOf L.prices ((L.draftsOf (u.selected rows)).map (·.id) ++
      (L.changesOf u).map (·.id)) = L.approved := by
  refine filter_congr fun p hp => ?_
  have hpid := mem_map_of_mem (f := (·.id)) hp
  have hdraft : p.id ∉ (L.draftsOf (u.selected rows)).map (·.id) := fun hin =>
    (nodup_append.1 (fresh_draftsOf h)).2.2 _ hpid _ hin rfl
  have hchange : p.id ∉ (L.changesOf u).map (·.id) := by
    intro hin
    obtain ⟨change, hchange, hid⟩ := mem_map.1 hin
    exact (nodup_append.1 h).2.2 p.id hpid change.id (mem_append_right _
      (mem_map_of_mem (mem_changesOf.1 hchange).1)) hid.symm
  simp only [mem_append, hdraft, hchange, or_self, not_false_eq_true, and_true]

section Chain

-- the chain of the entry: `changed` after the unit's changes, and normalised in `judged`
variable (hbefore : ((L.before proposed).map (·.id)).Nodup)
  (htargets : ((L.changesOf u).map (·.target)).Nodup)
  (hids : (changed.map (·.id)).Nodup) (hchain : judged.chain = normalizeWindows changed)
  (hmem : ∀ a, a ∈ changed ↔
    ∃ b ∈ L.before proposed, Outcome (L.before proposed) (L.changesOf u) b a)
include hids hchain hmem

include hbefore htargets in
theorem recut_rewriteRow (hs : s ∈ L.rows) (ha : s.price.Approved)
    (hrow : judged.rewriteRow (L.changesOf u) s = .ok s')
    (hout : Outcome (L.before proposed) (L.changesOf u) s.price a) :
    a ∈ changed ∧ Recut changed a s'.price := by
  have hb : s.price ∈ L.before proposed := mem_before_of_mem_prices (mem_map_of_mem hs) ha
  have hin : a ∈ changed := (hmem a).2 ⟨_, hb, hout⟩
  obtain ⟨row, hnorm, hrecut⟩ := normalised_recut hchain hids hin
  rw [id_of_outcome hout] at hnorm
  exact ⟨hin, by rwa [price_rewriteRow hbefore hb ha hout hnorm hrecut htargets hrow]⟩

theorem recut_approve (hp : p ∈ proposed) (hnamed : p.id ∉ (L.changesOf u).map (·.target)) :
    { p with state := .approved } ∈ changed ∧
      Recut changed { p with state := .approved } (judged.approve p).price := by
  have hin : { p with state := .approved } ∈ changed :=
    (hmem _).2 ⟨_, mem_append_right _ (mem_map_of_mem hp), .inl ⟨hnamed, rfl⟩⟩
  obtain ⟨row, hnorm, hrecut⟩ := normalised_recut hchain hids hin
  exact ⟨hin, by rwa [price_approve (p := p) hnorm hrecut]⟩

end Chain

/-- What judging and writing a unit's rows of an entry does, where their ids are fresh. -/
theorem applied_of_applyPart (hselected : Built (u.selected rows)) (hrows : u.rows = .ok rows)
    (hnodup : (L.prices.map (·.id) ++ (rows.map (·.id) ++ u.changes.map (·.id))).Nodup)
    (h : L.applyPart u (L.draftsOf (u.selected rows)) (L.changesOf u) = .ok L') :
    ∃ proposed changed,
      Applied L u (L.draftsOf (u.selected rows)) proposed changed L' := by
  simp only [EntryPrices.applyPart, ok_iffs] at h
  obtain ⟨judged, hjudge, rewritten, hrewritten, rfl⟩ := h
  obtain ⟨hshift, hprices, hwindows, c', hfold, hchain⟩ :=
    judge_eq_ok (siblingsOf_draftsOf hnodup) hjudge
  have hfresh := fresh_draftsOf (u := u) hnodup
  have hids := map_id_of_moved (moved_of_shiftSelection hshift)
  have hbefore : ((L.before judged.proposed).map (·.id)).Nodup := by
    rw [EntryPrices.before, map_append, map_map]
    refine hfresh.sublist (Sublist.append (filter_sublist.map _) ?_)
    rw [← hids]
    exact Sublist.refl _
  have hnamed (r : Price) (hr : r ∈ judged.proposed) :
      r.id ∉ (L.changesOf u).map (·.target) := by
    intro hin
    obtain ⟨change, hchange, hid⟩ := mem_map.1 hin
    exact (nodup_append.1 hfresh).2.2 r.id (hid ▸ (mem_changesOf.1 hchange).2) _
      (hids ▸ mem_map_of_mem hr) rfl
  obtain ⟨-, htargets, hchangedIds, hmem⟩ := foldlM_judgeChange hbefore hfold
  have hall := mapM_eq_ok_iff.1 hrewritten
  have happroved (r : Price) (hr : r ∈ judged.proposed) :=
    recut_approve hchangedIds hchain hmem hr (hnamed r hr)
  refine ⟨judged.proposed, c'.chain, {
    id_eq := rfl
    built := built_draftsOf hselected
    entry := fun p hp => by simpa using (mem_filter.1 (mem_sortByKey.1 hp)).2
    fresh := hfresh
    proposedBy := bind_eq_ok_iff.2 ⟨rows, hrows, hshift⟩
    shifted := hshift
    current := temporaryIsCurrent_of_checkWindows hwindows
    untaken := (checkPrices_eq_ok hprices).1
    starts := (checkPrices_eq_ok hprices).2.1
    targets := htargets
    before_ids := hbefore
    unnamed := hnamed
    outcome := fun b hb => exists_outcome hfold hb
    changed_iff := hmem
    recut := ?_
    kept := ?_
    ids := ?_ }⟩
  · -- an approved row was approved before, or is proposed
    intro p hp ha
    rw [EntryPrices.prices, map_append] at hp
    rcases mem_append.1 hp with hp | hp
    · obtain ⟨s', hs', rfl⟩ := mem_map.1 hp
      obtain ⟨s, hs, hrow⟩ := hall.flip.exists_of_mem_left hs'
      obtain ⟨hsa, hcancel⟩ := approved_of_rewriteRow hrow ha
      obtain ⟨a, hout⟩ := exists_outcome hfold hcancel
      exact ⟨a, recut_rewriteRow hbefore htargets hchangedIds hchain hmem hs hsa hrow hout⟩
    · simp only [map_map, mem_map] at hp
      obtain ⟨r, hr, rfl⟩ := hp
      exact ⟨_, happroved r hr⟩
  · -- a price of the changed chain has its row
    intro a ha
    obtain ⟨b, hb, hout⟩ := (hmem a).1 ha
    simp only [EntryPrices.prices, map_append, mem_append]
    rcases mem_append.1 hb with hb | hb
    · obtain ⟨hb, happ⟩ := mem_filter.1 hb
      obtain ⟨s, hs, rfl⟩ := mem_map.1 hb
      obtain ⟨s', hs', hrow⟩ := hall.exists_of_mem_left hs
      have happ : s.price.Approved := by simpa using happ
      exact ⟨s'.price, .inl (mem_map_of_mem hs'),
        (recut_rewriteRow hbefore htargets hchangedIds hchain hmem hs happ hrow hout).2⟩
    · obtain ⟨r, hr, rfl⟩ := mem_map.1 hb
      obtain rfl := (outcome_of_target (p := { r with state := .approved }) (hnamed r hr)).1 hout
      exact ⟨_, .inr (mem_map_of_mem (mem_map_of_mem hr)), (happroved r hr).2⟩
  · have hrows' : rewritten.map (·.price.id) = L.rows.map (·.price.id) :=
      map_eq_of_mapM hrewritten fun s s' hrow => id_rewriteRow hrow
    simpa [EntryPrices.prices, Judged.approve, Function.comp_def] using hrows'

/-- **An applied unit leaves the entry as it was, or did everything `Applied` says.** -/
theorem EntryPrices.apply_eq_ok (h : L.apply u = .ok L') : (L' = L ∧ L.changesOf u = []) ∨
      ∃ drafts proposed changed, Applied L u drafts proposed changed L' := by
  simp only [EntryPrices.apply, ok_iffs, exists_const, not_not] at h
  obtain ⟨rows, hrows, hnodup, ⟨⟩, hsubmit, h⟩ := h
  split at h
  · rename_i hnone
    cases h
    simp only [Bool.and_eq_true, List.isEmpty_iff] at hnone
    exact .inl ⟨rfl, hnone.2⟩
  · exact .inr ⟨_, applied_of_applyPart (built_selected (built_rows hrows) hsubmit) hrows hnodup h⟩

variable {b : Price}

theorem Applied.outcome_dates (h : Applied L u drafts proposed changed L')
    (hb : b ∈ L.before proposed) (hout : Outcome (L.before proposed) (L.changesOf u) b a) :
    a.SameChain b ∧ a.effectiveFrom = b.effectiveFrom ∧ a.temporaryUntil = b.temporaryUntil ∧
      a.Approved := by
  rcases hout with ⟨-, rfl⟩ | ⟨_, _, -, hprice⟩
  · exact ⟨⟨rfl, rfl⟩, rfl, rfl, approved_of_mem_before hb⟩
  · obtain ⟨price, hin, hid, happ, -, -, rfl⟩ := endPrice_eq_ok hprice
    cases inj_on_of_nodup_map h.before_ids hin hb hid
    exact ⟨⟨rfl, rfl⟩, rfl, rfl, happ⟩

end Apply

end Gears.Pricing
