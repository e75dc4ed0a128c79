import Gears.Orders.StateTable
import Gears.Lib.Uuid
import Gears.Lib.Keyed
import Gears.Lib.Except
import Mathlib.Data.String.Basic
import Mathlib.Data.Prod.Lex
import Mathlib.Data.List.Dedup

/-!
# Overlap claims

An order holds a claim on every product it is about while it is in flight, and no two live claims
share a payer, a resource tenant and a product key.

* `OverlapScopeKey`, `ClaimTuple`, `ProposedClaims` : what is claimed.
* `ClaimDirective.forTransition` : what a transition does to the claims of its order.
* `plan` : held claims against a proposal.
* `maintainClaims` : release all, retain, or acquire what is missing and release what is superseded.
* `Store.admitRow` : a transition, with its claims, in one transaction.
-/

namespace Gears.Orders

open Except

/-! ### Tuples and proposals -/

/-- Violations of the claim rules. -/
inductive ClaimRuleError
  | invalidKey
  | terminalWithKeys
  | keysOnNonAcquiringRow
  | acquiringRowWithoutKeys
  | duplicateHeldTuple
  deriving DecidableEq, Repr

/-- The longest key, in bytes. -/
def maxKeyBytes : ℕ := 1024

/-- A product key, exactly as it was received. -/
structure OverlapScopeKey where
  text : String
  valid : text ≠ "" ∧ text.utf8ByteSize ≤ maxKeyBytes ∧ Char.ofNat 0 ∉ text.toList
  deriving DecidableEq

/-- Check the text of a key. -/
def OverlapScopeKey.tryFrom (value : String) : Except ClaimRuleError OverlapScopeKey :=
  if h : value ≠ "" ∧ value.utf8ByteSize ≤ maxKeyBytes ∧ Char.ofNat 0 ∉ value.toList then
    .ok ⟨value, h⟩
  else .error .invalidKey

theorem OverlapScopeKey.tryFrom_text (key : OverlapScopeKey) : tryFrom key.text = .ok key :=
  dif_pos key.valid

/-- The identity of a claim. -/
structure ClaimTuple where
  payerTenantId : Uuid
  resourceTenantId : Uuid
  overlapScopeKey : OverlapScopeKey
  deriving DecidableEq

/-- Payer, then resource tenant, then key. -/
def ClaimTuple.sortKey (tuple : ClaimTuple) : ℕ ×ₗ ℕ ×ₗ String :=
  toLex (tuple.payerTenantId.toNat, toLex (tuple.resourceTenantId.toNat,
    tuple.overlapScopeKey.text))

/-- The two tenants a claim is keyed by. -/
structure ClaimParties where
  payerTenantId : Uuid
  resourceTenantId : Uuid
  deriving DecidableEq, Repr

/-- The tuple of a key. -/
def ClaimParties.tuple (parties : ClaimParties) (key : OverlapScopeKey) : ClaimTuple :=
  ⟨parties.payerTenantId, parties.resourceTenantId, key⟩

/-- The distinct tuples of one submit or amendment, in order. -/
structure ProposedClaims where
  parties : ClaimParties
  tuples : List ClaimTuple
  nodup : tuples.Nodup
  sorted : tuples.Pairwise fun a b => a.sortKey ≤ b.sortKey
  own : ∀ t ∈ tuples, t.payerTenantId = parties.payerTenantId ∧
    t.resourceTenantId = parties.resourceTenantId

/-- The claims of a list of keys; a repeated key is one claim. -/
def ProposedClaims.new (parties : ClaimParties) (keys : List OverlapScopeKey) : ProposedClaims where
  parties := parties
  tuples := (keys.map parties.tuple).dedup.sortByKey ClaimTuple.sortKey
  nodup := (List.sortByKey_perm _ _).nodup_iff.2 (List.nodup_dedup _)
  sorted := List.pairwise_sortByKey _ _
  own := by
    intro t ht
    obtain ⟨key, -, rfl⟩ := List.mem_map.1 (List.mem_dedup.1 (List.mem_sortByKey.1 ht))
    exact ⟨rfl, rfl⟩

/-! ### Directives and plans -/

/-- What a transition does to the claims of its order. -/
inductive ClaimDirective
  | releaseAll
  | retain
  | replace (proposal : ProposedClaims)

/-- The triggers whose contribution carries resolved keys. -/
def acquiringTriggers : List Trigger := [.submit, .amendment]

/-- The directive of a trigger, its effective target and its proposal. -/
def ClaimDirective.forTransition (trigger : Trigger) (effectiveTarget : OrderState)
    (proposal : Option ProposedClaims) : Except ClaimRuleError ClaimDirective :=
  if isTerminal effectiveTarget then
    match proposal with
    | none => .ok .releaseAll
    | some _ => .error .terminalWithKeys
  else match decide (trigger ∈ acquiringTriggers), proposal with
    | true, some proposal => .ok (.replace proposal)
    | true, none => .error .acquiringRowWithoutKeys
    | false, some _ => .error .keysOnNonAcquiringRow
    | false, none => .ok .retain

/-- One live claim the order holds on entry. -/
structure HeldClaim where
  claimId : Uuid
  tuple : ClaimTuple
  deriving DecidableEq

/-- Held against proposed tuples. -/
structure ClaimPlan where
  retained : List Uuid
  missing : List ClaimTuple
  superseded : List Uuid

/-- The loop of `plan`: the tuples seen so far, the retained and the superseded claims. -/
def planHeld (proposed : ProposedClaims) :
    List HeldClaim → List ClaimTuple × List Uuid × List Uuid →
      Except ClaimRuleError (List ClaimTuple × List Uuid × List Uuid)
  | [], acc => .ok acc
  | claim :: held, (seen, retained, superseded) =>
    if claim.tuple ∈ seen then .error .duplicateHeldTuple
    else if claim.tuple ∈ proposed.tuples then
      planHeld proposed held (seen ++ [claim.tuple], retained ++ [claim.claimId], superseded)
    else
      planHeld proposed held (seen ++ [claim.tuple], retained, superseded ++ [claim.claimId])

/-- Partition on full tuples. -/
def plan (held : List HeldClaim) (proposed : ProposedClaims) : Except ClaimRuleError ClaimPlan := do
  let (seen, retained, superseded) ← planHeld proposed held ([], [], [])
  pure ⟨retained, proposed.tuples.filter (· ∉ seen), superseded⟩

/-- A missing tuple another order holds, with the holder when the caller may read it. -/
structure BlockedTuple where
  tuple : ClaimTuple
  visibleHolder : Option Uuid
  deriving DecidableEq

/-- The collision of a replacement. -/
structure OverlapConflict where
  blocked : List BlockedTuple
  provisionalReleased : List Uuid
  deriving DecidableEq

/-- A newly acquired claim. -/
structure AcquiredClaim where
  claimId : Uuid
  tuple : ClaimTuple
  deriving DecidableEq

/-- What was done to the claims of an order. -/
inductive ClaimOutcome
  | released (ids : List Uuid)
  | retained
  | admitted (retained : List Uuid) (acquired : List AcquiredClaim)
      (supersededReleased : List Uuid)
  | conflict (conflict : OverlapConflict)
  deriving DecidableEq

/-! ### The store -/

/-- Nanoseconds since the Unix epoch. -/
abbrev Timestamp := ℤ

/-- A stored claim. -/
structure ClaimRow where
  claimId : Uuid
  tuple : ClaimTuple
  orderId : Uuid
  version : ℤ
  claimedAt : Timestamp
  releasedAt : Option Timestamp
  deriving DecidableEq

/-- A stored order. -/
structure OrderRow where
  orderId : Uuid
  payerTenantId : Uuid
  resourceTenantId : Uuid
  state : OrderState
  preHoldState : Option OrderState
  currentVersion : ℤ
  deriving DecidableEq, Repr

/-- Why a claim statement aborts the transaction. -/
inductive ClaimStoreError
  | denied (detail : String)
  | invalid (detail : String)
  | duplicateClaimId
  | releasedBeforeClaimed
  | rule (error : ClaimRuleError)
  | integrity (detail : String)
  deriving DecidableEq, Repr

/-- What a transaction reads from the database besides the rows: its clock, its isolation level,
and the random ids of the rows it offers. -/
structure Session where
  now : Timestamp
  isolation : String
  newId : ClaimTuple → Uuid

/-- The authority for a replacement. -/
structure ProposalAuthority where
  proposed : OrderRow
  /-- The scope admits the proposed arrangement. -/
  inScope : Bool
  /-- The orders the caller may read. -/
  disclosure : Uuid → Bool
  proposedVersion : ℤ

section Statements

variable (claims : List ClaimRow) (order : OrderRow)

/-- The live claims of an order. -/
def liveClaims (orderId : Uuid) : List ClaimRow :=
  claims.filter fun c => c.orderId = orderId ∧ c.releasedAt = none

/-- Read a claim back. -/
def heldClaim (row : ClaimRow) : Except ClaimStoreError HeldClaim := do
  let key ← (OverlapScopeKey.tryFrom row.tuple.overlapScopeKey.text).mapError .rule
  pure ⟨row.claimId, { row.tuple with overlapScopeKey := key }⟩

/-- A live claim of the order that a release of `ids` is about. -/
def Releases (orderId : Uuid) (ids : List Uuid) (c : ClaimRow) : Prop :=
  c.orderId = orderId ∧ c.claimId ∈ ids ∧ c.releasedAt = none

instance (orderId : Uuid) (ids : List Uuid) (c : ClaimRow) : Decidable (Releases orderId ids c) :=
  inferInstanceAs (Decidable (_ ∧ _ ∧ _))

/-- Release exactly these claims of the order. -/
def releaseClaims (ids : List Uuid) (now : Timestamp) : Except ClaimStoreError (List ClaimRow) :=
  if ids = [] then pure claims else do
    rejectIf (¬ ids.Nodup) (.invalid "duplicate release IDs")
    rejectIf (∃ c ∈ claims, Releases order.orderId ids c ∧ now < c.claimedAt)
      .releasedBeforeClaimed
    rejectIf (claims.countP (Releases order.orderId ids ·) ≠ ids.length)
      (.denied "claim release count mismatch")
    pure (claims.map fun c =>
      if Releases order.orderId ids c then { c with releasedAt := some now } else c)

/-- Insert one tuple unless it has a live claim. -/
def offerTuple (authority : ProposalAuthority) (session : Session) (tuple : ClaimTuple) :
    Except ClaimStoreError (Option Uuid × List ClaimRow) := do
  rejectIf (tuple.payerTenantId ≠ authority.proposed.payerTenantId ∨
      tuple.resourceTenantId ≠ order.resourceTenantId)
    (.denied "claim is outside the authorized proposed arrangement")
  if ∃ c ∈ claims, c.tuple = tuple ∧ c.releasedAt = none then pure (none, claims) else do
    let claimId := session.newId tuple
    rejectIf (∃ c ∈ claims, c.claimId = claimId) .duplicateClaimId
    pure (some claimId, claims ++
      [⟨claimId, tuple, order.orderId, authority.proposedVersion, session.now, none⟩])

/-- The live holder of a blocked tuple, when the caller may read that order. -/
def visibleHolder (tuple : ClaimTuple) (disclosure : Uuid → Bool) : Option Uuid :=
  (claims.find? fun c => c.tuple = tuple ∧ c.releasedAt = none ∧ c.orderId ≠ order.orderId ∧
    disclosure c.orderId).map (·.orderId)

/-- What a claim statement needs of its transaction. -/
def stepContext (session : Session) : Except ClaimStoreError Timestamp := do
  rejectIf (session.isolation ≠ "read committed")
    (.integrity "step 17 requires a READ COMMITTED transition transaction")
  pure session.now

end Statements

/-- Offer the tuples one by one. -/
def offerAll (order : OrderRow) (authority : ProposalAuthority) (session : Session) :
    List ClaimTuple → List ClaimRow → Except ClaimStoreError (List AcquiredClaim × List ClaimRow)
  | [], claims => pure ([], claims)
  | tuple :: missing, claims => do
    let (inserted, claims) ← offerTuple claims order authority session tuple
    let (acquired, claims) ← offerAll order authority session missing claims
    pure ((inserted.map fun claimId => ⟨claimId, tuple⟩).toList ++ acquired, claims)

/-- Retain what is held and proposed, acquire what is missing, and then release what is
superseded; on a shortfall release exactly what was acquired. -/
def replaceClaims (claims : List ClaimRow) (order : OrderRow) (proposal : ProposedClaims)
    (authority : ProposalAuthority) (session : Session) :
    Except ClaimStoreError (ClaimOutcome × List ClaimRow) := do
  let proposed := authority.proposed
  rejectIf (authority.inScope = false) (.denied "scope")
  rejectIf (proposed.orderId ≠ order.orderId ∨
      proposal.parties.payerTenantId ≠ proposed.payerTenantId ∨
      proposal.parties.resourceTenantId ≠ order.resourceTenantId ∨
      proposed.resourceTenantId ≠ order.resourceTenantId)
    (.integrity "proposal is outside the authorized arrangement")
  rejectIf (authority.proposedVersion ≤ order.currentVersion)
    (.integrity "claims are taken for a candidate version above the current one")
  let now ← stepContext session
  let held ← (liveClaims claims order.orderId).mapM heldClaim
  let plan ← (plan held proposal).mapError .rule
  let (acquired, claims) ← offerAll order authority session plan.missing claims
  -- all or nothing: a shortfall keeps the held claims, also the superseded ones
  if acquired.length < plan.missing.length then do
    let provisional := acquired.map (·.claimId)
    let claims ← releaseClaims claims order provisional now
    let blocked := (plan.missing.filter fun t => t ∉ acquired.map (·.tuple)).map fun t =>
      ⟨t, visibleHolder claims order t authority.disclosure⟩
    pure (.conflict ⟨blocked, provisional⟩, claims)
  else do
    let claims ← releaseClaims claims order plan.superseded now
    pure (.admitted plan.retained acquired plan.superseded, claims)

/-- The claims of a transition. -/
def maintainClaims (claims : List ClaimRow) (order : OrderRow) (directive : ClaimDirective)
    (authority : Option ProposalAuthority) (session : Session) :
    Except ClaimStoreError (ClaimOutcome × List ClaimRow) :=
  match directive, authority with
  | .retain, none => pure (.retained, claims)
  | .releaseAll, none => do
    let now ← stepContext session
    let ids := (liveClaims claims order.orderId).map (·.claimId)
    let claims ← releaseClaims claims order ids now
    pure (.released ids, claims)
  | .replace proposal, some authority => replaceClaims claims order proposal authority session
  | .replace _, none =>
    throw (.integrity "replacement requires the authorized proposed arrangement")
  | _, some _ => throw (.integrity "only a replacement takes a proposed arrangement")

/-! ### Transitions -/

/-- One attempt at a transition, past its guards. -/
structure Attempt where
  orderId : Uuid
  trigger : Trigger
  /-- The resolved overlap keys. -/
  claims : Option ProposedClaims
  /-- The candidate version. -/
  candidate : Option ℤ
  /-- The proposed payer and resource tenant. -/
  proposed : Option ClaimParties
  /-- The orders the caller may read. -/
  disclosure : Option (Uuid → Bool)
  /-- The write scope admits the proposed arrangement. -/
  inScope : Bool

/-- Why a transition aborts. -/
inductive Abort
  | orderExists
  | orderNotFound
  | notAdmissible (state : OrderState) (trigger : Trigger)
  | rowMismatch
  | noTarget
  | candidate
  | claims (error : ClaimStoreError)
  | integration (detail : String)
  deriving DecidableEq, Repr

/-- What a committed attempt did. -/
inductive Settled
  | admitted (outcome : ClaimOutcome)
  | refused (conflict : OverlapConflict)
  deriving DecidableEq

/-- The stored orders and claims, and for the record the last proposal each order was admitted
with. -/
structure Store where
  orders : Uuid → Option OrderRow
  claims : List ClaimRow
  lastProposal : Uuid → Option ProposedClaims

/-- The order after a transition. -/
def OrderRow.post (order : OrderRow) (target : OrderState) (attempt : Attempt) : OrderRow where
  orderId := order.orderId
  payerTenantId := (attempt.proposed.map (·.payerTenantId)).getD order.payerTenantId
  resourceTenantId := (attempt.proposed.map (·.resourceTenantId)).getD order.resourceTenantId
  state := target
  preHoldState :=
    if target = order.state then order.preHoldState
    else if target = .onHold then some order.state
    else none
  currentVersion := attempt.candidate.getD order.currentVersion

/-- The authority of a replacement; nothing else has one. -/
def Attempt.authority (attempt : Attempt) (post : OrderRow) :
    ClaimDirective → Except Abort (Option ProposalAuthority)
  | .replace _ =>
    match attempt.disclosure, attempt.candidate with
    | some disclosure, some candidate => pure (some ⟨post, attempt.inScope, disclosure, candidate⟩)
    | _, _ => throw (.integration "claim replacement needs disclosure scope and candidate")
  | _ => pure none

namespace Store

/-- No orders. -/
def init : Store := ⟨fun _ => none, [], fun _ => none⟩

/-- Create a draft. -/
def create (s : Store) (orderId : Uuid) (parties : ClaimParties) : Except Abort Store := do
  rejectIf (s.orders orderId).isSome .orderExists
  let order : OrderRow :=
    ⟨orderId, parties.payerTenantId, parties.resourceTenantId, .draft, none, 1⟩
  pure { s with orders := Function.update s.orders orderId (some order) }

/-- The store after an admitted attempt. -/
def commit (s : Store) (attempt : Attempt) (post : OrderRow) (claims : List ClaimRow) : Store where
  orders := Function.update s.orders attempt.orderId (some post)
  claims := claims
  lastProposal :=
    if attempt.trigger ∈ acquiringTriggers then
      Function.update s.lastProposal attempt.orderId attempt.claims
    else s.lastProposal

/-- Take the row of the attempt's trigger: its claims first, and unless they collide the order. -/
def admitRow (s : Store) (attempt : Attempt) (session : Session) : Except Abort (Settled × Store) :=
  match s.orders attempt.orderId with
  | none => throw .orderNotFound
  | some order =>
    match findRow order.state attempt.trigger with
    | none => throw (.notAdmissible order.state attempt.trigger)
    | some row => do
      rejectIf (¬ (row.versioning = .append ↔ attempt.candidate.isSome)) .rowMismatch
      match row.effectiveTarget order.state order.preHoldState with
      | none => throw .noTarget
      | some target => do
        rejectIf (attempt.candidate.any (· ≤ order.currentVersion)) .candidate
        let post := order.post target attempt
        let directive ← (ClaimDirective.forTransition row.trigger target
          attempt.claims).mapError (.claims ∘ .rule)
        let authority ← attempt.authority post directive
        let (outcome, claims) ← (maintainClaims s.claims order directive authority
          session).mapError .claims
        match outcome with
        -- a collision commits the released provisional claims, and no transition
        | .conflict conflict => pure (.refused conflict, { s with claims := claims })
        | outcome => pure (.admitted outcome, s.commit attempt post claims)

end Store

/-- A new order, or an attempt at a transition. -/
inductive Event
  | create (orderId : Uuid) (parties : ClaimParties)
  | attempt (attempt : Attempt) (session : Session)

/-- One transaction. -/
def Store.step (s : Store) : Event → Except Abort Store
  | .create orderId parties => s.create orderId parties
  | .attempt attempt session => (s.admitRow attempt session).map Prod.snd

end Gears.Orders
