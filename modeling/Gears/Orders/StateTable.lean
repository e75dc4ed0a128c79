import Mathlib.Data.List.Basic

/-!
# The order state table

The states, triggers and rows of the order life cycle.  An edge that is not a row cannot be taken.

* `rows` : the twenty-nine declared rows.
* `Row.effectiveTarget` : where a row leads from a state.
* `findRow` : the row of a state and a trigger.
-/

namespace Gears.Orders

/-- The state of an order. -/
inductive OrderState
  | draft
  | submitted
  | pendingApproval
  | approved
  | inFulfillment
  | onHold
  | completed
  | rejected
  | cancelled
  | fulfillmentFailed
  | expired
  deriving DecidableEq, Repr

/-- What moves an order. -/
inductive Trigger
  | create
  | draftMutate
  | administrativeEdit
  | submit
  | cancel
  | autoVoid
  | reflectApprovalRequired
  | reflectApprovalNotRequired
  | reflectApprovalGranted
  | reflectApprovalDenied
  | beginFulfillment
  | reportSpawnSignal
  | acknowledgeCompleted
  | acknowledgeFailed
  | cancelWorkflowMediated
  | amendment
  | hold
  | resume
  | expire
  | recordAcceptance
  | forceFailUnreconciled
  deriving DecidableEq, Repr

/-- The states no row leaves. -/
def terminal : List OrderState := [.completed, .rejected, .cancelled, .fulfillmentFailed, .expired]

/-- Whether a state is terminal. -/
def isTerminal (state : OrderState) : Bool := state ∈ terminal

/-- Whether a row creates a commercial version. -/
inductive Versioning
  | append
  | stateOnly
  deriving DecidableEq, Repr

/-- Where a row leads: a fixed state, the state it starts from, or the state before the hold. -/
inductive Target
  | state (state : OrderState)
  | same
  | preHold
  deriving DecidableEq, Repr

/-- A declared row; `start` is empty for `create` only. -/
structure Row where
  number : ℕ
  start : List OrderState
  target : Target
  trigger : Trigger
  versioning : Versioning
  deriving DecidableEq, Repr

/-- Every state that is not terminal. -/
def nonTerminal : List OrderState :=
  [.draft, .submitted, .pendingApproval, .approved, .inFulfillment, .onHold]

/-- The states between submission and fulfillment. -/
def submittedToApproved : List OrderState := [.submitted, .pendingApproval, .approved]

/-- The rows. -/
def rows : List Row :=
  [⟨1, [], .state .draft, .create, .append⟩, ⟨2, [.draft], .state .draft, .draftMutate, .stateOnly⟩,
    ⟨3, nonTerminal, .same, .administrativeEdit, .stateOnly⟩,
    ⟨4, [.draft], .state .submitted, .submit, .append⟩,
    ⟨5, [.draft], .state .cancelled, .cancel, .stateOnly⟩,
    ⟨6, [.draft], .state .expired, .autoVoid, .stateOnly⟩,
    ⟨7, [.submitted], .state .pendingApproval, .reflectApprovalRequired, .stateOnly⟩,
    ⟨8, [.submitted], .state .approved, .reflectApprovalNotRequired, .stateOnly⟩,
    ⟨9, [.pendingApproval], .state .approved, .reflectApprovalGranted, .stateOnly⟩,
    ⟨10, [.pendingApproval], .state .rejected, .reflectApprovalDenied, .stateOnly⟩,
    ⟨11, [.approved], .state .inFulfillment, .beginFulfillment, .stateOnly⟩,
    ⟨12, [.inFulfillment], .state .inFulfillment, .reportSpawnSignal, .stateOnly⟩,
    ⟨13, [.inFulfillment], .state .completed, .acknowledgeCompleted, .stateOnly⟩,
    ⟨14, [.inFulfillment], .state .fulfillmentFailed, .acknowledgeFailed, .stateOnly⟩,
    ⟨15, [.inFulfillment], .state .cancelled, .cancel, .stateOnly⟩,
    ⟨16, [.inFulfillment], .state .cancelled, .cancelWorkflowMediated, .stateOnly⟩,
    ⟨17, submittedToApproved, .state .cancelled, .cancel, .stateOnly⟩,
    ⟨18, [.submitted], .same, .amendment, .append⟩,
    ⟨19, [.pendingApproval], .state .submitted, .amendment, .append⟩,
    ⟨20, [.approved], .state .submitted, .amendment, .append⟩,
    ⟨21, [.submitted, .pendingApproval, .approved, .inFulfillment], .state .onHold, .hold,
      .stateOnly⟩,
    ⟨22, [.onHold], .preHold, .resume, .stateOnly⟩,
    ⟨23, [.onHold], .state .cancelled, .cancel, .stateOnly⟩,
    ⟨24, [.submitted, .pendingApproval, .approved, .onHold], .state .expired, .expire, .stateOnly⟩,
    ⟨25, [.submitted, .pendingApproval, .approved, .inFulfillment, .onHold], .same,
      .recordAcceptance, .stateOnly⟩,
    ⟨26, [.onHold], .state .fulfillmentFailed, .acknowledgeFailed, .stateOnly⟩,
    ⟨27, [.onHold], .state .cancelled, .cancelWorkflowMediated, .stateOnly⟩,
    ⟨28, [.inFulfillment], .state .fulfillmentFailed, .forceFailUnreconciled, .stateOnly⟩,
    ⟨29, [.onHold], .state .fulfillmentFailed, .forceFailUnreconciled, .stateOnly⟩]

/-- The effective target for a state the row starts from; none without a stored pre-hold state. -/
def Row.effectiveTarget (row : Row) (outgoing : OrderState) (preHold : Option OrderState) :
    Option OrderState :=
  match row.target with
  | .state state => some state
  | .same => some outgoing
  | .preHold => preHold

/-- The row of a state and a trigger. -/
def findRow (state : OrderState) (trigger : Trigger) : Option Row :=
  rows.find? fun row => state ∈ row.start ∧ row.trigger = trigger

variable {state : OrderState} {trigger : Trigger} {row : Row}

theorem findRow_eq_some (h : findRow state trigger = some row) :
    row ∈ rows ∧ state ∈ row.start ∧ row.trigger = trigger := by
  refine ⟨List.mem_of_find?_eq_some h, ?_⟩
  simpa using List.find?_some h

theorem findRow_not_terminal (h : findRow state trigger = some row) :
    isTerminal state = false := by
  -- no row of the table leaves a terminal state
  have hstart : ∀ row ∈ rows, ∀ state ∈ row.start, isTerminal state = false := by decide
  obtain ⟨hmem, hfrom, -⟩ := findRow_eq_some h
  exact hstart row hmem state hfrom

end Gears.Orders
