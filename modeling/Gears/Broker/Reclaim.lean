import Gears.Broker.Segment
import Mathlib.Data.Prod.Lex

/-!
# The event broker: which segments a reclamation pass takes

The decision sees spans, counts and the positions of readers, and never a segment.

* `RetainedWindows` : what the readers of a partition are entitled to keep.
* `plan` : the segments a pass takes, and why.
-/

namespace Gears.Broker

/-- What one reclamation pass is allowed to take. -/
structure ReclaimPolicy where
  gapThresholdEvents : ℕ
  residencyLimitBytes : ℕ
  deriving DecidableEq, Repr

/-- A resident segment, reduced to what a decision needs. -/
structure SegmentSummary where
  span : AccountedSpan
  events : ℕ
  bytes : ℕ
  deriving DecidableEq

/-- The first sequence. -/
def SegmentSummary.start (summary : SegmentSummary) : Sequence := summary.span.start

/-- The last sequence. -/
def SegmentSummary.through (summary : SegmentSummary) : Sequence := summary.span.through

/-- Walk segments in order until enough events were counted. -/
def countThrough (events : ℕ) (reach : Sequence) (counted : ℕ) : List SegmentSummary → Sequence
  | [] => reach
  | summary :: rest =>
    let counted := satAdd counted summary.events
    if events ≤ counted then summary.through
    else countThrough events summary.through counted rest

variable (summaries : List SegmentSummary)

/-- The position that lies a number of resident events past another. -/
def countedForward (start : Sequence) (events : ℕ) : Sequence :=
  let ahead := (summaries.filter fun summary => start < summary.through).sortByKey
    SegmentSummary.start
  countThrough events start 0 ahead

/-- The spans a pass must keep, each open below and closed above. -/
structure RetainedWindows where
  windows : List (Sequence × Sequence)

namespace RetainedWindows

/-- Extend the last window, or open a new one. -/
def push (windows : List (Sequence × Sequence)) (position reach : Sequence) :
    List (Sequence × Sequence) :=
  match windows.getLast? with
  | some (lower, upper) =>
    if position ≤ upper then windows.dropLast ++ [(lower, upper ⊔ reach)]
    else windows ++ [(position, reach)]
  | none => windows ++ [(position, reach)]

/-- Cluster positions, and expand each cluster into the window it keeps. -/
def fromPositions (summaries : List SegmentSummary) (positions : List Sequence) (gap : ℕ) :
    RetainedWindows :=
  let events := max gap 1
  ⟨(positions.sortByKey id).foldl
    (fun windows position => push windows position (countedForward summaries position events)) []⟩

/-- Whether a window overlaps a span. -/
def intersects (retained : RetainedWindows) (start through : Sequence) : Bool :=
  retained.windows.any fun (lower, upper) => lower < through ∧ start ≤ upper

end RetainedWindows

/-- Which resident segments one pass takes, by their first sequences. -/
structure ReclaimPlan where
  dead : List Sequence
  gapped : List Sequence
  pressured : List Sequence
  limitBreached : Bool
  deriving DecidableEq

/-- All segments that a plan takes. -/
def ReclaimPlan.victims (plan : ReclaimPlan) : List Sequence :=
  plan.dead ++ plan.gapped ++ plan.pressured

/-- How far ahead of the nearest reader behind it a segment sits, in resident events. -/
def leadOf (readers : List Sequence) (summary : SegmentSummary) : ℕ :=
  match ((readers.filter fun at_ => at_ < summary.start).sortByKey id).getLast? with
  | none => summary.events
  | some nearest =>
    (summaries.filter fun between =>
      nearest < between.through ∧ between.through ≤ summary.start).foldl
      (fun total between => satAdd total between.events) 0

/-- Take candidates until residency is under the limit. -/
def takeUnderPressure (limit : ℕ) : ℕ → List SegmentSummary → List Sequence × Bool
  | resident, [] => ([], limit < resident)
  | resident, summary :: rest =>
    if resident ≤ limit then ([], false)
    else
      let (taken, breached) := takeUnderPressure limit (resident - summary.bytes) rest
      (summary.start :: taken, breached)

/-- Take further segments, the most speculative first, until residency is under the limit. -/
def applyPressure (readers : List Sequence)
    (policy : ReclaimPolicy) (plan : ReclaimPlan) : ReclaimPlan :=
  let left := summaries.filter fun summary => summary.start ∉ plan.victims
  let resident := left.foldl (fun total summary => satAdd total summary.bytes) 0
  if resident ≤ policy.residencyLimitBytes then plan
  else
    let candidates := left.filter fun summary => !readers.any fun at_ => summary.span.serves at_
    let ordered := candidates.sortByKey fun summary =>
      (toLex (-(leadOf summaries readers summary : ℤ), -summary.start.1) : ℤ ×ₗ ℤ)
    let (taken, breached) := takeUnderPressure policy.residencyLimitBytes resident ordered
    { plan with pressured := plan.pressured ++ taken, limitBreached := breached }

/-- Decide a pass from summaries and positions of readers alone. -/
def plan (readers : List Sequence) (policy : ReclaimPolicy) : ReclaimPlan :=
  if readers.isEmpty then applyPressure summaries readers policy ⟨[], [], [], false⟩
  else
    let windows := RetainedWindows.fromPositions summaries readers policy.gapThresholdEvents
    let slowest := ((readers.sortByKey id).head?).getD Sequence.none
    let outside := summaries.filter fun summary => !windows.intersects summary.start summary.through
    let dead := outside.filter fun summary => summary.through ≤ slowest
    let gapped := outside.filter fun summary => !(summary.through ≤ slowest)
    applyPressure summaries readers policy
      ⟨dead.map SegmentSummary.start, gapped.map SegmentSummary.start, [], false⟩

end Gears.Broker
