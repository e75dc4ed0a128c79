import Gears.Broker.Reclaim
import Gears.Lib.Machine

/-!
# The event broker: the cache of one partition

The cache holds disjoint segments in ascending order.  A position outside every span is unknown,
and a reader there waits for a fetch.

* `Residency` : the resident segments and the totals that describe them.
* `PartitionCache.readFrom` : reads forward across adjacent segments.
* `PartitionCache.absorb`, `PartitionCache.reclaim` : fetches come in, segments go out.
* `Partition.step` : one call of a loader, of the maintenance pass or of a reader.
-/

namespace Gears.Broker

/-! ### Totals -/

/-- A count of segments, of their events and of their bytes. -/
structure Tally where
  segments : ℕ
  events : ℕ
  bytes : ℕ
  deriving DecidableEq, Repr

namespace Tally

/-- Nothing. -/
def zero : Tally := ⟨0, 0, 0⟩

/-- The tally of one segment. -/
def of (segment : Segment) : Tally := ⟨1, segment.eventCount, segment.bytes⟩

/-- Saturating sum. -/
def plus (a b : Tally) : Tally :=
  ⟨satAdd a.segments b.segments, satAdd a.events b.events, satAdd a.bytes b.bytes⟩

/-- Saturating difference. -/
def minus (a b : Tally) : Tally :=
  ⟨a.segments - b.segments, a.events - b.events, a.bytes - b.bytes⟩

/-- Componentwise maximum. -/
def highest (a b : Tally) : Tally :=
  ⟨max a.segments b.segments, max a.events b.events, max a.bytes b.bytes⟩

end Tally

/-- The map of segments, in the order of their first sequences. -/
abbrev SegmentMap := List Segment

namespace SegmentMap

/-- The last segment that starts at or below a position. -/
def lastUpTo (segments : SegmentMap) (position : Sequence) : Option Segment :=
  (segments.filter fun segment => segment.start ≤ position).getLast?

/-- The first segment that starts in a range. -/
def firstWithin (segments : SegmentMap) (lower upper : Sequence) : Option Segment :=
  segments.find? fun segment => lower ≤ segment.start ∧ segment.start ≤ upper

/-- Put a segment in its place; one with the same start is replaced. -/
def insert (segment : Segment) : SegmentMap → SegmentMap
  | [] => [segment]
  | head :: rest =>
    if segment.start < head.start then segment :: head :: rest
    else if segment.start = head.start then segment :: rest
    else head :: insert segment rest

/-- Where the part of a span starts that no segment accounts for. -/
def unaccountedStart (segments : SegmentMap) (start : Sequence) : Sequence :=
  match segments.lastUpTo start with
  | some covering =>
    if covering.accountsFor start then covering.through.saturatingSucc else start
  | none => start

/-- Where that part ends: before the next segment. -/
def unaccountedThrough (segments : SegmentMap) (start through : Sequence) : Sequence :=
  match segments.firstWithin start through with
  | some next => next.start.saturatingPred
  | none => through

/-- The part of a segment that no resident one accounts for. -/
def narrowToUnaccounted (segments : SegmentMap) (incoming : Segment) : Option Segment :=
  let start := segments.unaccountedStart incoming.start
  if incoming.through < start then none
  else incoming.trimmedTo start (segments.unaccountedThrough start incoming.through)

end SegmentMap

/-! ### Residency -/

/-- The resident segments and the totals that describe them. -/
structure Residency where
  segments : SegmentMap
  live : Tally
  peak : Tally
  absorbed : Tally
  reclaimed : Tally
  passes : ℕ
  freeingPasses : ℕ

namespace Residency

/-- Nothing is resident. -/
def new : Residency := ⟨[], .zero, .zero, .zero, .zero, 0, 0⟩

variable (residency : Residency)

/-- Count a segment in. -/
def record (segment : Segment) : Residency :=
  let live := residency.live.plus (.of segment)
  { residency with
    absorbed := residency.absorbed.plus (.of segment)
    live
    peak := residency.peak.highest live }

/-- Take the segment with a first sequence off the map, into a tally. -/
def takeOne (acc : SegmentMap × Tally) (start : Sequence) : SegmentMap × Tally :=
  match acc.1.find? fun segment => segment.start = start with
  | some segment =>
    (acc.1.filter fun segment => segment.start ≠ start, acc.2.plus (.of segment))
  | none => acc

/-- Take victims off the map, and tally what left. -/
def take (victims : List Sequence) : Residency :=
  let (segments, freed) := victims.foldl takeOne (residency.segments, .zero)
  { residency with
    segments
    reclaimed := residency.reclaimed.plus freed
    live := residency.live.minus freed }

/-- What a pass decides on. -/
def summaries : List SegmentSummary :=
  residency.segments.map fun segment => ⟨segment.span, segment.eventCount, segment.bytes⟩

/-- Every accounted byte and event is in the map, or was reclaimed from it. -/
def balances : Bool :=
  residency.absorbed.bytes = satAdd residency.reclaimed.bytes residency.live.bytes ∧
    residency.absorbed.events = satAdd residency.reclaimed.events residency.live.events

/-- One pass: dead spans, then gaps, then the byte limit. -/
def enforce (readers : List Sequence) (policy : ReclaimPolicy) : Residency :=
  let decided := plan residency.summaries readers policy
  ((residency.take decided.dead).take decided.gapped).take decided.pressured

end Residency

/-! ### Reads and fetches -/

/-- What a read of one partition found. -/
inductive PartitionRead
  | hit (events : List Event) (accountedThrough : Sequence)
  | nothingNew
  | unknown

/-- What a read has gathered so far. -/
structure Gathered where
  runs : List EventSlice
  events : ℕ
  bytes : ℕ
  frontier : Sequence

/-- Add a run. -/
def Gathered.push (gathered : Gathered) (run : EventSlice) : Gathered where
  runs := gathered.runs ++ [run]
  events := satAdd gathered.events run.events.length
  bytes := satAdd gathered.bytes run.bytes
  frontier := run.frontier

/-- Go on from a segment that was read to its end, among the segments of the map that were not
visited yet. -/
def walkOn (limit : ReadLimit) (gathered : Gathered) (current : Segment) : SegmentMap → Gathered
  | [] => gathered
  | next :: rest =>
    if next.start ≤ current.through then walkOn limit gathered current rest
    else if !current.isAdjacentTo next then gathered
    else
      let remaining := limit.less gathered.events gathered.bytes
      if 0 < gathered.events ∧ remaining.isFilled then gathered
      else
        let run := next.readAfter current.through remaining
        if run.frontier = next.through then walkOn limit (gathered.push run) next rest
        else gathered.push run

/-- A fetch, ready to be absorbed. -/
structure AbsorbedFetch where
  start : Sequence
  through : Sequence
  segment : Segment

/-- The segment of a fetch, widened to the span the fetch accounted for. -/
def AbsorbedFetch.intoSegment (fetch : AbsorbedFetch) : Segment :=
  fetch.segment.withSpan fetch.start fetch.through

/-- The resident segments of one partition, and the highest sequence ever accounted for. -/
structure PartitionCache where
  residency : Residency
  newestAccounted : Sequence

namespace PartitionCache

/-- The empty cache. -/
def new : PartitionCache := ⟨.new, .none⟩

variable (cache : PartitionCache)

/-- The segment a reader at a position is served from. -/
def serving (offset : Sequence) : Option Segment :=
  (cache.residency.segments.lastUpTo offset.saturatingSucc).filter (·.serves offset)

/-- Read forward from a position, across adjacent segments. -/
def readFrom (offset : Sequence) (limit : ReadLimit) : PartitionRead :=
  match cache.serving offset with
  | none =>
    if !cache.residency.segments.isEmpty ∧ cache.newestAccounted ≤ offset then .nothingNew
    else .unknown
  | some current =>
    let run := current.readAfter offset limit
    let gathered := Gathered.push ⟨[], 0, 0, offset⟩ run
    let gathered :=
      if run.frontier = current.through then
        walkOn limit gathered current cache.residency.segments
      else gathered
    .hit (gathered.runs.flatMap EventSlice.events) gathered.frontier

/-- Record a fetch, and hold the byte limit. -/
def absorb (fetch : AbsorbedFetch) (readers : List Sequence)
    (policy : ReclaimPolicy) : PartitionCache :=
  match cache.residency.segments.narrowToUnaccounted fetch.intoSegment with
  | none => cache
  | some segment =>
    let residency := cache.residency.record segment
    let residency := { residency with segments := residency.segments.insert segment }
    let residency :=
      if policy.residencyLimitBytes < residency.live.bytes then residency.enforce readers policy
      else residency
    ⟨residency, cache.newestAccounted ⊔ segment.through⟩

/-- One reclamation pass. -/
def reclaim (readers : List Sequence) (policy : ReclaimPolicy) : PartitionCache :=
  let residency := cache.residency.enforce readers policy
  let freed := residency.segments.length < cache.residency.segments.length
  { cache with
    residency :=
      { residency with
        passes := residency.passes + 1
        freeingPasses := residency.freeingPasses + if freed then 1 else 0 } }

end PartitionCache

/-- A registered reader: where it stands, where it started and what it has received. -/
structure Reader where
  id : ℕ
  offset : Sequence
  start : Sequence
  received : List Event

/-- Read forward from the reader's own position, and advance it to what the read accounted for. -/
def Reader.read (reader : Reader) (cache : PartitionCache) (limit : ReadLimit) : Reader :=
  match cache.readFrom reader.offset limit with
  | .hit events accountedThrough =>
    { reader with
      offset := reader.offset ⊔ accountedThrough
      received := reader.received ++ events }
  | .nothingNew => reader
  | .unknown => reader

/-- A partition and its readers. -/
structure Partition where
  cache : PartitionCache
  readers : List Reader
  nextId : ℕ

/-- What may happen to a partition.  A pass decides on positions of readers that may be stale. -/
inductive Call
  | absorb (fetch : AbsorbedFetch) (positions : List Sequence) (policy : ReclaimPolicy)
  | reclaim (positions : List Sequence) (policy : ReclaimPolicy)
  | track (offset : Sequence)
  | drop (id : ℕ)
  | read (id : ℕ) (limit : ReadLimit)

/-- A call that cannot be made. -/
inductive Misuse
  | noSuchReader
  deriving DecidableEq, Repr

namespace Partition

/-- A partition without readers. -/
def new : Partition := ⟨.new, [], 0⟩

/-- One call of the loader, of the maintenance pass or of a reader. -/
def step (partition : Partition) : Call → Except Misuse Partition
  | .absorb fetch positions policy =>
    .ok { partition with cache := partition.cache.absorb fetch positions policy }
  | .reclaim positions policy =>
    .ok { partition with cache := partition.cache.reclaim positions policy }
  | .track offset =>
    .ok { partition with
      readers := partition.readers ++ [⟨partition.nextId, offset, offset, []⟩]
      nextId := partition.nextId + 1 }
  | .drop id =>
    .ok { partition with readers := partition.readers.filter fun reader => reader.id ≠ id }
  | .read id limit =>
    if partition.readers.any fun reader => reader.id = id then
      .ok { partition with
        readers := partition.readers.map fun reader =>
          if reader.id = id then reader.read partition.cache limit else reader }
    else .error .noSuchReader

end Partition

end Gears.Broker
