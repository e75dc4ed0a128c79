import Gears.Lib.Window
import Mathlib.Tactic.Linarith

/-!
# The event broker: spans and segments of a partition

A segment accounts for a span of sequences and holds the events present in it.  A sequence of the
span that has no event was deleted.

* `AccountedSpan` : an inclusive range that cannot be inverted.
* `Segment` : a span, with its events in strictly ascending order.
* `Segment.readAfter` : one run of events, cut by a limit, and how far it accounts for.
-/

namespace Gears.Broker

open List

/-! ### Sequences and events -/

/-- A position of a partition, a signed 64-bit number. -/
abbrev Sequence := { n : ℤ // -2 ^ 63 ≤ n ∧ n < 2 ^ 63 }

-- the order of the integers has a noncomputable instance too; these name the one that computes
instance : LinearOrder Sequence := @Subtype.instLinearOrder ℤ Int.instLinearOrder _
instance (a b : Sequence) : Decidable (a ≤ b) := Int.decLe a.1 b.1
instance (a b : Sequence) : Decidable (a < b) := Int.decLt a.1 b.1

namespace Sequence

/-- No position. -/
def none : Sequence := ⟨0, by decide⟩

/-- The greatest number there is. -/
def max : Sequence := ⟨2 ^ 63 - 1, by decide⟩

/-- The next position; the greatest one is its own successor. -/
def saturatingSucc (s : Sequence) : Sequence :=
  if h : s.1 + 1 < 2 ^ 63 then ⟨s.1 + 1, by have := s.2; omega⟩ else s

/-- The position before; the least one is its own predecessor. -/
def saturatingPred (s : Sequence) : Sequence :=
  if h : -2 ^ 63 ≤ s.1 - 1 then ⟨s.1 - 1, by have := s.2; omega⟩ else s

theorem lt_max_iff {s : Sequence} : s < max ↔ s.1 + 1 < 2 ^ 63 := by
  have hval : max.1 = 2 ^ 63 - 1 := rfl
  rw [← Subtype.coe_lt_coe]
  omega

theorem val_saturatingSucc {s : Sequence} (h : s < max) : (saturatingSucc s).1 = s.1 + 1 := by
  rw [saturatingSucc, dif_pos (lt_max_iff.1 h)]

theorem val_saturatingPred {s t : Sequence} (h : t < s) : (saturatingPred s).1 = s.1 - 1 := by
  have hlt : t.1 < s.1 := h
  rw [saturatingPred, dif_pos (by omega)]

end Sequence

/-- What the cache reads of an event; the footprint stands for the size of its parts. -/
structure Event where
  id : String
  sequence : Option Sequence
  footprint : ℕ
  deriving DecidableEq

/-- The sequence an event is ordered by. -/
def Event.seq (event : Event) : Sequence := event.sequence.getD Sequence.none

/-- A span `start ..= through`, inclusive at both ends. -/
structure AccountedSpan where
  start : Sequence
  through : Sequence
  ordered : start ≤ through
  deriving DecidableEq

namespace AccountedSpan

/-- An inverted span is normalised. -/
def build (start through : Sequence) : AccountedSpan :=
  ⟨start, through ⊔ start, le_sup_right⟩

/-- Whether a sequence is in the span. -/
def contains (span : AccountedSpan) (sequence : Sequence) : Bool :=
  span.start ≤ sequence ∧ sequence ≤ span.through

/-- Whether the span answers what a reader at a position wants next. -/
def serves (span : AccountedSpan) (position : Sequence) : Bool :=
  span.contains position.saturatingSucc

/-- Whether the span ends right before the next one begins. -/
def isAdjacentTo (span next : AccountedSpan) : Bool :=
  span.through.saturatingSucc = next.start

end AccountedSpan

/-- The largest machine word. -/
def usizeMax : ℕ := 2 ^ 64 - 1

/-- Addition that stops at the largest machine word. -/
def satAdd (a b : ℕ) : ℕ := min (a + b) usizeMax

/-- How much one read may return. -/
structure ReadLimit where
  maxEvents : ℕ
  maxBytes : ℕ
  deriving DecidableEq, Repr

namespace ReadLimit

/-- What is left of a limit. -/
def less (limit : ReadLimit) (events bytes : ℕ) : ReadLimit :=
  ⟨limit.maxEvents - events, limit.maxBytes - bytes⟩

/-- Whether nothing is left. -/
def isFilled (limit : ReadLimit) : Bool := limit.maxEvents = 0 ∨ limit.maxBytes = 0

end ReadLimit

/-- A run of events of one segment, and how far it lets a reader advance. -/
structure EventSlice where
  events : List Event
  bytes : ℕ
  frontier : Sequence

/-! ### Segments -/

/-- The lookup data of one event. -/
structure EventIndex where
  sequence : Sequence
  cumulativeBytes : ℕ

/-- The lookup data of events that follow `running` bytes. -/
def indexFrom (running : ℕ) : List Event → List EventIndex
  | [] => []
  | event :: events =>
    let running := satAdd running event.footprint
    ⟨event.seq, running⟩ :: indexFrom running events

/-- A span the cache has accounted for, and the events present in it. -/
structure Segment where
  span : AccountedSpan
  events : List Event
  ascending : events.Ascending Event.seq

namespace Segment

variable (segment : Segment)

/-- The first sequence accounted for. -/
def start : Sequence := segment.span.start

/-- The last sequence accounted for. -/
def through : Sequence := segment.span.through

/-- Parallel to the events. -/
def index : List EventIndex := indexFrom 0 segment.events

/-- The footprint of everything before an index. -/
def bytesBefore (at_ : ℕ) : ℕ :=
  if 0 < at_ then ((segment.index[at_ - 1]?).map (·.cumulativeBytes)).getD 0 else 0

/-- The number of events. -/
def eventCount : ℕ := segment.index.length

/-- The footprint of all events. -/
def bytes : ℕ := segment.bytesBefore segment.index.length

/-- Events are sorted, and of those with one sequence the first stays. -/
def build (start through : Sequence) (events : List Event) : Segment where
  span := .build start through
  events := (events.sortByKey Event.seq).dedupByKey Event.seq
  ascending := List.ascending_dedupByKey (List.pairwise_sortByKey Event.seq events)

/-- The same events, with a span that may be wider. -/
def withSpan (start through : Sequence) : Segment :=
  { segment with
    span := ⟨start ⊓ segment.start, through ⊔ segment.through,
      inf_le_right.trans (segment.span.ordered.trans le_sup_right)⟩ }

/-- The segment narrowed to a span; `none` when that span is empty. -/
def trimmedTo (start through : Sequence) : Option Segment :=
  if through < start then none
  else if start ≤ segment.start ∧ segment.through ≤ through then some segment
  else
    let events := segment.events.filter fun event =>
      event.sequence.any fun sequence => start ≤ sequence ∧ sequence ≤ through
    some (build start through events)

/-- Whether a reader at a position is served from it. -/
def serves (position : Sequence) : Bool := segment.span.serves position

/-- Whether a sequence is in its span. -/
def accountsFor (sequence : Sequence) : Bool :=
  segment.span.contains sequence

/-- Whether the next segment begins right behind. -/
def isAdjacentTo (segment next : Segment) : Bool := segment.span.isAdjacentTo next.span

/-- The index of the first event past a position. -/
def partitionPointAfter (offset : Sequence) : ℕ :=
  (segment.index.takeWhile fun entry => entry.sequence ≤ offset).length

/-- How far a run that ends at an index accounts for. -/
def frontierAt (stop : ℕ) (offset : Sequence) : Sequence :=
  if stop = segment.index.length then segment.through
  else if 0 < stop then ((segment.index[stop - 1]?).map (·.sequence)).getD offset else offset

/-- Events past a position, up to a limit, and at least one when there is one. -/
def readAfter (offset : Sequence) (limit : ReadLimit) : EventSlice :=
  let start := segment.partitionPointAfter offset
  let base := segment.bytesBefore start
  let ceiling := satAdd base limit.maxBytes
  let byBytes := (segment.index.takeWhile fun entry => entry.cumulativeBytes ≤ ceiling).length
  let byEvents := start + limit.maxEvents
  let stop := min (min byBytes byEvents) segment.index.length
  let stop := if stop = start ∧ start < segment.index.length then start + 1 else stop
  { events := (segment.events.drop start).take (stop - start)
    bytes := segment.bytesBefore stop - base
    frontier := segment.frontierAt stop offset }

end Segment

/-! ### What a run holds -/

@[simp] theorem length_indexFrom (running : ℕ) (events : List Event) :
    (indexFrom running events).length = events.length := by
  induction events generalizing running with
  | nil => rfl
  | cons event events ih => rw [indexFrom, length_cons, length_cons, ih]

theorem map_sequence_indexFrom (running : ℕ) (events : List Event) :
    (indexFrom running events).map EventIndex.sequence = events.map Event.seq := by
  induction events generalizing running with
  | nil => rfl
  | cons event events ih => rw [indexFrom, map_cons, map_cons, ih]

theorem cumulativeBytes_indexFrom (running : ℕ) (events : List Event) (hrun : running ≤ usizeMax) :
    (∀ entry ∈ indexFrom running events,
      running ≤ entry.cumulativeBytes ∧ entry.cumulativeBytes ≤ usizeMax) ∧
    (indexFrom running events).Pairwise fun a b => a.cumulativeBytes ≤ b.cumulativeBytes := by
  induction events generalizing running with
  | nil => simp [indexFrom]
  | cons event events ih =>
    have hstep : running ≤ satAdd running event.footprint := by
      rw [satAdd]
      omega
    have hmax : satAdd running event.footprint ≤ usizeMax := min_le_right _ _
    obtain ⟨hall, hpair⟩ := ih _ hmax
    refine ⟨forall_mem_cons.2 ⟨⟨hstep, hmax⟩, fun entry hentry => ?_⟩,
      pairwise_cons.2 ⟨fun entry hentry => (hall entry hentry).1, hpair⟩⟩
    exact ⟨hstep.trans (hall entry hentry).1, (hall entry hentry).2⟩

namespace Segment

variable (segment : Segment)

@[simp] theorem length_index : segment.index.length = segment.events.length :=
  length_indexFrom 0 segment.events

theorem partitionPointAfter_eq (offset : Sequence) : segment.partitionPointAfter offset =
      (segment.events.takeWhile fun event => event.seq ≤ offset).length := by
  have hindex := congrArg (fun l => (l.takeWhile fun s : Sequence => s ≤ offset).length)
    (map_sequence_indexFrom 0 segment.events)
  simpa [partitionPointAfter, index, takeWhile_map, Function.comp_def] using hindex

theorem partitionPointAfter_le (offset : Sequence) :
    segment.partitionPointAfter offset ≤ segment.events.length := by
  rw [partitionPointAfter_eq]
  exact (takeWhile_sublist _).length_le

theorem index_sequence {i : ℕ} {event : Event} (h : segment.events[i]? = some event) :
    (segment.index[i]?).map (·.sequence) = some event.seq := by
  have hindex := congrArg (·[i]?) (map_sequence_indexFrom 0 segment.events)
  simpa [h, index] using hindex

theorem le_byBytes {start : ℕ} (hstart : start ≤ segment.events.length) (maxBytes : ℕ) :
    start ≤ (segment.index.takeWhile fun entry =>
      entry.cumulativeBytes ≤ satAdd (segment.bytesBefore start) maxBytes).length := by
  obtain ⟨hall, hpair⟩ := cumulativeBytes_indexFrom 0 segment.events (Nat.zero_le _)
  refine List.le_length_takeWhile (by simpa using hstart) fun entry hentry => ?_
  rw [decide_eq_true_eq]
  cases start with
  | zero => simp at hentry
  | succ k =>
    have hk : k < segment.index.length := by rw [length_index]; omega
    have hget : segment.index[k]? = some segment.index[k] := getElem?_eq_getElem hk
    have hlast : entry.cumulativeBytes ≤ segment.index[k].cumulativeBytes := by
      rw [take_add_one, hget] at hentry
      rcases mem_append.1 hentry with hmem | hmem
      · have hsplit : (segment.index.take k ++ [segment.index[k]]).Pairwise
            fun a b => a.cumulativeBytes ≤ b.cumulativeBytes := by
          have htake := hpair.sublist (take_sublist (k + 1) segment.index)
          rwa [take_add_one, hget] at htake
        exact (pairwise_append.1 hsplit).2.2 entry hmem _ (mem_singleton.2 rfl)
      · rw [mem_singleton.1 hmem]
    have hbase : segment.bytesBefore (k + 1) = segment.index[k].cumulativeBytes := by
      simp [bytesBefore, hget]
    have hmax : segment.index[k].cumulativeBytes ≤ usizeMax := (hall _ (getElem_mem hk)).2
    rw [satAdd]
    omega

/-- Where a run starts and where it stops: past its start, when there is an event left. -/
theorem readAfter_eq (offset : Sequence) (limit : ReadLimit) :
    ∃ start stop, start = segment.partitionPointAfter offset ∧
      segment.readAfter offset limit = ⟨(segment.events.drop start).take (stop - start),
          segment.bytesBefore stop - segment.bytesBefore start, segment.frontierAt stop offset⟩ ∧
      start ≤ stop ∧ stop ≤ segment.events.length ∧
      (start < segment.events.length → start < stop) := by
  have hstart := segment.partitionPointAfter_le offset
  have hbytes := segment.le_byBytes hstart limit.maxBytes
  refine ⟨_, _, rfl, rfl, ?_⟩
  rw [length_index]
  split <;> omega

/-- **A run is a window of the segment**, from the position of the reader to the frontier of the
run. -/
theorem readAfter_spec (hin : ∀ event ∈ segment.events, event.seq ≤ segment.through)
    {offset : Sequence} (hoffset : offset ≤ segment.through) (limit : ReadLimit) :
    (segment.readAfter offset limit).events =
        segment.events.window Event.seq offset (segment.readAfter offset limit).frontier ∧
      offset ≤ (segment.readAfter offset limit).frontier ∧
      (segment.readAfter offset limit).frontier ≤ segment.through := by
  obtain ⟨start, stop, hstart, hrun, hle, hlen, hmore⟩ := segment.readAfter_eq offset limit
  rw [hrun]
  -- what lies past the position of the reader
  have hrest : segment.events.drop start = segment.events.filter fun event =>
    offset < event.seq := by
    rw [← segment.ascending.drop_takeWhile, ← partitionPointAfter_eq, hstart]
  have hasc : (segment.events.drop start).Ascending Event.seq :=
    segment.ascending.sublist (drop_sublist _ _)
  rcases Nat.lt_or_ge stop segment.events.length with hlt | hge
  · -- a limit intervened: the run ends with the event before `stop`
    obtain ⟨k, rfl⟩ : ∃ k, stop = start + k + 1 := ⟨stop - start - 1, by omega⟩
    have hget : segment.events[start + k]? = some segment.events[start + k] :=
      getElem?_eq_getElem (by omega)
    have hmem : segment.events[start + k] ∈ segment.events := getElem_mem _
    have hfrontier : segment.frontierAt (start + k + 1) offset = segment.events[start + k].seq := by
      rw [frontierAt, if_neg (by rw [length_index]; omega)]
      simp [segment.index_sequence hget]
    have hdrop : (segment.events.drop start)[k]? = some segment.events[start + k] := by
      rw [getElem?_drop, hget]
    have hpast : offset < segment.events[start + k].seq := by
      have hmem := mem_of_getElem? hdrop
      rw [hrest, mem_filter] at hmem
      simpa using hmem.2
    refine ⟨?_, ?_, ?_⟩
    · rw [hfrontier, show start + k + 1 - start = k + 1 by omega,
        ← List.filter_key_le hasc hdrop, hrest, filter_filter]
      exact filter_congr fun event _ => by rw [Bool.decide_and, Bool.and_comm]
    · exact hfrontier ▸ hpast.le
    · exact hfrontier ▸ hin _ hmem
  · obtain rfl : stop = segment.events.length := by omega
    have hfrontier : segment.frontierAt segment.events.length offset = segment.through := by
      rw [frontierAt, if_pos (length_index segment).symm]
    refine ⟨?_, ?_, ?_⟩
    · rw [hfrontier, take_of_length_le (by simp), hrest]
      refine filter_congr fun event hevent => ?_
      simp [hin event hevent]
    · exact hfrontier ▸ hoffset
    · exact hfrontier.le

end Segment

end Gears.Broker
