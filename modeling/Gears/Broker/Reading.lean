import Gears.Broker.Residency

/-!
# The event broker: reading through the cache is reading the log

* `PartitionCache.readFrom_spec` : one read returns a window of the log.
* `reads_follow_the_log` : so does everything a reader has ever received.
* `spans_overlap_at_the_end` : a fetch that accounts up to the greatest number breaks the map.
-/

namespace Gears.Broker

open List

variable {cache : PartitionCache} {gathered : Gathered}

/-- What was gathered from a position on is a window of the log. -/
def Gathered.Shows (gathered : Gathered) (log : Log) (offset : Sequence) : Prop :=
  gathered.runs.flatMap EventSlice.events =
      log.events.window Event.seq offset gathered.frontier ∧ offset ≤ gathered.frontier

section

variable {log : Log} {offset : Sequence} {segment : Segment}

theorem Segment.Truthful.seq_le (h : segment.Truthful log) :
    ∀ event ∈ segment.events, event.seq ≤ segment.through :=
  fun event hevent => ((h event).1 hevent).2.2

theorem Segment.Truthful.readAfter (h : segment.Truthful log)
    (hstart : ∀ s, offset < s → segment.start ≤ s) (hoffset : offset ≤ segment.through)
    (limit : ReadLimit) : (segment.readAfter offset limit).events =
        log.events.window Event.seq offset (segment.readAfter offset limit).frontier ∧
      offset ≤ (segment.readAfter offset limit).frontier := by
  obtain ⟨hevents, hle, hthrough⟩ := segment.readAfter_spec h.seq_le hoffset limit
  exact ⟨hevents.trans (h.window_eq hstart hthrough), hle⟩

theorem Gathered.Shows.push (h : gathered.Shows log offset) {run : EventSlice} {cursor : Sequence}
    (hcursor : gathered.frontier = cursor)
    (hrun : run.events = log.events.window Event.seq cursor run.frontier)
    (hle : cursor ≤ run.frontier) : (gathered.push run).Shows log offset := by
  subst hcursor
  refine ⟨?_, h.2.trans hle⟩
  change (gathered.runs ++ [run]).flatMap EventSlice.events = _
  rw [flatMap_append, h.1]
  simp only [flatMap_cons, flatMap_nil, append_nil]
  rw [hrun]
  exact List.window_append log.ascending h.2 hle

theorem walkOn_shows (limit : ReadLimit) (rest : SegmentMap) (htruth : ∀ s ∈ rest, s.Truthful log)
    {current : Segment} (hbelow : current.through < Sequence.max)
    (hbelows : ∀ s ∈ rest, s.through < Sequence.max)
    (hfrontier : gathered.frontier = current.through) (h : gathered.Shows log offset) :
    (walkOn limit gathered current rest).Shows log offset := by
  induction rest generalizing gathered current with
  | nil => exact h
  | cons next rest ih =>
    obtain ⟨hnext, hrest⟩ := forall_mem_cons.1 htruth
    obtain ⟨hnextBelow, hrestBelow⟩ := forall_mem_cons.1 hbelows
    rw [walkOn]
    split
    · exact ih hrest hbelow hrestBelow hfrontier h
    · rename_i hpast
      split
      · exact h
      · rename_i hadjacent
        -- the next segment starts right behind the current one
        have hstart : next.start.1 = current.through.1 + 1 := by
          have heq : current.through.saturatingSucc = next.start := by
            simpa [Segment.isAdjacentTo, AccountedSpan.isAdjacentTo, Segment.through,
              Segment.start] using hadjacent
          rw [← heq, Sequence.val_saturatingSucc hbelow]
        have hfrom : ∀ s, current.through < s → next.start ≤ s := by
          intro s hs
          have hs : current.through.1 < s.1 := hs
          rw [← Subtype.coe_le_coe]
          omega
        have hthrough : current.through ≤ next.through :=
          (not_le.1 hpast).le.trans next.start_le_through
        dsimp only
        split
        · exact h
        · obtain ⟨hrun, hle⟩ := hnext.readAfter hfrom hthrough
            (limit.less gathered.events gathered.bytes)
          have hpush := h.push hfrontier hrun hle
          split
          · rename_i hend
            exact ih hrest hnextBelow hrestBelow hend hpush
          · exact hpush

theorem PartitionCache.serving_eq_some (h : cache.residency.segments.Sound log)
    (hserving : cache.serving offset = some segment) :
    segment ∈ cache.residency.segments ∧ (∀ s, offset < s → segment.start ≤ s) ∧
      offset ≤ segment.through := by
  rw [serving, Option.filter_eq_some_iff] at hserving
  obtain ⟨hlast, hserves⟩ := hserving
  obtain ⟨hmem, -⟩ := h.disjoint.lastUpTo_eq_some hlast
  simp only [Segment.serves, AccountedSpan.serves, AccountedSpan.contains,
    decide_eq_true_eq] at hserves
  obtain ⟨hlow, hhigh⟩ := hserves
  -- at the greatest number no segment serves, as every one ends before it
  have hoffset : offset < Sequence.max := by
    by_contra hge
    have hmax : offset.saturatingSucc = offset := by
      rw [Sequence.saturatingSucc, dif_neg fun hlt => hge (Sequence.lt_max_iff.2 hlt)]
    rw [hmax] at hhigh
    exact hge (hhigh.trans_lt (h.below segment hmem))
  have hsucc := Sequence.val_saturatingSucc hoffset
  have hlow : segment.start.1 ≤ offset.saturatingSucc.1 := hlow
  have hhigh : offset.saturatingSucc.1 ≤ segment.through.1 := hhigh
  refine ⟨hmem, fun s hs => ?_, ?_⟩
  · have hs : offset.1 < s.1 := hs
    rw [← Subtype.coe_le_coe]
    omega
  · rw [← Subtype.coe_le_coe]
    omega

/-- **One read returns a window of the log**, from the position of the reader to where the read
accounts for. -/
theorem PartitionCache.readFrom_spec (h : cache.residency.segments.Sound log) {limit : ReadLimit}
    {events : List Event} {through : Sequence}
    (hread : cache.readFrom offset limit = .hit events through) :
    events = log.events.window Event.seq offset through ∧ offset ≤ through := by
  rw [readFrom] at hread
  split at hread
  · split at hread <;> cases hread
  · rename_i current hserving
    obtain ⟨hmem, hstart, hoffset⟩ := serving_eq_some h hserving
    obtain ⟨hrun, hle⟩ := (h.truthful current hmem).readAfter hstart hoffset limit
    have hfirst : (Gathered.push ⟨[], 0, 0, offset⟩ (current.readAfter offset limit)).Shows
        log offset := by
      have hnone : Gathered.Shows ⟨[], 0, 0, offset⟩ log offset :=
        ⟨List.window_self.symm, le_rfl⟩
      exact hnone.push rfl hrun hle
    obtain ⟨rfl, rfl⟩ := hread
    split
    · rename_i hend
      exact walkOn_shows limit _ h.truthful (h.below current hmem) h.below hend hfirst
    · exact hfirst

end

/-! ### Every run -/

/-- An absorbed fetch is truthful; other calls carry nothing of the log. -/
def Call.Truthful (log : Log) : Call → Prop
  | .absorb fetch _ _ => fetch.intoSegment.Truthful log
  | _ => True

/-- An absorbed fetch accounts for less than the greatest number. -/
def Call.EndsEarly : Call → Prop
  | .absorb fetch _ _ => fetch.intoSegment.through < Sequence.max
  | _ => True

/-- The reader has received a window of the log, from where it started to where it stands. -/
def Reader.UpToDate (log : Log) (reader : Reader) : Prop :=
  reader.received = log.events.window Event.seq reader.start reader.offset ∧
    reader.start ≤ reader.offset

theorem Reader.UpToDate.read {log : Log} {reader : Reader} (h : reader.UpToDate log)
    (hsound : cache.residency.segments.Sound log) (limit : ReadLimit) :
    (reader.read cache limit).UpToDate log := by
  rw [Reader.read]
  split
  · rename_i events through hread
    obtain ⟨rfl, hle⟩ := PartitionCache.readFrom_spec hsound hread
    rw [sup_eq_right.2 hle, h.1]
    exact ⟨List.window_append log.ascending h.2 hle, h.2.trans hle⟩
  · exact h
  · exact h

/-- What every call keeps. -/
structure Partition.Good (log : Log) (partition : Partition) : Prop where
  residency : partition.cache.residency.Good log
  readers : ∀ reader ∈ partition.readers, reader.UpToDate log

theorem Partition.good_new (log : Log) : Partition.new.Good log := by
  have hnone : ∀ p : Segment → Prop, ∀ s ∈ ([] : List Segment), p s := fun p s hs => by cases hs
  refine ⟨⟨⟨.nil, hnone _, hnone _⟩, ⟨?_, ?_⟩⟩, fun reader hreader => by cases hreader⟩
  · exact ⟨Nat.zero_le _, fun _ => ⟨rfl, rfl⟩, fun h => absurd h (by decide)⟩
  · exact ⟨Nat.zero_le _, fun _ => ⟨rfl, rfl⟩, fun h => absurd h (by decide)⟩

theorem Partition.good_step {log : Log} {partition partition' : Partition} {call : Call}
    (h : partition.Good log) (hcall : call.Truthful log ∧ call.EndsEarly)
    (hstep : partition.step call = .ok partition') : partition'.Good log := by
  cases call with
  | absorb fetch positions policy =>
    cases hstep
    exact ⟨PartitionCache.absorb_good h.residency hcall.1 hcall.2 positions policy, h.readers⟩
  | reclaim positions policy =>
    cases hstep
    exact ⟨PartitionCache.reclaim_good h.residency positions policy, h.readers⟩
  | track offset =>
    cases hstep
    refine ⟨h.residency, fun reader hreader => ?_⟩
    rcases List.mem_concat_iff.1 hreader with hreader | rfl
    · exact h.readers reader hreader
    · exact ⟨List.window_self.symm, le_rfl⟩
  | drop id =>
    cases hstep
    exact ⟨h.residency, fun reader hreader => h.readers reader (mem_filter.1 hreader).1⟩
  | read id limit =>
    rw [Partition.step] at hstep
    split at hstep
    · cases hstep
      refine ⟨h.residency, fun reader hreader => ?_⟩
      -- one reader reads, the others stand where they stood
      obtain ⟨reader₀, hreader₀, rfl⟩ := mem_map.1 hreader
      have hready := h.readers reader₀ hreader₀
      split
      · exact hready.read h.residency.sound limit
      · exact hready
    · cases hstep

/-- **Reading through the cache is reading the log**, as long as no fetch accounts for the greatest
number.  After any calls, whatever a reader has received is the window of the log from where it
started to where it stands; resident spans are disjoint; and what was absorbed is resident or was
reclaimed. -/
theorem reads_follow_the_log (log : Log) {calls : List Call} {partition : Partition}
    (hrun : Machine.run Partition.step Partition.new calls = .ok partition)
    (htruth : ∀ call ∈ calls, call.Truthful log) (hends : ∀ call ∈ calls, call.EndsEarly) :
    (∀ reader ∈ partition.readers, reader.received =
        log.events.window Event.seq reader.start reader.offset ∧ reader.start ≤ reader.offset) ∧
      partition.cache.residency.segments.Disjoint ∧
      partition.cache.residency.balances = true ∧
      (partition.cache.residency.absorbed.bytes < usizeMax →
        partition.cache.residency.absorbed.bytes = partition.cache.residency.reclaimed.bytes +
          partition.cache.residency.segments.total Segment.bytes) ∧
      (partition.cache.residency.absorbed.events < usizeMax →
        partition.cache.residency.absorbed.events = partition.cache.residency.reclaimed.events +
          partition.cache.residency.segments.total Segment.eventCount) := by
  have hgood : partition.Good log := by
    refine Machine.run_guarded (fun _ _ _ h hcall hs => Partition.good_step h hcall hs) hrun ?_
      (Partition.good_new log)
    exact .of_forall fun call hcall => ⟨htruth call hcall, hends call hcall⟩
  obtain ⟨hsound, hbytes, hevents⟩ := hgood.residency
  refine ⟨hgood.readers, hsound.disjoint, ?_, fun hlt => ?_, fun hlt => ?_⟩
  · simpa [Residency.balances] using ⟨hbytes.balances, hevents.balances⟩
  · obtain ⟨hlive, hsum⟩ := hbytes.exact hlt
    rw [hsum, hlive]
  · obtain ⟨hlive, hsum⟩ := hevents.exact hlt
    rw [hsum, hlive]

/-! ### Samples -/

/-- A small position. -/
def pos (n : Fin 100) : Sequence := ⟨n, by omega⟩

/-- Two events of a partition. -/
def sampleEvents : List Event := [⟨"first", some (pos 7), 400⟩, ⟨"second", some (pos 9), 500⟩]

/-- The partition of the two events. -/
def sampleLog : Log where
  events := sampleEvents
  ascending := by decide
  assigned := by decide
  below := by decide

/-- A fetch of a span, with the events of the sample inside it. -/
def sampleFetch (start through : Sequence) : AbsorbedFetch where
  start
  through
  segment := Segment.build start through
    (sampleEvents.filter fun event => start ≤ event.seq ∧ event.seq ≤ through)

theorem sampleFetch_truthful {start through : Sequence} (hle : start ≤ through) :
    (sampleFetch start through).intoSegment.Truthful sampleLog := by
  have hspan : (sampleFetch start through).intoSegment.start = start ∧
      (sampleFetch start through).intoSegment.through = through := by
    refine ⟨inf_idem start, ?_⟩
    change through ⊔ (through ⊔ start) = through
    rw [sup_eq_left.2 hle, sup_idem]
  intro event
  rw [hspan.1, hspan.2]
  change event ∈ (Segment.build start through _).events ↔ event ∈ sampleEvents ∧ _
  have hasc : sampleEvents.Ascending Event.seq := sampleLog.ascending
  rw [Segment.mem_build fun a ha b hb => hasc.eq_of_key (mem_filter.1 ha).1
    (mem_filter.1 hb).1, mem_filter, decide_eq_true_eq]

/-- Two overlapping fetches, a pass that keeps everything, and two reads of one reader. -/
def sampleCalls : List Call :=
  [.absorb (sampleFetch (pos 1) (pos 8)) [] ⟨10, 5000⟩,
    .absorb (sampleFetch (pos 6) (pos 12)) [] ⟨10, 5000⟩, .track (pos 2),
    .reclaim [pos 2] ⟨10, 5000⟩, .read 0 ⟨1, 9999⟩, .read 0 ⟨5, 9999⟩]

theorem reads_follow_the_log_sample :
    ∃ partition, Machine.run Partition.step Partition.new sampleCalls = .ok partition ∧
      (∀ reader ∈ partition.readers, reader.received = sampleEvents) ∧
      partition.cache.residency.segments.Disjoint := by
  have htruth : ∀ call ∈ sampleCalls, call.Truthful sampleLog := by
    simp only [sampleCalls, forall_mem_cons, Call.Truthful, not_mem_nil, false_imp_iff,
      implies_true, and_true]
    exact ⟨sampleFetch_truthful (by decide), sampleFetch_truthful (by decide)⟩
  have hends : ∀ call ∈ sampleCalls, call.EndsEarly := by
    simp only [sampleCalls, forall_mem_cons, Call.EndsEarly, not_mem_nil, false_imp_iff,
      implies_true]
    exact ⟨by decide, by decide⟩
  refine Except.exists_ok_of (P := fun partition => ∀ reader ∈ partition.readers,
    reader.start = pos 2 ∧ reader.offset = pos 12) (by decide +kernel)
      fun partition hpartition hat => ?_
  obtain ⟨hread, hdisjoint, -⟩ := reads_follow_the_log sampleLog hpartition htruth hends
  refine ⟨fun reader hreader => ?_, hdisjoint⟩
  rw [(hread reader hreader).1, (hat reader hreader).1, (hat reader hreader).2]
  decide

/-- **A fetch up to the greatest number breaks the map.**  Absorbed twice, it is recorded a second
time at its very end, since the successor of the greatest number is that number again: two resident
spans then hold it. -/
theorem spans_overlap_at_the_end :
    (sampleFetch (pos 5) Sequence.max).intoSegment.Truthful sampleLog ∧
      ∃ partition, Machine.run Partition.step Partition.new
        [.absorb (sampleFetch (pos 5) Sequence.max) [] ⟨10, 5000⟩,
          .absorb (sampleFetch (pos 5) Sequence.max) [] ⟨10, 5000⟩] = .ok partition ∧
        ¬ partition.cache.residency.segments.Disjoint ∧
        ∃ a ∈ partition.cache.residency.segments, ∃ b ∈ partition.cache.residency.segments,
          a.start ≠ b.start ∧ a.accountsFor Sequence.max = true ∧
            b.accountsFor Sequence.max = true := by
  unfold SegmentMap.Disjoint
  exact ⟨sampleFetch_truthful (by decide), by decide +kernel⟩

end Gears.Broker
