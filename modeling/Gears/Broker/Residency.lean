import Gears.Broker.Cache
import Mathlib.Algebra.BigOperators.Group.List.Basic
import Mathlib.Data.List.Pairwise

/-!
# The event broker: what is resident stays true to the log

* `Log` : the events of a partition, in ascending order.
* `Segment.Truthful` : a segment carries exactly the events of the log inside its span.
* `SegmentMap.Sound` : resident segments are truthful, and their spans are disjoint.
* `Residency.Balance` : what was absorbed is resident, or was reclaimed.
-/

namespace Gears.Broker

open List

/-- The events of a partition: sequences are assigned below the greatest number, and distinct. -/
structure Log where
  events : List Event
  ascending : events.Ascending Event.seq
  assigned : ∀ event ∈ events, event.sequence = some event.seq
  below : ∀ event ∈ events, event.seq < Sequence.max

variable {incoming : Segment} {log : Log} {segments : SegmentMap} {through : Sequence}

namespace Segment

/-- The segment carries exactly the events of the log inside its span. -/
def Truthful (log : Log) (segment : Segment) : Prop :=
  ∀ event, event ∈ segment.events ↔
    event ∈ log.events ∧ segment.start ≤ event.seq ∧ event.seq ≤ segment.through

variable {segment segment' : Segment}

theorem Truthful.window_eq (h : segment.Truthful log) {a b : Sequence}
    (ha : ∀ s, a < s → segment.start ≤ s) (hb : b ≤ segment.through) :
    segment.events.window Event.seq a b = log.events.window Event.seq a b := by
  refine Ascending.eq_of_mem_iff (segment.ascending.filter _) (log.ascending.filter _)
    fun event => ?_
  rw [mem_window, mem_window, h event]
  constructor
  · rintro ⟨⟨hlog, -⟩, hrange⟩
    exact ⟨hlog, hrange⟩
  · rintro ⟨hlog, hlow, hhigh⟩
    exact ⟨⟨hlog, ha _ hlow, hhigh.trans hb⟩, hlow, hhigh⟩

theorem start_le_through (segment : Segment) : segment.start ≤ segment.through :=
  segment.span.ordered

theorem mem_build {start : Sequence} {events : List Event} {event : Event}
    (hinj : ∀ a ∈ events, ∀ b ∈ events, a.seq = b.seq → a = b) :
    event ∈ (build start through events).events ↔ event ∈ events := by
  rw [build, mem_dedupByKey, mem_sortByKey]
  intro a ha b hb
  exact hinj a (mem_sortByKey.1 ha) b (mem_sortByKey.1 hb)

theorem Truthful.trimmedTo (h : segment.Truthful log) {start : Sequence}
    (hstart : segment.start ≤ start) (hthrough : through ≤ segment.through)
    (htrim : segment.trimmedTo start through = some segment') :
    segment'.Truthful log ∧ segment'.start = start ∧ segment'.through = through := by
  rw [Segment.trimmedTo] at htrim
  split at htrim
  · cases htrim
  · rename_i hlt
    split at htrim
    · rename_i hwhole
      cases htrim
      exact ⟨h, le_antisymm hstart hwhole.1, le_antisymm hwhole.2 hthrough⟩
    · cases htrim
      refine ⟨fun event => ?_, rfl, sup_eq_left.2 (not_lt.1 hlt)⟩
      have hend : (build start through (segment.events.filter fun event =>
          event.sequence.any fun sequence => start ≤ sequence ∧ sequence ≤ through)).through =
          through := sup_eq_left.2 (not_lt.1 hlt)
      rw [mem_build fun a ha b hb => segment.ascending.eq_of_key (mem_filter.1 ha).1
        (mem_filter.1 hb).1, mem_filter, h event, hend]
      constructor
      · rintro ⟨⟨hlog, -⟩, hany⟩
        rw [log.assigned event hlog] at hany
        have hrange : start ≤ event.seq ∧ event.seq ≤ through := by simpa using hany
        exact ⟨hlog, hrange⟩
      · rintro ⟨hlog, hlow, hhigh⟩
        refine ⟨⟨hlog, hstart.trans hlow, hhigh.trans hthrough⟩, ?_⟩
        rw [log.assigned event hlog]
        simpa using ⟨hlow, hhigh⟩

end Segment

/-! ### The map -/

namespace SegmentMap

/-- Spans are disjoint, and in order. -/
def Disjoint (segments : SegmentMap) : Prop :=
  segments.Pairwise fun a b => a.through < b.start

variable {position lower upper : Sequence} {segment : Segment}

theorem Disjoint.ascending (h : Disjoint segments) : segments.Ascending Segment.start :=
  h.imp fun {a _} hlt => a.start_le_through.trans_lt hlt

/-- The last segment up to a position: what starts before it ends before it. -/
theorem Disjoint.lastUpTo_eq_some (h : Disjoint segments)
    (hlast : segments.lastUpTo position = some segment) :
    segment ∈ segments ∧ segment.start ≤ position ∧
      ∀ s ∈ segments, s.start ≤ position → s = segment ∨ s.through < segment.start := by
  obtain ⟨init, hinit⟩ := getLast?_eq_some_iff.1 hlast
  have hmem : segment ∈ segments.filter fun s => s.start ≤ position := by simp [hinit]
  rw [mem_filter, decide_eq_true_eq] at hmem
  refine ⟨hmem.1, hmem.2, fun s hs hle => ?_⟩
  have hs' : s ∈ segments.filter fun s => s.start ≤ position := by simpa using ⟨hs, hle⟩
  rw [hinit, mem_append, mem_singleton] at hs'
  rcases hs' with hs' | rfl
  · have hpair := h.filter fun s => s.start ≤ position
    rw [hinit] at hpair
    exact .inr ((pairwise_append.1 hpair).2.2 s hs' segment (mem_singleton.2 rfl))
  · exact .inl rfl

theorem lastUpTo_eq_none (hlast : segments.lastUpTo position = none) :
    ∀ s ∈ segments, position < s.start := by
  rw [lastUpTo, getLast?_eq_none_iff, filter_eq_nil_iff] at hlast
  intro s hs
  simpa using hlast s hs

/-- The first segment in a range: what starts past the lower end starts at or past it. -/
theorem Disjoint.firstWithin_eq_some (h : Disjoint segments)
    (hfirst : segments.firstWithin lower upper = some segment) :
    segment ∈ segments ∧ lower ≤ segment.start ∧ segment.start ≤ upper ∧
      ∀ s ∈ segments, lower ≤ s.start → segment.start ≤ s.start := by
  obtain ⟨hp, before, after, rfl, hbefore⟩ := find?_eq_some_iff_append.1 hfirst
  rw [decide_eq_true_eq] at hp
  refine ⟨by simp, hp.1, hp.2, fun s hs hle => ?_⟩
  obtain ⟨-, hafter, hcross⟩ := pairwise_append.1 h.ascending
  rw [mem_append, mem_cons] at hs
  rcases hs with hs | rfl | hs
  · -- it comes before, so it is out of range, and it cannot be past the upper end
    have hout := hbefore s hs
    have hlt : s.start < segment.start := hcross s hs segment mem_cons_self
    simp [hle, hlt.le.trans hp.2] at hout
  · exact le_rfl
  · exact ((pairwise_cons.1 hafter).1 s hs).le

theorem firstWithin_eq_none (hfirst : segments.firstWithin lower upper = none) :
    ∀ s ∈ segments, lower ≤ s.start → upper < s.start := by
  intro s hs hle
  have hout := find?_eq_none.1 hfirst s hs
  simpa [hle] using hout

/-- A segment that touches no resident one. -/
def Clear (segments : SegmentMap) (segment : Segment) : Prop :=
  ∀ s ∈ segments, s.through < segment.start ∨ segment.through < s.start

section

variable (h : Disjoint segments)
include h

section

variable (hclear : Clear segments segment)
include hclear

/-- A segment that touches no resident one is put between those before and those behind it. -/
theorem Disjoint.exists_insert : ∃ before after, segments = before ++ after ∧
      segments.insert segment = before ++ segment :: after ∧
      (∀ s ∈ before, s.through < segment.start) ∧ ∀ s ∈ after, segment.through < s.start := by
  induction segments with
  | nil => exact ⟨[], [], rfl, rfl, by simp, by simp⟩
  | cons head rest ih =>
    obtain ⟨hhead, hrest⟩ := pairwise_cons.1 h
    rw [insert]
    rcases hclear head mem_cons_self with hlt | hlt
    · have hstart := head.start_le_through.trans_lt hlt
      obtain ⟨before, after, rfl, hins, hbefore, hafter⟩ :=
        ih hrest fun s hs => hclear s (mem_cons_of_mem _ hs)
      exact ⟨head :: before, after, rfl, by rw [if_neg hstart.asymm, if_neg hstart.ne', hins]; rfl,
        forall_mem_cons.2 ⟨hlt, hbefore⟩, hafter⟩
    · rw [if_pos (segment.start_le_through.trans_lt hlt)]
      refine ⟨[], head :: rest, rfl, rfl, by simp, forall_mem_cons.2 ⟨hlt, fun s hs => ?_⟩⟩
      exact hlt.trans (head.start_le_through.trans_lt (hhead s hs))

theorem Disjoint.mem_insert {s : Segment} :
    s ∈ segments.insert segment ↔ s = segment ∨ s ∈ segments := by
  obtain ⟨before, after, rfl, hins, -⟩ := h.exists_insert hclear
  rw [hins, mem_append, mem_cons, mem_append]
  tauto

theorem Disjoint.insert : Disjoint (segments.insert segment) := by
  obtain ⟨before, after, rfl, hins, hbefore, hafter⟩ := h.exists_insert hclear
  obtain ⟨hb, ha, hcross⟩ := pairwise_append.1 h
  rw [hins]
  exact pairwise_append.2 ⟨hb, pairwise_cons.2 ⟨hafter, ha⟩,
    fun s hs => forall_mem_cons.2 ⟨hbefore s hs, hcross s hs⟩⟩

end

theorem Disjoint.apart {s t : Segment} (hs : s ∈ segments) (ht : t ∈ segments) (hne : s ≠ t) :
    s.through < t.start ∨ t.through < s.start := by
  have : Std.Symm fun a b : Segment => a.through < b.start ∨ b.through < a.start :=
    ⟨fun _ _ hab => hab.symm⟩
  have hpair : segments.Pairwise fun a b => a.through < b.start ∨ b.through < a.start :=
    h.imp fun hlt => .inl hlt
  exact hpair.forall hs ht hne

theorem Disjoint.unaccountedStart_spec (hbelow : ∀ s ∈ segments, s.through < Sequence.max)
    (start : Sequence) : start ≤ segments.unaccountedStart start ∧
      (∀ s ∈ segments, s.start < segments.unaccountedStart start →
        s.through < segments.unaccountedStart start) ∧
      ∀ s ∈ segments, s.start = segments.unaccountedStart start → ∃ t, t < s.start := by
  rw [unaccountedStart]
  cases hlast : segments.lastUpTo start with
  | none =>
    have hall := lastUpTo_eq_none hlast
    exact ⟨le_rfl, fun s hs hlt => absurd hlt (hall s hs).asymm,
      fun s hs heq => absurd heq (hall s hs).ne'⟩
  | some covering =>
    obtain ⟨hmem, hle, hbefore⟩ := h.lastUpTo_eq_some hlast
    by_cases hcover : covering.accountsFor start = true
    · -- the part starts right behind the segment that covers the start
      have hin : start ≤ covering.through := by
        simp only [Segment.accountsFor, AccountedSpan.contains, decide_eq_true_eq] at hcover
        exact hcover.2
      have hlt : covering.through < covering.through.saturatingSucc := by
        rw [← Subtype.coe_lt_coe, Sequence.val_saturatingSucc (hbelow covering hmem)]
        omega
      simp only [if_pos hcover]
      refine ⟨hin.trans hlt.le, fun s hs hs' => ?_, fun s hs heq => ⟨covering.through, heq ▸ hlt⟩⟩
      by_cases hsc : s = covering
      · exact hsc ▸ hlt
      · rcases h.apart hs hmem hsc with h₁ | h₁
        · exact h₁.trans (covering.start_le_through.trans_lt hlt)
        · -- it would start behind the covering segment, and so at or past the new start
          rw [← Subtype.coe_lt_coe, Sequence.val_saturatingSucc (hbelow covering hmem)] at hs'
          have h₁ : covering.through.1 < s.start.1 := h₁
          omega
    · simp only [if_neg hcover]
      have hend : covering.through < start := by
        by_contra hge
        exact hcover (by simpa [Segment.accountsFor, AccountedSpan.contains] using
          ⟨hle, not_lt.1 hge⟩)
      have hall : ∀ s ∈ segments, s.start ≤ start → s.through < start := by
        intro s hs hs'
        rcases hbefore s hs hs' with rfl | h₁
        · exact hend
        · exact h₁.trans_le hle
      refine ⟨le_rfl, fun s hs hs' => hall s hs hs'.le, fun s hs heq => ?_⟩
      exact absurd (heq ▸ hall s hs heq.le) s.start_le_through.not_gt

theorem Disjoint.unaccountedThrough_spec {start : Sequence} (through : Sequence)
    (hroom : ∀ s ∈ segments, s.start = start → ∃ t, t < s.start) :
    segments.unaccountedThrough start through ≤ through ∧
      ∀ s ∈ segments, start ≤ s.start → segments.unaccountedThrough start through < s.start := by
  unfold unaccountedThrough
  split
  · rename_i next hfirst
    obtain ⟨hnext, hlow, hhigh, hleast⟩ := h.firstWithin_eq_some hfirst
    obtain ⟨t, ht⟩ : ∃ t, t < next.start := by
      rcases hlow.lt_or_eq with hlt | heq
      · exact ⟨_, hlt⟩
      · exact hroom next hnext heq.symm
    have hpred : next.start.saturatingPred < next.start := by
      rw [← Subtype.coe_lt_coe, Sequence.val_saturatingPred ht]
      omega
    exact ⟨hpred.le.trans hhigh, fun s hs hge => hpred.trans_le (hleast s hs hge)⟩
  · rename_i hfirst
    exact ⟨le_rfl, firstWithin_eq_none hfirst⟩

/-- **The part of a fetch that is recorded** is truthful and touches no resident segment. -/
theorem Disjoint.narrowToUnaccounted (hbelow : ∀ s ∈ segments, s.through < Sequence.max)
    (htruth : incoming.Truthful log)
    (hnarrow : segments.narrowToUnaccounted incoming = some segment) :
    segment.Truthful log ∧ Clear segments segment ∧ segment.through ≤ incoming.through := by
  obtain ⟨hstart, hbefore, hroom⟩ := h.unaccountedStart_spec hbelow incoming.start
  obtain ⟨hle, hbehind⟩ := h.unaccountedThrough_spec incoming.through hroom
  rw [SegmentMap.narrowToUnaccounted] at hnarrow
  split at hnarrow
  · cases hnarrow
  obtain ⟨htrue, hs, ht⟩ := htruth.trimmedTo hstart hle hnarrow
  refine ⟨htrue, fun s hmem => ?_, ht ▸ hle⟩
  rw [hs, ht]
  exact (lt_or_ge s.start _).imp (hbefore s hmem) (hbehind s hmem)

end

/-- Resident segments are truthful, end below the greatest number and do not touch. -/
structure Sound (log : Log) (segments : SegmentMap) : Prop where
  disjoint : Disjoint segments
  truthful : ∀ s ∈ segments, s.Truthful log
  below : ∀ s ∈ segments, s.through < Sequence.max

theorem Sound.sublist {segments' : SegmentMap} (h : Sound log segments)
    (hsub : segments'.Sublist segments) : Sound log segments' :=
  ⟨h.disjoint.sublist hsub, fun s hs => h.truthful s (hsub.subset hs),
    fun s hs => h.below s (hsub.subset hs)⟩

theorem Sound.insert (h : Sound log segments) (htruth : incoming.Truthful log)
    (hbelow : incoming.through < Sequence.max)
    (hnarrow : segments.narrowToUnaccounted incoming = some segment) :
    Sound log (segments.insert segment) := by
  obtain ⟨htrue, hclear, hle⟩ := h.disjoint.narrowToUnaccounted h.below htruth hnarrow
  refine ⟨h.disjoint.insert hclear, fun s hs => ?_, fun s hs => ?_⟩
  · rcases (h.disjoint.mem_insert hclear).1 hs with rfl | hs
    · exact htrue
    · exact h.truthful s hs
  · rcases (h.disjoint.mem_insert hclear).1 hs with rfl | hs
    · exact hle.trans_lt hbelow
    · exact h.below s hs

/-- The total of a measure over the resident segments. -/
def total (measure : Segment → ℕ) (segments : SegmentMap) : ℕ := (segments.map measure).sum

theorem Disjoint.total_insert (h : Disjoint segments) (hclear : Clear segments segment)
    (measure : Segment → ℕ) :
    total measure (segments.insert segment) = measure segment + total measure segments := by
  obtain ⟨before, after, rfl, hins, -⟩ := h.exists_insert hclear
  simp only [hins, total, map_append, map_cons, sum_append, sum_cons]
  omega

end SegmentMap

/-! ### Totals -/

/-- A total counted in a machine word: exact until it is full, and then full for good. -/
structure Counted (resident absorbed reclaimed live : ℕ) : Prop where
  bound : absorbed ≤ usizeMax
  exact : absorbed < usizeMax → live = resident ∧ absorbed = reclaimed + live
  full : absorbed = usizeMax → usizeMax ≤ reclaimed + live

namespace Counted

variable {resident absorbed reclaimed live n : ℕ}

theorem absorb (h : Counted resident absorbed reclaimed live) :
    Counted (n + resident) (satAdd absorbed n) reclaimed (satAdd live n) := by
  obtain ⟨h₁, h₂, h₃⟩ := h
  refine ⟨min_le_right _ _, fun hlt => ?_, fun heq => ?_⟩ <;> simp only [satAdd] at * <;> omega

theorem reclaim (h : Counted (n + resident) absorbed reclaimed live) :
    Counted resident absorbed (satAdd reclaimed (min n usizeMax)) (live - min n usizeMax) := by
  obtain ⟨h₁, h₂, h₃⟩ := h
  refine ⟨h₁, fun hlt => ?_, fun heq => ?_⟩ <;> simp only [satAdd] <;> omega

theorem balances (h : Counted resident absorbed reclaimed live) :
    absorbed = satAdd reclaimed live := by
  obtain ⟨h₁, h₂, h₃⟩ := h
  rw [satAdd]
  omega

end Counted

namespace Residency

/-- Bytes and events are counted. -/
structure Balance (residency : Residency) : Prop where
  bytes : Counted (residency.segments.total Segment.bytes) residency.absorbed.bytes
    residency.reclaimed.bytes residency.live.bytes
  events : Counted (residency.segments.total Segment.eventCount) residency.absorbed.events
    residency.reclaimed.events residency.live.events

/-- What was taken off a map, with the tally of it. -/
structure Taken (segments segments' : SegmentMap) (freed : Tally) : Prop where
  sublist : segments'.Sublist segments
  bytes : ∃ n, freed.bytes = min n usizeMax ∧
    segments.total Segment.bytes = n + segments'.total Segment.bytes
  events : ∃ n, freed.events = min n usizeMax ∧
    segments.total Segment.eventCount = n + segments'.total Segment.eventCount

theorem Taken.takeOne {acc : SegmentMap × Tally} (hdisjoint : segments.Disjoint)
    (h : Taken segments acc.1 acc.2) (start : Sequence) :
    Taken segments (takeOne acc start).1 (takeOne acc start).2 := by
  rw [Residency.takeOne]
  split
  · rename_i segment hfind
    have hnodup : (acc.1.map Segment.start).Nodup :=
      pairwise_map.2 ((hdisjoint.ascending.sublist h.sublist).imp fun hlt => hlt.ne)
    -- starts are distinct, so one segment leaves the map
    have hperm := perm_cons_filter hnodup hfind
    have htotal : ∀ measure : Segment → ℕ, acc.1.total measure = measure segment +
        SegmentMap.total measure (acc.1.filter fun s => s.start ≠ start) :=
      fun measure => (hperm.map measure).sum_eq
    have hbytes := htotal Segment.bytes
    have hevents := htotal Segment.eventCount
    obtain ⟨n, hn, hsum⟩ := h.bytes
    obtain ⟨m, hm, hsum'⟩ := h.events
    refine ⟨filter_sublist.trans h.sublist, ⟨n + segment.bytes, ?_, ?_⟩,
      ⟨m + segment.eventCount, ?_, ?_⟩⟩ <;> dsimp only [Tally.plus, Tally.of, satAdd] <;> omega
  · exact h

theorem taken_foldl (hdisjoint : segments.Disjoint) (victims : List Sequence)
    (acc : SegmentMap × Tally) (h : Taken segments acc.1 acc.2) :
    Taken segments (victims.foldl takeOne acc).1
      (victims.foldl takeOne acc).2 := by
  induction victims generalizing acc with
  | nil => exact h
  | cons start victims ih => exact ih _ (h.takeOne hdisjoint start)

/-- What every change of the map keeps. -/
structure Good (log : Log) (residency : Residency) : Prop where
  sound : residency.segments.Sound log
  balance : residency.Balance

variable {residency : Residency}

theorem Good.take (h : Good log residency) (victims : List Sequence) :
    Good log (residency.take victims) := by
  have hstart : Taken residency.segments residency.segments Tally.zero :=
    ⟨.refl _, ⟨0, rfl, by omega⟩, ⟨0, rfl, by omega⟩⟩
  have htaken := taken_foldl h.sound.disjoint victims (residency.segments, .zero) hstart
  obtain ⟨n, hn, hsum⟩ := htaken.bytes
  obtain ⟨m, hm, hsum'⟩ := htaken.events
  have hbytes := h.balance.bytes
  have hevents := h.balance.events
  rw [hsum] at hbytes
  rw [hsum'] at hevents
  refine ⟨h.sound.sublist htaken.sublist, ⟨?_, ?_⟩⟩
  · have hnew := hbytes.reclaim
    rw [← hn] at hnew
    exact hnew
  · have hnew := hevents.reclaim
    rw [← hm] at hnew
    exact hnew

theorem Good.enforce (h : Good log residency) (readers : List Sequence) (policy : ReclaimPolicy) :
    Good log (residency.enforce readers policy) :=
  ((h.take _).take _).take _

theorem Good.record (h : Good log residency) {segment : Segment} (htruth : incoming.Truthful log)
    (hbelow : incoming.through < Sequence.max)
    (hnarrow : residency.segments.narrowToUnaccounted incoming = some segment) :
    Good log { residency.record segment with
      segments := (residency.record segment).segments.insert segment } := by
  -- the recorded part touches no segment, so its sizes add to the totals
  have hclear := (h.sound.disjoint.narrowToUnaccounted h.sound.below htruth hnarrow).2.1
  refine ⟨h.sound.insert htruth hbelow hnarrow, ⟨?_, ?_⟩⟩
  · have hnew := h.balance.bytes.absorb (n := segment.bytes)
    rw [← h.sound.disjoint.total_insert hclear] at hnew
    exact hnew
  · have hnew := h.balance.events.absorb (n := segment.eventCount)
    rw [← h.sound.disjoint.total_insert hclear] at hnew
    exact hnew

end Residency

namespace PartitionCache

variable {cache : PartitionCache}

theorem absorb_good (h : cache.residency.Good log) {fetch : AbsorbedFetch}
    (htruth : fetch.intoSegment.Truthful log) (hbelow : fetch.intoSegment.through < Sequence.max)
    (readers : List Sequence) (policy : ReclaimPolicy) :
    (cache.absorb fetch readers policy).residency.Good log := by
  rw [absorb]
  split
  · exact h
  · rename_i segment hnarrow
    have hrecord := h.record htruth hbelow hnarrow
    dsimp only
    split
    · exact hrecord.enforce readers policy
    · exact hrecord

theorem reclaim_good (h : cache.residency.Good log) (readers : List Sequence)
    (policy : ReclaimPolicy) : (cache.reclaim readers policy).residency.Good log := by
  obtain ⟨hsound, hbytes, hevents⟩ := h.enforce readers policy
  exact ⟨hsound, hbytes, hevents⟩

end PartitionCache

end Gears.Broker
