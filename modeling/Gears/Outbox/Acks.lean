import Gears.Outbox.Countdown

/-!
# The outbox: what an ack commits

* `Db.Moved` : the tables after an ack, described by the cursor, the new dead letters and what
  became of the accounts.
* `leaseGuardedAck_spec` : an ack of a handled batch commits its processed prefix, under the lease.
-/

namespace Gears.Outbox

open List

variable {letters : List DeadLetter}
  {db db' : Db} {ctx : ProcessContext} {turn : OutboxMessage → Turn}
  {msgs : List OutboxMessage} {traceIds : TraceIds} {worker : String}

/-- The dead letter of a message its handler rejected. -/
def deadLetterOf (turn : OutboxMessage → Turn) (partitionId : ℤ) (traceIds : TraceIds)
    (msg : OutboxMessage) : Option DeadLetter :=
  (turn msg).rejection.map fun reason =>
    msg.deadLetter partitionId reason (traceIds.lookup msg.seq)

theorem persistRejections_eq (db : Db) (ctx : ProcessContext) (msgs : List OutboxMessage)
    (rejections : List Rejection) (traceIds : TraceIds) :
    persistRejections db ctx msgs rejections traceIds = { db with
        deadLetters := db.deadLetters ++ rejections.filterMap fun rej =>
          (msgs[rej.index]?).map fun msg =>
            msg.deadLetter ctx.partitionId rej.reason (traceIds.lookup msg.seq) } := by
  rw [persistRejections]
  induction rejections generalizing db with
  | nil => simp
  | cons rej rejections ih =>
    rw [foldl_cons, ih]
    cases h : msgs[rej.index]? <;> simp [h, insertDeadLetter]

/-- What is read off the rejections of a prefix is read off the rejected messages. -/
theorem filterMap_rejectionsOf {α : Type} (turn : OutboxMessage → Turn)
    (msgs : List OutboxMessage) (f : OutboxMessage → String → α) (k : ℕ) :
    ((rejectionsOf turn (msgs.take k)).filterMap fun rej =>
        (msgs[rej.index]?).map fun msg => f msg rej.reason) =
      (msgs.take k).filterMap fun msg => (turn msg).rejection.map (f msg) := by
  rw [rejectionsOf, filterMap_filterMap]
  have hentry : ∀ entry ∈ (msgs.take k).zipIdx,
      (((turn entry.1).rejection.map (Rejection.mk entry.2)).bind fun rej =>
        (msgs[rej.index]?).map fun msg => f msg rej.reason) =
      (turn entry.1).rejection.map (f entry.1) := by
    intro entry hentry
    have hget : (msgs.take k)[entry.2]? = some entry.1 := mem_zipIdx_iff_getElem?.1 hentry
    have hget : msgs[entry.2]? = some entry.1 := by
      rw [getElem?_take] at hget
      split at hget
      · exact hget
      · cases hget
    cases h : (turn entry.1).rejection <;> simp [hget]
  rw [filterMap_congr hentry]
  calc _ = ((msgs.take k).zipIdx.map Prod.fst).filterMap fun msg =>
          (turn msg).rejection.map (f msg) := by rw [filterMap_map]; rfl
    _ = _ := by rw [zipIdx_map_fst]

theorem persistRejections_spec (db : Db) (ctx : ProcessContext) (k : ℕ) :
    persistRejections db ctx msgs (rejectionsOf turn (msgs.take k)) traceIds = { db with
        deadLetters := db.deadLetters ++
          (msgs.take k).filterMap (deadLetterOf turn ctx.partitionId traceIds) } := by
  rw [persistRejections_eq]
  congr 2
  exact filterMap_rejectionsOf turn msgs
    (fun msg reason => msg.deadLetter ctx.partitionId reason (traceIds.lookup msg.seq)) k

theorem mem_rejectedSeqs (k : ℕ) (seq : ℤ) :
    seq ∈ rejectedSeqs msgs (rejectionsOf turn (msgs.take k)) ↔
      ∃ msg ∈ msgs.take k, (turn msg).rejection.isSome ∧ msg.seq = seq := by
  rw [rejectedSeqs, filterMap_rejectionsOf turn msgs (fun msg _ => msg.seq) k]
  simp [Option.isSome_iff_exists]

/-- The tables after an ack: where the cursor of its partition stands, which dead letters were
added, and what became of the accounts. -/
structure Db.Moved (db db' : Db) (partitionId upto : ℤ) (letters : List DeadLetter)
    (recount : Account → Account) : Prop where
  partitions : db'.partitions = db.partitions
  outgoing : db'.outgoing = db.outgoing
  cursor : (db'.processor partitionId).processedSeq = upto
  others : ∀ q ≠ partitionId, db'.processor q = db.processor q
  letters : db'.deadLetters = db.deadLetters ++ letters
  accounts : db'.traces.map TraceRow.account = db.traces.map fun row => recount row.account

theorem Db.Moved.recounted {db₁ : Db} {p upto : ℤ} {f : Account → Account}
    (h : db.Moved db₁ p upto letters id) (h' : db₁.Recounted db' f) :
    db.Moved db' p upto letters f := by
  obtain ⟨traces, rfl, ht⟩ := h'
  refine { h with accounts := ht.trans ?_ }
  calc (db₁.traces.map fun row => f row.account)
      = (db₁.traces.map TraceRow.account).map f := by simp
    _ = db.traces.map fun row => f row.account := by simp [h.accounts]

theorem Db.moved_setProcessor {p : ℤ} {row : ProcessorRow}
    (h : row.processedSeq = (db.processor p).processedSeq) :
    db.Moved (db.setProcessor p row) p (db.processor p).processedSeq [] id :=
  ⟨rfl, rfl, by simpa [Db.setProcessor] using h,
    fun q hq => by simp [Db.setProcessor, Function.update_of_ne hq], by simp [Db.setProcessor], rfl⟩

theorem advanceCursor_moved {seq : ℤ} (hseq : seq ≠ 0)
    (h : advanceCursor { db with deadLetters := db.deadLetters ++ letters } ctx seq worker =
      some db') :
    (db.processor ctx.partitionId).lockedBy = some worker ∧
      (db'.processor ctx.partitionId).lockedBy = none ∧
      db.Moved db' ctx.partitionId seq letters id := by
  rw [advanceCursor, if_neg hseq] at h
  split at h
  · rename_i hlock
    cases h
    refine ⟨hlock, ?_, rfl, rfl, ?_, fun q hq => ?_, rfl, rfl⟩
    · simp [Db.setProcessor]
    · simp [Db.setProcessor]
    · simp [Db.setProcessor, Function.update_of_ne hq]
  · cases h

theorem recordRetry_moved {reason : String} (h : recordRetry db ctx reason worker = some db') :
    (db.processor ctx.partitionId).lockedBy = some worker ∧
      (db'.processor ctx.partitionId).lockedBy = none ∧
      db.Moved db' ctx.partitionId (db.processor ctx.partitionId).processedSeq [] id := by
  rw [recordRetry] at h
  split at h
  · rename_i hlock
    cases h
    exact ⟨hlock, by simp [Db.setProcessor], Db.moved_setProcessor rfl⟩
  · cases h

/-- What an ack does to the accounts when it moves the cursor to `upto`. -/
def recountUpto (msgs : List OutboxMessage) (traceIds : TraceIds) (upto : ℤ) (rejected : List ℤ)
    (account : Account) : Account :=
  (traceProgress msgs traceIds upto rejected).foldl Account.countDown account

/-- **An ack commits under the lease, and commits the processed prefix.**  Either nothing was
processed and nothing moves, or the cursor moves to the last processed message, the rejected
messages of the prefix become dead letters, and every trace is counted down. -/
theorem leaseGuardedAck_spec {result : HandlerResult} {batch : Batch}
    {claimed : List TraceOutcome} (hmsgs : msgs ≠ []) (hpos : ∀ msg ∈ msgs, 0 < msg.seq)
    (hdone : Handled turn msgs 0 (result, batch))
    (h : leaseGuardedAck db ctx msgs traceIds worker result batch.processed batch.rejections =
      some (claimed, db')) :
    (db.processor ctx.partitionId).lockedBy = some worker ∧
      (db'.processor ctx.partitionId).lockedBy = none ∧
      ((batch.processed = 0 ∧
          db.Moved db' ctx.partitionId (db.processor ctx.partitionId).processedSeq [] id) ∨
        ∃ k last, batch.processed = k + 1 ∧ msgs[k]? = some last ∧
          db.Moved db' ctx.partitionId last.seq
            ((msgs.take (k + 1)).filterMap (deadLetterOf turn ctx.partitionId traceIds))
            (recountUpto msgs traceIds last.seq
              (rejectedSeqs msgs (rejectionsOf turn (msgs.take (k + 1)))))) := by
  have hrej := hdone.rejections
  dsimp only at hrej
  cases hk : batch.processed with
  | zero =>
    -- only a retry processes nothing of a batch
    rw [hk] at hrej
    have hrej : batch.rejections = [] := hrej
    cases result with
    | success =>
      rcases hdone.progress rfl with h | h
      · exact absurd h (by simp [hk])
      · exact absurd (length_eq_zero_iff.1 (Nat.le_zero.1 h)) hmsgs
    | retry reason =>
      simp only [leaseGuardedAck, hk, hrej, processedAdvanceSeq, lt_irrefl, if_false,
        Option.bind_eq_bind, Option.bind_eq_some_iff] at h
      obtain ⟨db₁, h₁, -, rfl⟩ := h
      obtain ⟨hlock, hfree, hmoved⟩ := recordRetry_moved h₁
      obtain ⟨traces, hdb, ht⟩ := recordTraceRetry_spec db traceIds reason ctx.now
      rw [show persistRejections db ctx msgs [] traceIds = db from rfl, hdb] at hlock hmoved
      exact ⟨hlock, hfree, .inl ⟨rfl, { hmoved with accounts := hmoved.accounts.trans ht }⟩⟩
    | reject reason => exact absurd rfl (hdone.not_reject reason)
  | succ k =>
    -- the last processed message
    have hlt : k < msgs.length := Nat.lt_of_succ_le (hk.symm.le.trans hdone.processed_le)
    have hget := getElem?_eq_getElem hlt
    have hseq := hpos _ (getElem_mem hlt)
    have hadvance : processedAdvanceSeq msgs (k + 1) = msgs[k].seq := by
      simp [processedAdvanceSeq, hget]
    have hall (db₁ : Db) := applyTraceProgress_spec db₁ ctx (traceProgress msgs traceIds
      msgs[k].seq (rejectedSeqs msgs (rejectionsOf turn (msgs.take (k + 1)))))
    cases result with
    | success =>
      simp only [leaseGuardedAck, hrej, hk, persistRejections_spec, hadvance,
        Option.bind_eq_bind, Option.bind_eq_some_iff, Option.pure_def, Option.some.injEq] at h
      obtain ⟨db₁, h₁, h₂⟩ := h
      obtain rfl : _ = db' := congrArg Prod.snd h₂
      obtain ⟨hlock, hfree, hmoved⟩ := advanceCursor_moved hseq.ne' h₁
      exact ⟨hlock, by rwa [(hall db₁).processor],
        .inr ⟨k, _, rfl, hget, hmoved.recounted (hall db₁)⟩⟩
    | retry reason =>
      simp only [leaseGuardedAck, hrej, hk, persistRejections_spec, hadvance, if_pos hseq,
        Option.bind_eq_bind, Option.bind_eq_some_iff] at h
      obtain ⟨db₁, h₁, -, rfl⟩ := h
      obtain ⟨hlock, hfree, hmoved⟩ := advanceCursor_moved hseq.ne' h₁
      have hboth := (hall db₁).trans
        (recordTraceRetry_spec _ (tracesBeyond msgs traceIds msgs[k].seq) reason ctx.now)
      exact ⟨hlock, by rwa [hboth.processor], .inr ⟨k, _, rfl, hget, hmoved.recounted hboth⟩⟩
    | reject reason => exact absurd rfl (hdone.not_reject reason)

end Gears.Outbox
