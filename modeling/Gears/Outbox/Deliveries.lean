import Gears.Outbox.Accounts

/-!
# The outbox: every run stays accounted for

* `step_advances` : one transaction or handler call of one worker keeps the accounts.
* `deliveries_stay_accounted` : so does every interleaving of passes.
-/

namespace Gears.Outbox

open List

variable {pass : Option Pass}

section

variable {db db' : Db} {ctx : ProcessContext} {worker : String}

theorem acquireLeaseAndRead_spec {leaseSecs base : ℤ} {batchSize : ℕ} {msgs : List OutboxMessage}
    {traceIds : TraceIds}
    (h : acquireLeaseAndRead db worker leaseSecs batchSize ctx =
      some ((base, msgs, traceIds), db')) :
    db.Moved db' ctx.partitionId (db.cursor ctx.partitionId) [] id ∧
      (db'.processor ctx.partitionId).lockedBy = some worker ∧
      ctx.partitionId ∈ db'.partitions ∧ base = db'.cursor ctx.partitionId ∧
      ∃ attempts n, readMessages db' ctx.partitionId base attempts n = (msgs, traceIds) := by
  simp only [acquireLeaseAndRead, leaseAcquire, Option.map_eq_some_iff, Prod.exists,
    Prod.mk.injEq] at h
  obtain ⟨processedSeq, attempts, db₁, hlease, ⟨rfl, hread⟩, rfl⟩ := h
  split at hlease
  · rename_i hfree
    obtain ⟨⟨rfl, rfl⟩, rfl⟩ := hlease
    refine ⟨Db.moved_setProcessor rfl, by simp [Db.setProcessor], hfree.1, ?_, _, _, hread⟩
    simp [Db.setProcessor, Db.cursor]
  · cases hlease

theorem leaseRelease_spec (db : Db) (p : ℤ) (worker : String) :
    db.Moved (leaseRelease db p worker) p (db.cursor p) [] id ∧
      (((leaseRelease db p worker).processor p).lockedBy = none ∨
      leaseRelease db p worker = db) := by
  rw [leaseRelease]
  split
  · exact ⟨Db.moved_setProcessor rfl, .inl (by simp [Db.setProcessor])⟩
  · exact ⟨⟨rfl, rfl, rfl, fun _ _ => rfl, by simp, rfl⟩, .inr rfl⟩

end

/-! ### One step -/

variable {s s' : System} {worker : String} {p : ℤ}

/-- The accounts are kept, and no cursor went back. -/
def Advances (s s' : System) : Prop := Sound s' ∧ ∀ q, s.db.cursor q ≤ s'.db.cursor q

theorem System.setPass_passes (pass : Option Pass) (w : String) (q : ℤ) :
    (s.setPass worker p pass).passes w q = if w = worker ∧ q = p then pass else s.passes w q := by
  by_cases hw : w = worker
  · subst hw
    by_cases hq : q = p
    · subst hq
      simp [System.setPass]
    · simp [System.setPass, hq]
  · simp [System.setPass, hw]

section

variable (h : Sound s)
include h

theorem Sound.passes_setPass {db' : Db} {upto : ℤ} {letters : List DeadLetter}
    {recount : Account → Account} (hm : s.db.Moved db' p upto letters recount)
    (hlock : ∀ w, w ≠ worker → (db'.processor p).lockedBy = some w →
      db'.processor p = s.db.processor p)
    (hpass : ∀ x, pass = some x → PassOk db' worker p x) :
    ∀ w q x, (s.setPass worker p pass).passes w q = some x → PassOk db' w q x := by
  intro w q x hx
  rw [System.setPass_passes] at hx
  split at hx
  · rename_i heq
    rw [heq.1, heq.2]
    exact hpass x hx
  · rename_i hne
    refine (h.passes w q x hx).moved hm fun hq hw => hlock w (fun hww => hne ⟨hww, hq⟩) hw

theorem Sound.setPass (hpass : ∀ x, pass = some x → PassOk s.db worker p x) :
    Advances s (s.setPass worker p pass) := by
  have hm : s.db.Moved s.db p (s.db.cursor p) [] id :=
    ⟨rfl, rfl, rfl, fun _ _ => rfl, by simp, rfl⟩
  exact ⟨h.quiet hm (h.passes_setPass hm (fun _ _ _ => rfl) hpass), fun _ => le_rfl⟩

theorem Sound.acquire (leaseSecs : ℤ) (batchSize : ℕ) (ctx : ProcessContext) :
    Advances s (s.acquire worker leaseSecs batchSize ctx) := by
  rw [System.acquire]
  split
  · exact ⟨h, fun _ => le_rfl⟩
  · rename_i base msgs traceIds db' hacquire
    obtain ⟨hm, hlock, hknown, hbase, hread⟩ := acquireLeaseAndRead_spec hacquire
    refine ⟨h.quiet hm (h.passes_setPass hm ?_ ?_), hm.cursor_le le_rfl⟩
    · -- another worker no longer holds the lease
      intro w hw hlocked
      exact absurd (Option.some.inj (hlock.symm.trans hlocked)).symm hw
    · rintro x ⟨⟩
      refine ⟨hknown, hread, fun _ => hbase, ?_, ?_⟩
      · intro hphase hnil
        exact hphase (by simp [show msgs = [] from hnil])
      · intro turn result batch hphase
        split at hphase <;> cases hphase

theorem Sound.release :
    Advances s ({ s with db := leaseRelease s.db p worker }.setPass worker p none) := by
  obtain ⟨hm, hlock⟩ := leaseRelease_spec s.db p worker
  refine ⟨h.quiet hm (h.passes_setPass hm ?_ nofun), hm.cursor_le le_rfl⟩
  intro w _ hlocked
  rcases hlock with hnone | hsame
  · rw [hnone] at hlocked
    cases hlocked
  · rw [hsame]

theorem Sound.ack (ctx : ProcessContext) {pass : Pass} {turn : OutboxMessage → Turn}
    {result : HandlerResult} {batch : Batch} (hphase : pass.phase = .acking turn result batch)
    (hpass : PassOk s.db worker ctx.partitionId pass) :
    Advances s (s.ack worker ctx pass turn result batch) := by
  rw [System.ack]
  split
  · exact h.setPass nofun
  · rename_i claimed db' hack
    have hmsgs : pass.msgs ≠ [] := hpass.nonempty (by rw [hphase]; nofun)
    have hdone := hpass.handled turn result batch hphase
    obtain ⟨attempts, n, hread⟩ := hpass.read
    obtain ⟨hread₁, hread₂⟩ := Prod.ext_iff.1 hread
    dsimp only at hread₁ hread₂
    have hpos : ∀ msg ∈ pass.msgs, 0 < msg.seq := by
      intro msg hmsg
      rw [← hread₁] at hmsg
      obtain ⟨row, hrow, rfl⟩ := mem_map.1 hmsg
      have hrow := (take_sublist n _).subset hrow
      exact h.positive _ row (mem_filter.1 hrow).1
    obtain ⟨hlock, hfree, hcases⟩ := leaseGuardedAck_spec hmsgs hpos hdone hack
    -- the fence: the pass still holds the lease, so the cursor is where the pass found it
    have hbase := hpass.fenced hlock
    have hnone : ∀ w, w ≠ worker → (db'.processor ctx.partitionId).lockedBy = some w →
        db'.processor ctx.partitionId = s.db.processor ctx.partitionId := by
      intro w _ hw
      rw [hfree] at hw
      cases hw
    rcases hcases with ⟨-, hm⟩ | ⟨k, last, hk, hlast, hm⟩
    · -- nothing was processed, and the history stays as it is
      simp only [if_pos hm.cursor.symm]
      exact ⟨h.quiet hm (h.passes_setPass hm hnone nofun), hm.cursor_le le_rfl⟩
    · -- the acked messages are the rows between the two cursors
      obtain ⟨hlt, htaken, hupto, hlookup⟩ := readMessages_prefix (h.ascending _)
        (by rw [hread₁]; exact hlast)
      rw [hread₁] at htaken hupto
      rw [hread₂] at hlookup
      have hpre : Prefix s.db ctx.partitionId pass turn k last attempts
          ((s.db.outgoing ctx.partitionId).filter fun row =>
            pass.base < row.seq ∧ row.seq ≤ last.seq) := by
        refine ⟨rfl, hlt, htaken, hupto.trans htaken, (h.ascending _).filter _, hlookup, ?_⟩
        intro row hrow
        have hset := hdone.settled
        rw [hk, htaken] at hset
        exact hset _ (mem_map_of_mem hrow)
      have hmoves : (s.db.processor ctx.partitionId).processedSeq ≠
          (db'.processor ctx.partitionId).processedSeq := by
        rw [hm.cursor]
        exact (hbase ▸ hlt).ne
      simp only [if_neg hmoves]
      rw [hm.cursor]
      exact ⟨h.committed hpass.known hbase hpre hm (h.passes_setPass hm hnone nofun),
        hm.cursor_le (hbase ▸ hlt.le)⟩

/-- **One step keeps the accounts**, and moves no cursor back. -/
theorem step_advances {e : Event} (hs : s.step e = .ok s') : Advances s s' := by
  cases e with
  | acquire worker leaseSecs batchSize ctx =>
    simp only [System.step] at hs
    split at hs
    · cases hs
    · cases hs
      exact h.acquire leaseSecs batchSize ctx
  | release worker p =>
    simp only [System.step] at hs
    split at hs
    · cases hs
      exact h.release
    · cases hs
  | handled worker p turn =>
    simp only [System.step] at hs
    split at hs
    · rename_i base msgs traceIds hpass
      cases hs
      -- the pass keeps what it read; the handler's answer is new
      have hok := h.passes worker p _ hpass
      refine h.setPass ?_
      rintro x ⟨⟩
      refine ⟨hok.known, hok.read, hok.fenced, fun _ => hok.nonempty nofun, ?_⟩
      rintro turn' result batch ⟨⟩
      exact LeasedHandler.handle_spec turn msgs
    · cases hs
  | ack worker ctx =>
    simp only [System.step] at hs
    split at hs
    · rename_i hpass
      cases hs
      exact h.ack ctx rfl (h.passes worker ctx.partitionId _ hpass)
    · cases hs
  | abandon worker p =>
    simp only [System.step] at hs
    split at hs
    · cases hs
      exact h.setPass nofun
    · cases hs

end

theorem Fresh.sound (h : Fresh s) : Sound s := by
  have hall : ∀ trace, s.db.outstanding trace = ∑ p ∈ s.db.partitions,
      (s.db.outgoing p).countP fun row => row.body.trace = some trace := by
    intro trace
    refine Finset.sum_congr rfl fun p _ => countP_congr fun row hrow => ?_
    simp [h.beyond p row hrow]
  refine ⟨⟨fun p row hrow hle => absurd (h.beyond p row hrow) (not_lt.2 hle), by simp [h.commits],
    by simp [h.letters, h.commits], by simp [h.letters], fun row hrow => ?_⟩, h.ascending,
    fun p row hrow => (h.cursor_nonneg p).trans_lt (h.beyond p row hrow), by simp [h.commits],
    by simp [h.letters], by simp [h.passes]⟩
  obtain ⟨hfailures, hpending⟩ := h.traces row hrow
  exact ⟨hpending.trans (congrArg _ (hall row.trace).symm),
    by simp [hfailures, Db.lettersOf, h.letters]⟩

/-- **Deliveries stay accounted for.**  In every state that any interleaving of the workers' passes
reaches, every message behind a cursor was settled in the pass that moved the cursor over it, the
dead letters are the messages rejected in those passes, every trace counts what it waits for and
what it lost, and the next step moves no cursor back. -/
theorem deliveries_stay_accounted {events : List Event} (hfresh : Fresh s)
    (hrun : Machine.run System.step s events = .ok s') :
    Accounted s' ∧ ∀ e s'', s'.step e = .ok s'' → ∀ p, s'.db.cursor p ≤ s''.db.cursor p := by
  have hsound : Sound s' :=
    Machine.run_invariant (fun _ _ _ h hs => (step_advances h hs).1) hrun hfresh.sound
  exact ⟨hsound.toAccounted, fun e s'' hs => (step_advances hsound hs).2⟩

/-! ### A sample: a lease that runs out -/

/-- Two messages of one trace. -/
def sampleRows : List OutgoingRow :=
  [⟨1, ⟨[1], "order", 0, some "batch"⟩⟩, ⟨2, ⟨[2], "order", 0, some "batch"⟩⟩]

/-- One partition with two messages, and nobody at work. -/
def sampleSystem : System where
  db :=
    { partitions := {7}
      processor := fun _ => ⟨0, 0, none, none, none⟩
      outgoing := fun p => if p = 7 then sampleRows else []
      deadLetters := []
      traces := [⟨"batch", "app", 2, 2, 0, 0, none, none, none, none⟩]
      vacuumCounter := fun _ => 0 }
  passes := fun _ _ => none
  commits := []

theorem sampleSystem_fresh : Fresh sampleSystem := by
  have hrows : ∀ p, sampleSystem.db.outgoing p = [] ∨ sampleSystem.db.outgoing p = sampleRows := by
    intro p
    by_cases hp : p = 7
    · exact .inr (if_pos hp)
    · exact .inl (if_neg hp)
  refine ⟨fun _ _ => rfl, rfl, rfl, fun p => ?_, fun _ => le_rfl, fun p row hrow => ?_, by decide⟩
  · rcases hrows p with h | h <;> rw [h] <;> decide
  · have hpos : ∀ row ∈ sampleRows, 0 < row.seq := by decide
    rcases hrows p with h | h <;> rw [h] at hrow
    · cases hrow
    · exact hpos row hrow

/-- The context of a transaction at a time. -/
def sampleContext (now : ℤ) : ProcessContext := ⟨.postgres, 7, "app", now⟩

/-- A handler that delivers the first message and rejects the second. -/
def sampleTurn (msg : OutboxMessage) : Turn :=
  .answered (if msg.seq = 1 then .ok else .reject "malformed") false

/-- The lease of the first worker runs out while it works, and a second worker overtakes it. -/
def sampleEvents : List Event :=
  [.acquire "first" 10 5 (sampleContext 0), .acquire "second" 10 5 (sampleContext 20),
    .handled "first" 7 fun _ => .answered .ok false, .handled "second" 7 sampleTurn,
    .ack "second" (sampleContext 21), .ack "first" (sampleContext 22)]

theorem deliveries_stay_accounted_sample :
    ∃ s, Machine.run System.step sampleSystem sampleEvents = .ok s ∧ Accounted s ∧
      s.db.cursor 7 = 2 ∧ s.db.deadLetters.map DeadLetter.seq = [2] ∧
      s.db.traces.map TraceRow.account = [⟨"batch", 0, 1⟩] :=
  Except.exists_ok_of (by decide +kernel)
    fun _ hs h => ⟨(deliveries_stay_accounted sampleSystem_fresh hs).1, h⟩

end Gears.Outbox
