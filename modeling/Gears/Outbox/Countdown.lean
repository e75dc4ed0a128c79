import Gears.Lib.Tally
import Gears.Outbox.Statements

/-!
# The outbox: counting traces down

What the trace statements of an ack do to the account of each trace: its pending messages and its
failures.  The other columns of a trace row do not take part.

* `Account` : the counted columns of a trace row.
* `applyTraceProgress_spec`, `recordTraceRetry_spec` : the statements, seen by the accounts.
* `tally_traceProgress` : the countdown of a trace counts its messages in the acked prefix.
* `Account.countDown_foldl` : a countdown that fits the account is made in full.
-/

namespace Gears.Outbox

open List

/-- The counted columns of a trace row. -/
structure Account where
  trace : String
  pending : ℤ
  failures : ℤ
  deriving DecidableEq, Repr

/-- The account a trace row keeps. -/
def TraceRow.account (row : TraceRow) : Account := ⟨row.trace, row.pending, row.failures⟩

namespace Account

/-- One countdown, as an account sees it. -/
def countDown (account : Account) (countdown : TraceCountdown) : Account :=
  if account.trace = countdown.trace ∧ 0 < account.pending then
    ⟨account.trace, account.pending - countdown.terminal, account.failures + countdown.failures⟩
  else account

/-- The messages a list of countdowns takes off a trace. -/
def terminal (trace : String) (progress : List TraceCountdown) : ℕ :=
  progress.tally (fun c => c.trace = trace) TraceCountdown.terminal

/-- The failures a list of countdowns adds to a trace. -/
def failed (trace : String) (progress : List TraceCountdown) : ℕ :=
  progress.tally (fun c => c.trace = trace) TraceCountdown.failures

/-- **A countdown that fits the account is made in full**, even though each step of it asks for
something pending. -/
theorem countDown_foldl {progress : List TraceCountdown} {account : Account}
    (hpos : ∀ c ∈ progress, 0 < c.terminal)
    (hfit : (terminal account.trace progress : ℤ) ≤ account.pending) :
    progress.foldl countDown account =
      ⟨account.trace, account.pending - terminal account.trace progress,
        account.failures + failed account.trace progress⟩ := by
  induction progress generalizing account with
  | nil => simp [terminal, failed]
  | cons c progress ih =>
    have hc := hpos c mem_cons_self
    simp only [terminal, List.tally_cons, decide_eq_true_eq] at hfit
    rw [foldl_cons, countDown]
    by_cases htrace : account.trace = c.trace
    · rw [if_pos htrace.symm] at hfit
      rw [if_pos ⟨htrace, by omega⟩, ih (fun c hc => hpos c (mem_cons_of_mem _ hc))]
      · simp [terminal, failed, htrace]
        omega
      · simp only [terminal]
        omega
    · have hne : c.trace ≠ account.trace := fun h => htrace h.symm
      rw [if_neg hne, Nat.zero_add] at hfit
      rw [if_neg fun h => htrace h.1, ih (fun c hc => hpos c (mem_cons_of_mem _ hc)) hfit]
      simp [terminal, failed, hne]

end Account

/-! ### The statements -/

/-- Only the trace table differs, and there only what the accounts say. -/
def Db.Recounted (db db' : Db) (f : Account → Account) : Prop :=
  ∃ traces, db' = { db with traces } ∧
    traces.map TraceRow.account = db.traces.map fun row => f row.account

theorem Db.Recounted.trans {db₁ db₂ db₃ : Db} {f g : Account → Account}
    (h : db₁.Recounted db₂ f) (h' : db₂.Recounted db₃ g) : db₁.Recounted db₃ (g ∘ f) := by
  obtain ⟨traces, rfl, ht⟩ := h
  obtain ⟨traces', rfl, ht'⟩ := h'
  refine ⟨traces', rfl, ht'.trans ?_⟩
  calc (traces.map fun row => g row.account) = (traces.map TraceRow.account).map g := by simp
    _ = db₁.traces.map fun row => (g ∘ f) row.account := by simp [ht]

theorem Db.Recounted.processor {db db' : Db} {f : Account → Account} (h : db.Recounted db' f) :
    db'.processor = db.processor := by
  obtain ⟨traces, rfl, -⟩ := h
  rfl

theorem Db.recounted_id {db : Db} {f : TraceRow → TraceRow}
    (hf : ∀ row, (f row).account = row.account) :
    db.Recounted { db with traces := db.traces.map f } id :=
  ⟨_, rfl, by simp [hf]⟩

theorem execTraceAdvance_recounted (db : Db) (ctx : ProcessContext) (c : TraceCountdown) :
    db.Recounted (execTraceAdvance db ctx c).2 fun account => account.countDown c := by
  have hrow : ∀ row : TraceRow, (if row.advances c.trace then row.advance c ctx.now
      else row).account = row.account.countDown c := by
    intro row
    by_cases h : row.trace = c.trace ∧ 0 < row.pending
    · simp [TraceRow.advances, TraceRow.account, Account.countDown, TraceRow.advance, h]
    · simp [TraceRow.advances, TraceRow.account, Account.countDown, h]
  refine ⟨db.traces.map fun row =>
    if row.advances c.trace then row.advance c ctx.now else row, ?_, by simp [hrow]⟩
  rw [execTraceAdvance]
  split
  · rfl
  · split
    · split <;> rfl
    · rfl

theorem execClaimTraceMail_recounted (db : Db) (ctx : ProcessContext) (trace : String) :
    db.Recounted (execClaimTraceMail db ctx trace).2 id := by
  refine Db.recounted_id fun row => ?_
  split <;> rfl

theorem advanceTrace_recounted (ctx : ProcessContext) (acc : List TraceOutcome × Db)
    (c : TraceCountdown) :
    acc.2.Recounted (advanceTrace ctx acc c).2 fun account => account.countDown c := by
  have hadvance := execTraceAdvance_recounted acc.2 ctx c
  rw [advanceTrace]
  split
  · rename_i h
    rwa [h] at hadvance
  · rename_i h
    rwa [h] at hadvance
  · rename_i db₁ _ _ h
    rw [h] at hadvance
    have hclaim := execClaimTraceMail_recounted db₁ ctx c.trace
    split
    · rename_i h'
      rw [h'] at hclaim
      exact hadvance.trans hclaim
    · rename_i h'
      rw [h'] at hclaim
      exact hadvance.trans hclaim

theorem applyTraceProgress_spec (db : Db) (ctx : ProcessContext) (progress : List TraceCountdown) :
    db.Recounted (applyTraceProgress db ctx progress).2 fun account =>
      progress.foldl Account.countDown account := by
  have hfold : ∀ (progress : List TraceCountdown) (acc : List TraceOutcome × Db),
      acc.2.Recounted (progress.foldl (advanceTrace ctx) acc).2 fun account =>
        progress.foldl Account.countDown account := by
    intro progress
    induction progress with
    | nil => exact fun acc => ⟨acc.2.traces, rfl, rfl⟩
    | cons c progress ih => exact fun acc => (advanceTrace_recounted ctx acc c).trans (ih _)
  exact hfold progress ([], db)

theorem recordTraceRetry_spec (db : Db) (traceIds : TraceIds) (reason : String) (now : ℤ) :
    db.Recounted (recordTraceRetry db traceIds reason now) id := by
  have hfold : ∀ (traces : List String) (db : Db),
      db.Recounted (traces.foldl (traceRetry · reason now) db) id := by
    intro traces
    induction traces with
    | nil => exact fun db => ⟨db.traces, rfl, rfl⟩
    | cons trace traces ih =>
      intro db
      have hone : db.Recounted (traceRetry db reason now trace) id := by
        refine Db.recounted_id fun row => ?_
        split <;> rfl
      exact hone.trans (ih _)
  exact hfold _ db

theorem tally_countInto (trace t : String) (failed : Bool) (entries : List TraceCountdown) :
    Account.terminal t (countInto trace failed entries) =
        Account.terminal t entries + (if trace = t then 1 else 0) ∧
      Account.failed t (countInto trace failed entries) =
        Account.failed t entries + (if trace = t ∧ failed then 1 else 0) := by
  induction entries with
  | nil => cases failed <;> simp [countInto, Account.terminal, Account.failed]
  | cons entry entries ih =>
    rw [countInto]
    simp only [Account.terminal, Account.failed] at ih ⊢
    split
    · rename_i h
      subst h
      by_cases ht : entry.trace = t <;> cases failed <;> simp [ht] <;> omega
    · simp only [List.tally_cons]
      omega

theorem terminal_pos_countInto {trace : String} {failed : Bool} {entries : List TraceCountdown}
    (h : ∀ c ∈ entries, 0 < c.terminal) : ∀ c ∈ countInto trace failed entries, 0 < c.terminal := by
  induction entries with
  | nil => simp [countInto]
  | cons entry entries ih =>
    obtain ⟨hentry, hrest⟩ := forall_mem_cons.1 h
    rw [countInto]
    split
    · exact forall_mem_cons.2 ⟨Nat.succ_pos _, hrest⟩
    · exact forall_mem_cons.2 ⟨hentry, ih hrest⟩

/-- One message of the batch, counted for its trace. -/
def countMessage (traceIds : TraceIds) (failed : List ℤ) (entries : List TraceCountdown)
    (msg : OutboxMessage) : List TraceCountdown :=
  match traceIds.lookup msg.seq with
  | some trace => countInto trace (failed.contains msg.seq) entries
  | none => entries

/-- **The countdown of a trace counts its messages in the acked prefix**, and as failures those
among them that failed. -/
theorem tally_traceProgress (msgs : List OutboxMessage) (traceIds : TraceIds) (uptoSeq : ℤ)
    (failed : List ℤ) (t : String) : let acked := msgs.filter fun m => m.seq ≤ uptoSeq
    let progress := traceProgress msgs traceIds uptoSeq failed
    Account.terminal t progress = acked.countP (fun m => traceIds.lookup m.seq = some t) ∧
      Account.failed t progress =
        acked.countP (fun m => traceIds.lookup m.seq = some t ∧ m.seq ∈ failed) ∧
      ∀ c ∈ progress, 0 < c.terminal := by
  have hfold : ∀ (acked : List OutboxMessage) (entries : List TraceCountdown),
      (∀ c ∈ entries, 0 < c.terminal) →
      let counted := acked.foldl (countMessage traceIds failed) entries
      Account.terminal t counted = Account.terminal t entries +
          acked.countP (fun m => traceIds.lookup m.seq = some t) ∧
        Account.failed t counted = Account.failed t entries +
          acked.countP (fun m => traceIds.lookup m.seq = some t ∧ m.seq ∈ failed) ∧
        ∀ c ∈ counted, 0 < c.terminal := by
    intro acked
    induction acked with
    | nil => simp
    | cons msg acked ih =>
      intro entries hpos
      simp only [foldl_cons, countP_cons, countMessage]
      cases hlookup : traceIds.lookup msg.seq with
      | none => simpa [hlookup] using ih entries hpos
      | some trace =>
        obtain ⟨hterm, hfail⟩ := tally_countInto trace t (failed.contains msg.seq) entries
        obtain ⟨h₁, h₂, h₃⟩ := ih _ (terminal_pos_countInto hpos)
        refine ⟨h₁.trans ?_, h₂.trans ?_, h₃⟩
        · simp only [Option.some.injEq, decide_eq_true_eq]
          omega
        · simp only [hfail, Option.some.injEq, decide_eq_true_eq, contains_iff_mem]
          omega
  obtain ⟨h₁, h₂, h₃⟩ := hfold (msgs.filter fun m => m.seq ≤ uptoSeq) [] (by simp)
  simp only [Account.terminal, Account.failed, List.tally_nil, Nat.zero_add] at h₁ h₂
  refine ⟨?_, ?_, fun c hc => h₃ c (List.mem_sortByKey.1 hc)⟩
  · exact (List.tally_perm (List.sortByKey_perm _ _)).trans h₁
  · exact (List.tally_perm (List.sortByKey_perm _ _)).trans h₂

end Gears.Outbox
