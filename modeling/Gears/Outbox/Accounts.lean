import Gears.Outbox.Acks
import Gears.Outbox.Passes

/-!
# The outbox: deliveries and traces stay accounted for

However the passes of the workers interleave, and wherever leases run out, handlers fail or are
dropped: a cursor only moves over messages that were settled in the pass that moves it.

* `Accounted` : the accounts of a system balance.
* `Sound` : what every step keeps, with the fence that ties a lease to the cursor it was taken at.
* `Sound.quiet`, `Sound.committed` : steps that move no cursor, and acks that do.
-/

namespace Gears.Outbox

open List

variable {passes : String → ℤ → Option Pass}

/-! ### The accounts -/

/-- The cursor of a partition. -/
def Db.cursor (db : Db) (partitionId : ℤ) : ℤ := (db.processor partitionId).processedSeq

/-- The messages of a trace beyond the cursor of a partition. -/
def Db.beyond (db : Db) (trace : String) (partitionId : ℤ) : ℕ :=
  (db.outgoing partitionId).countP fun row =>
    db.cursor partitionId < row.seq ∧ row.body.trace = some trace

/-- The messages of a trace beyond the cursors of their partitions. -/
def Db.outstanding (db : Db) (trace : String) : ℕ := ∑ p ∈ db.partitions, db.beyond trace p

/-- The dead letters of a trace. -/
def Db.lettersOf (db : Db) (trace : String) : ℕ :=
  db.deadLetters.countP fun letter => letter.trace = some trace

/-- The messages that were rejected in the pass and that its ack moved the cursor over. -/
def Commit.deadLetters (commit : Commit) : List DeadLetter :=
  (commit.msgs.filter fun msg => msg.seq ≤ commit.upto).filterMap
    (deadLetterOf commit.turn commit.partitionId commit.traceIds)

/-- The ack moved the cursor over the message, and the handler had settled it in that pass. -/
def Commit.Settled (commit : Commit) (row : OutgoingRow) : Prop :=
  commit.start < row.seq ∧ row.seq ≤ commit.upto ∧
    ∃ attempts, row.message commit.partitionId attempts ∈ commit.msgs ∧
      (commit.turn (row.message commit.partitionId attempts)).Settles

/-- The accounts of a system balance. -/
structure Accounted (s : System) : Prop where
  /-- every message behind a cursor was settled in the pass that moved the cursor over it -/
  settled : ∀ p, ∀ row ∈ s.db.outgoing p, row.seq ≤ s.db.cursor p →
    ∃ commit ∈ s.commits, commit.partitionId = p ∧ commit.Settled row
  /-- no two acks move a cursor over the same message -/
  once : s.commits.Pairwise fun c d => c.partitionId = d.partitionId → c.upto ≤ d.start
  /-- the dead letters are the messages rejected in those passes -/
  letters : s.db.deadLetters = s.commits.flatMap Commit.deadLetters
  /-- no message has two dead letters -/
  distinct : s.db.deadLetters.Pairwise fun a b => a.partitionId = b.partitionId → a.seq ≠ b.seq
  /-- every trace counts the messages it waits for and those it lost -/
  traces : ∀ row ∈ s.db.traces,
    row.pending = s.db.outstanding row.trace ∧ row.failures = s.db.lettersOf row.trace

/-- A system before its first pass: every message is beyond its cursor, in ascending order, and
every trace waits for all of its messages. -/
structure Fresh (s : System) : Prop where
  passes : ∀ worker p, s.passes worker p = none
  commits : s.commits = []
  letters : s.db.deadLetters = []
  ascending : ∀ p, (s.db.outgoing p).Pairwise fun a b => a.seq < b.seq
  cursor_nonneg : ∀ p, 0 ≤ s.db.cursor p
  beyond : ∀ p, ∀ row ∈ s.db.outgoing p, s.db.cursor p < row.seq
  traces : ∀ row ∈ s.db.traces, row.failures = 0 ∧
    row.pending = ∑ p ∈ s.db.partitions,
      ((s.db.outgoing p).countP fun r => r.body.trace = some row.trace : ℕ)

theorem lookup_traceIdsOf {rows : List OutgoingRow} (hrows : rows.Pairwise fun a b => a.seq < b.seq)
    {row : OutgoingRow} (hrow : row ∈ rows) :
    (traceIdsOf rows).lookup row.seq = row.body.trace := by
  induction rows with
  | nil => cases hrow
  | cons r rows ih =>
    obtain ⟨hr, hrows⟩ := pairwise_cons.1 hrows
    have hcons : traceIdsOf (r :: rows) =
        (r.body.trace.map fun trace => (r.seq, trace)).toList ++ traceIdsOf rows := by
      cases h : r.body.trace <;> simp [traceIdsOf, h]
    rcases mem_cons.1 hrow with rfl | hrow
    · -- a row without a trace is not found further on either
      cases h : row.body.trace with
      | some trace => simp [hcons, h]
      | none =>
        rw [hcons, h, Option.map_none, Option.toList_none, nil_append, List.lookup_eq_none_iff]
        intro entry hentry
        simp only [traceIdsOf, mem_filterMap, Option.map_eq_some_iff] at hentry
        obtain ⟨r, hmem, -, -, rfl⟩ := hentry
        simpa using (hr r hmem).ne
    · have hne : (row.seq == r.seq) = false := by simpa using (hr row hrow).ne'
      rw [hcons, ← ih hrows hrow]
      cases r.body.trace <;> simp [lookup_cons, hne]

/-- **The processed prefix of a pass is what lies between two cursors.** -/
theorem readMessages_prefix {db : Db} {p base attempts : ℤ} {n k : ℕ} {last : OutboxMessage}
    (hasc : (db.outgoing p).Pairwise fun a b => a.seq < b.seq)
    (hlast : (readMessages db p base attempts n).1[k]? = some last) :
    let msgs := (readMessages db p base attempts n).1
    let acked := (db.outgoing p).filter fun row => base < row.seq ∧ row.seq ≤ last.seq
    base < last.seq ∧ msgs.take (k + 1) = acked.map (·.message p attempts) ∧
      (msgs.filter fun m => m.seq ≤ last.seq) = msgs.take (k + 1) ∧
      ∀ row ∈ acked, (readMessages db p base attempts n).2.lookup row.seq = row.body.trace := by
  intro msgs acked
  let rest := (db.outgoing p).filter fun row => base < row.seq
  have hrest : rest.Pairwise fun a b => a.seq < b.seq := hasc.filter _
  have hread : (rest.take n).Pairwise fun a b => a.seq < b.seq :=
    hrest.sublist (take_sublist n rest)
  have hmsgs : msgs = (rest.take n).map (·.message p attempts) := rfl
  -- the last processed row, in the read rows and in all rows beyond the cursor
  obtain ⟨r, hr, rfl⟩ : ∃ r, (rest.take n)[k]? = some r ∧ r.message p attempts = last := by
    have hlast : ((rest.take n).map (·.message p attempts))[k]? = some last := hlast
    rwa [List.getElem?_map, Option.map_eq_some_iff] at hlast
  have hk : k < n := by
    have hlt := (List.getElem?_eq_some_iff.1 hr).1
    rw [length_take] at hlt
    omega
  have hr' : rest[k]? = some r := by rwa [getElem?_take_of_lt hk] at hr
  have hall : (rest.filter fun row => row.seq ≤ r.seq) = rest.take (k + 1) :=
    List.filter_key_le hrest hr'
  have hread : ((rest.take n).filter fun row => row.seq ≤ r.seq) = (rest.take n).take (k + 1) :=
    List.filter_key_le hread hr
  have hacked : acked = rest.take (k + 1) := by
    rw [← hall, filter_filter]
    exact filter_congr fun row _ => by simp [OutgoingRow.message, and_comm]
  have htake : (rest.take n).take (k + 1) = acked := by
    rw [take_take, Nat.min_eq_left hk, hacked]
  refine ⟨?_, ?_, ?_, fun row hrow => ?_⟩
  · have hmem := mem_of_getElem? hr'
    simpa [OutgoingRow.message] using (mem_filter.1 hmem).2
  · rw [hmsgs, ← map_take, htake]
  · rw [hmsgs, ← map_take, ← hread, filter_map]
    rfl
  · rw [← htake] at hrow
    exact lookup_traceIdsOf (hrest.sublist (take_sublist n rest))
      ((take_sublist (k + 1) _).subset hrow)

/-- A pass under way: it read the rows beyond the cursor it started from, and as long as it holds
the lease that is the cursor of the partition. -/
structure PassOk (db : Db) (worker : String) (p : ℤ) (pass : Pass) : Prop where
  known : p ∈ db.partitions
  read : ∃ attempts n, readMessages db p pass.base attempts n = (pass.msgs, pass.traceIds)
  fenced : (db.processor p).lockedBy = some worker → pass.base = db.cursor p
  nonempty : pass.phase ≠ .releasing → pass.msgs ≠ []
  handled : ∀ turn result batch, pass.phase = .acking turn result batch →
    Handled turn pass.msgs 0 (result, batch)

/-- What every step keeps. -/
structure Sound (s : System) : Prop extends Accounted s where
  ascending : ∀ p, (s.db.outgoing p).Pairwise fun a b => a.seq < b.seq
  positive : ∀ p, ∀ row ∈ s.db.outgoing p, 0 < row.seq
  commits_le : ∀ commit ∈ s.commits, commit.upto ≤ s.db.cursor commit.partitionId
  letters_le : ∀ letter ∈ s.db.deadLetters, letter.seq ≤ s.db.cursor letter.partitionId
  passes : ∀ worker p pass, s.passes worker p = some pass → PassOk s.db worker p pass

section

variable {db db' : Db} {p upto : ℤ} {letters : List DeadLetter} {recount : Account → Account}

theorem Db.Moved.cursor_of_ne (hm : db.Moved db' p upto letters recount) {q : ℤ} (hq : q ≠ p) :
    db'.cursor q = db.cursor q := by
  rw [Db.cursor, hm.others q hq, Db.cursor]

theorem Db.Moved.cursor_le (hm : db.Moved db' p upto letters recount) (hle : db.cursor p ≤ upto)
    (q : ℤ) : db.cursor q ≤ db'.cursor q := by
  by_cases hq : q = p
  · subst hq
    exact hle.trans_eq hm.cursor.symm
  · exact (hm.cursor_of_ne hq).ge

/-- The passes of the other workers, seen from behind a step that took the lease or gave it back. -/
theorem PassOk.moved {worker : String} {q : ℤ} {pass : Pass} (h : PassOk db worker q pass)
    (hm : db.Moved db' p upto letters recount)
    (hlock : q = p → (db'.processor p).lockedBy = some worker → db'.processor p = db.processor p) :
    PassOk db' worker q pass := by
  refine ⟨hm.partitions ▸ h.known, ?_, fun hw => ?_, h.nonempty, h.handled⟩
  · obtain ⟨attempts, n, hread⟩ := h.read
    exact ⟨attempts, n, by rw [← hread, readMessages, readMessages, Db.readOutgoingBatch,
      Db.readOutgoingBatch, hm.outgoing]⟩
  · have hsame : db'.processor q = db.processor q := by
      by_cases hq : q = p
      · subst hq
        exact hlock rfl hw
      · exact hm.others q hq
    rw [Db.cursor, hsame]
    exact h.fenced (hsame ▸ hw)

theorem Sound.quiet {s : System} (h : Sound s) (hm : s.db.Moved db' p (s.db.cursor p) [] id)
    (hpasses : ∀ worker q pass, passes worker q = some pass → PassOk db' worker q pass) :
    Sound ⟨db', passes, s.commits⟩ := by
  have hcursor : ∀ q, db'.cursor q = s.db.cursor q := by
    intro q
    by_cases hq : q = p
    · subst hq
      exact hm.cursor
    · exact hm.cursor_of_ne hq
  have hletters : db'.deadLetters = s.db.deadLetters := by simpa using hm.letters
  refine ⟨⟨?_, h.once, hletters.trans h.letters, hletters ▸ h.distinct, fun row hrow => ?_⟩,
    hm.outgoing ▸ h.ascending, hm.outgoing ▸ h.positive, ?_, ?_, hpasses⟩
  · intro q row hrow hle
    exact h.settled q row (hm.outgoing ▸ hrow) (hcursor q ▸ hle)
  · -- the accounts are the same, and so is what they are compared with
    have hmem : row.account ∈ s.db.traces.map TraceRow.account :=
      hm.accounts ▸ mem_map_of_mem hrow
    obtain ⟨row₀, hrow₀, heq⟩ := mem_map.1 hmem
    obtain ⟨htrace, hpending, hfailures⟩ := Account.mk.injEq .. ▸ heq
    obtain ⟨h₁, h₂⟩ := h.traces row₀ hrow₀
    refine ⟨?_, ?_⟩
    · rw [← hpending, h₁, ← htrace]
      simp only [Db.outstanding, Db.beyond, hm.partitions, hm.outgoing, hcursor]
    · rw [← hfailures, h₂, ← htrace, Db.lettersOf, Db.lettersOf, hletters]
  · intro commit hcommit
    exact (h.commits_le commit hcommit).trans_eq (hcursor _).symm
  · intro letter hletter
    exact (h.letters_le letter (hletters ▸ hletter)).trans_eq (hcursor _).symm

theorem Db.Moved.outstanding_eq (hm : db.Moved db' p upto letters recount)
    (hp : p ∈ db.partitions) (hle : db.cursor p ≤ upto) (trace : String) : db.outstanding trace =
      ((db.outgoing p).filter fun row => db.cursor p < row.seq ∧ row.seq ≤ upto).countP
        (fun row => row.body.trace = some trace) + db'.outstanding trace := by
  have hcursor : db'.cursor p = upto := hm.cursor
  -- in the partition itself the rows beyond the old cursor split at the new one
  have hhere : db.beyond trace p =
      ((db.outgoing p).filter fun row => db.cursor p < row.seq ∧ row.seq ≤ upto).countP
        (fun row => row.body.trace = some trace) + db'.beyond trace p := by
    rw [Db.beyond, countP_eq_countP_filter_add _ _ fun row => row.seq ≤ upto,
      countP_filter, countP_filter, countP_filter, Db.beyond, hm.outgoing, hcursor]
    congr 1
    · refine countP_congr fun row _ => ?_
      simp only [Bool.and_eq_true, decide_eq_true_eq]
      tauto
    · refine countP_congr fun row _ => ?_
      have hlt : upto < row.seq → db.cursor p < row.seq := hle.trans_lt
      simp only [Bool.and_eq_true, decide_eq_true_eq, Bool.not_eq_true',
        decide_eq_false_iff_not, not_le]
      tauto
  have hothers : ∀ q ∈ db.partitions.erase p, db.beyond trace q = db'.beyond trace q := by
    intro q hq
    rw [Db.beyond, Db.beyond, hm.outgoing, hm.cursor_of_ne (Finset.ne_of_mem_erase hq)]
  rw [Db.outstanding, Db.outstanding, hm.partitions, ← Finset.add_sum_erase _ _ hp,
    ← Finset.add_sum_erase _ _ hp, Finset.sum_congr rfl hothers, hhere, Nat.add_assoc]

/-- The pass read its messages, and `k + 1` of them are acked up to `last`. -/
structure Prefix (db : Db) (p : ℤ) (pass : Pass) (turn : OutboxMessage → Turn) (k : ℕ)
    (last : OutboxMessage) (attempts : ℤ) (acked : List OutgoingRow) : Prop where
  acked_eq : acked = (db.outgoing p).filter fun row => pass.base < row.seq ∧ row.seq ≤ last.seq
  base_lt : pass.base < last.seq
  taken : pass.msgs.take (k + 1) = acked.map (·.message p attempts)
  upto : (pass.msgs.filter fun m => m.seq ≤ last.seq) = acked.map (·.message p attempts)
  ascending : acked.Pairwise fun a b => a.seq < b.seq
  lookup : ∀ row ∈ acked, pass.traceIds.lookup row.seq = row.body.trace
  settled : ∀ row ∈ acked, (turn (row.message p attempts)).Settles

variable {pass : Pass} {turn : OutboxMessage → Turn} {k : ℕ} {last : OutboxMessage}
  {attempts : ℤ} {acked : List OutgoingRow}

namespace Prefix

variable (h : Prefix db p pass turn k last attempts acked)
include h

theorem letters_eq : (pass.msgs.take (k + 1)).filterMap (deadLetterOf turn p pass.traceIds) =
      acked.filterMap fun row => (turn (row.message p attempts)).rejection.map fun reason =>
        (row.message p attempts).deadLetter p reason row.body.trace := by
  rw [h.taken, filterMap_map]
  refine filterMap_congr fun row hrow => ?_
  simp only [Function.comp_apply, deadLetterOf]
  rw [show (row.message p attempts).seq = row.seq from rfl, h.lookup row hrow]

theorem terminal_eq (rejected : List ℤ) (trace : String) :
    Account.terminal trace (traceProgress pass.msgs pass.traceIds last.seq rejected) =
      acked.countP fun row => row.body.trace = some trace := by
  rw [(tally_traceProgress pass.msgs pass.traceIds last.seq rejected trace).1, h.upto, countP_map]
  refine countP_congr fun row hrow => ?_
  have hlookup : pass.traceIds.lookup (row.message p attempts).seq = row.body.trace :=
    h.lookup row hrow
  simp [hlookup]

theorem failed_eq (trace : String) :
    Account.failed trace (traceProgress pass.msgs pass.traceIds last.seq
        (rejectedSeqs pass.msgs (rejectionsOf turn (pass.msgs.take (k + 1))))) =
      ((pass.msgs.take (k + 1)).filterMap (deadLetterOf turn p pass.traceIds)).countP
        fun letter => letter.trace = some trace := by
  rw [(tally_traceProgress pass.msgs pass.traceIds last.seq _ trace).2.1, h.upto,
    countP_map, h.letters_eq, countP_filterMap]
  refine countP_congr fun row hrow => ?_
  have hlookup : pass.traceIds.lookup (row.message p attempts).seq = row.body.trace :=
    h.lookup row hrow
  -- sequence numbers are distinct, so the number tells whether this very message was rejected
  have hmem : (row.message p attempts).seq ∈
      rejectedSeqs pass.msgs (rejectionsOf turn (pass.msgs.take (k + 1))) ↔
        (turn (row.message p attempts)).rejection.isSome := by
    rw [mem_rejectedSeqs, h.taken]
    constructor
    · rintro ⟨msg, hmsg, hrej, hseq⟩
      obtain ⟨row', hrow', rfl⟩ := mem_map.1 hmsg
      have hnodup : (acked.map OutgoingRow.seq).Nodup :=
        pairwise_map.2 (h.ascending.imp fun hlt => hlt.ne)
      have hsame : row' = row := inj_on_of_nodup_map hnodup hrow' hrow hseq
      rwa [hsame] at hrej
    · intro hrej
      exact ⟨_, mem_map_of_mem hrow, hrej, rfl⟩
  simp only [Function.comp_apply, hlookup, hmem]
  cases (turn (row.message p attempts)).rejection <;> simp [OutboxMessage.deadLetter]

end Prefix

section Committed

variable {s : System} (h : Sound s) (hp : p ∈ s.db.partitions)
  (hbase : pass.base = s.db.cursor p) (hpre : Prefix s.db p pass turn k last attempts acked)
  (hm : s.db.Moved db' p last.seq
    ((pass.msgs.take (k + 1)).filterMap (deadLetterOf turn p pass.traceIds))
    (recountUpto pass.msgs pass.traceIds last.seq
      (rejectedSeqs pass.msgs (rejectionsOf turn (pass.msgs.take (k + 1))))))

include h hp hbase hpre hm

theorem Prefix.traces_eq : ∀ row ∈ db'.traces,
    row.pending = db'.outstanding row.trace ∧ row.failures = db'.lettersOf row.trace := by
  intro row hrow
  have hmem := mem_map_of_mem (f := TraceRow.account) hrow
  rw [hm.accounts] at hmem
  obtain ⟨row₀, hrow₀, heq⟩ := mem_map.1 hmem
  obtain ⟨hpending, hfailures⟩ := h.traces row₀ hrow₀
  have hout := hm.outstanding_eq hp (hbase ▸ hpre.base_lt.le) row₀.trace
  rw [← hbase, ← hpre.acked_eq, ← hpre.terminal_eq
    (rejectedSeqs pass.msgs (rejectionsOf turn (pass.msgs.take (k + 1))))] at hout
  -- the countdown fits the account, so it is made in full
  rw [recountUpto, Account.countDown_foldl (tally_traceProgress _ _ _ _ row₀.trace).2.2] at heq
  · obtain ⟨htrace, hpending', hfailures'⟩ := Account.mk.injEq .. ▸ heq
    simp only [TraceRow.account] at htrace hpending' hfailures'
    rw [← htrace]
    refine ⟨?_, ?_⟩
    · omega
    · rw [← hfailures', hfailures, hpre.failed_eq, Db.lettersOf, Db.lettersOf, hm.letters,
        countP_append, Int.natCast_add]
  · simp only [TraceRow.account]
    omega

/-- **An ack that moves the cursor keeps the accounts.** -/
theorem Sound.committed
    (hpasses : ∀ worker q pass, passes worker q = some pass → PassOk db' worker q pass) :
    Sound ⟨db', passes, s.commits ++
      [⟨p, s.db.cursor p, last.seq, pass.msgs, pass.traceIds, turn⟩]⟩ := by
  have hcursor : db'.cursor p = last.seq := hm.cursor
  have hmono : ∀ q, s.db.cursor q ≤ db'.cursor q := hm.cursor_le (hbase ▸ hpre.base_lt.le)
  -- a new dead letter is that of an acked row, so it lies between the two cursors
  have hnew : ∀ letter ∈ (pass.msgs.take (k + 1)).filterMap (deadLetterOf turn p pass.traceIds),
      letter.partitionId = p ∧ s.db.cursor p < letter.seq ∧ letter.seq ≤ last.seq := by
    intro letter hletter
    rw [hpre.letters_eq] at hletter
    simp only [mem_filterMap, Option.map_eq_some_iff] at hletter
    obtain ⟨row, hrow, -, -, rfl⟩ := hletter
    rw [hpre.acked_eq] at hrow
    have hrange := (mem_filter.1 hrow).2
    rw [decide_eq_true_eq, hbase] at hrange
    exact ⟨rfl, hrange⟩
  refine ⟨⟨fun q row hrow hle => ?_, ?_, ?_, ?_, hpre.traces_eq h hp hbase hm⟩,
    hm.outgoing ▸ h.ascending, hm.outgoing ▸ h.positive, ?_, ?_, hpasses⟩
  · -- behind the old cursor nothing changes; what lies between the cursors was settled just now
    replace hrow : row ∈ s.db.outgoing q := hm.outgoing ▸ hrow
    by_cases hold : row.seq ≤ s.db.cursor q
    · obtain ⟨commit, hcommit, hset⟩ := h.settled q row hrow hold
      exact ⟨commit, mem_append_left _ hcommit, hset⟩
    · obtain rfl : q = p := by
        by_contra hq
        exact hold (hm.cursor_of_ne hq ▸ hle)
      have hle : row.seq ≤ last.seq := hcursor ▸ hle
      have hacked : row ∈ acked := by
        rw [hpre.acked_eq, mem_filter, decide_eq_true_eq, hbase]
        exact ⟨hrow, not_le.1 hold, hle⟩
      refine ⟨_, mem_append_right _ (mem_singleton.2 rfl), rfl, not_le.1 hold, hle,
        attempts, ?_, hpre.settled row hacked⟩
      refine (take_sublist (k + 1) _).subset ?_
      rw [hpre.taken]
      exact mem_map_of_mem hacked
  · refine pairwise_append.2 ⟨h.once, pairwise_singleton _ _, ?_⟩
    intro commit hcommit new hnew hsame
    rw [mem_singleton.1 hnew] at hsame ⊢
    replace hsame : commit.partitionId = p := hsame
    exact hsame ▸ h.commits_le commit hcommit
  · rw [flatMap_append, ← h.letters, hm.letters]
    simp [Commit.deadLetters, hpre.upto, hpre.taken]
  · rw [hm.letters]
    refine pairwise_append.2 ⟨h.distinct, ?_, ?_⟩
    · rw [hpre.letters_eq, pairwise_filterMap]
      refine hpre.ascending.imp fun {a b} hlt x hx y hy _ => ?_
      obtain ⟨-, -, rfl⟩ := Option.map_eq_some_iff.1 hx
      obtain ⟨-, -, rfl⟩ := Option.map_eq_some_iff.1 hy
      exact hlt.ne
    · intro old hold new hmem hsame
      obtain ⟨hpart, hgt, -⟩ := hnew new hmem
      have hle := h.letters_le old hold
      rw [hsame, hpart] at hle
      exact (hle.trans_lt hgt).ne
  · -- cursors only move forward
    intro commit hcommit
    rcases List.mem_concat_iff.1 hcommit with hcommit | rfl
    · exact (h.commits_le commit hcommit).trans (hmono _)
    · exact hcursor.ge
  · intro letter hletter
    rw [hm.letters] at hletter
    rcases mem_append.1 hletter with hletter | hletter
    · exact (h.letters_le letter hletter).trans (hmono _)
    · obtain ⟨hpart, -, hle⟩ := hnew letter hletter
      rw [hpart]
      exact hle.trans hcursor.ge

end Committed

end

end Gears.Outbox
