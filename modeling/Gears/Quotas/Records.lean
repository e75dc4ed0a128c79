import Gears.Quotas.Charging

/-!
# Records and rollbacks

* `Recorded` : records under one key are told apart, and a record that a rollback can name has
  its movements in the column the rollback reads.
* `Balanced.withRecords` : the last write turns what is pending into movements.
* `Balanced.rollback` : a rollback takes the movements of its record out of the counters.
-/

namespace Gears.Quotas.Store

open Except List

variable {records : List IdempotencyRecord}

/-- Records under one key are told apart, and those a rollback can name hold their movements. -/
structure Recorded (records : List IdempotencyRecord) : Prop where
  scopes : ((records.filter fun record => !record.deleted).map (·.scope)).Nodup
  reversible : ∀ record ∈ records, record.attribution.isSome → record.entries = record.moved

variable {s s' : Store} {key : RowKey} {row : CounterRow} {now : ℤ} {pend : RowKey → ℤ}
  {record : IdempotencyRecord} {write : IdempotencyWrite} {entries moves : List AppliedEntry}
  {attribution : Option ℕ} {expiresAt : ℤ}

/-! ### Movements -/

theorem moved_eq_tally (s : Store) (key : RowKey) :
    s.moved key = s.records.tally (fun record => record.reversedByKey = none)
      fun record => entriesOn record.moved key := by
  unfold moved
  generalize s.records = records
  induction records with
  | nil => rfl
  | cons record records ih =>
    rw [map_cons, sum_cons, tally_cons, ih, IdempotencyRecord.movedOn]
    simp only [decide_eq_true_eq]

theorem moved_writeRecord
    (h : s.writeRecord write entries moves attribution expiresAt now = .ok s') (k : RowKey) :
    s'.moved k = s.moved k + entriesOn moves k := by
  obtain ⟨-, rfl⟩ := writeRecord_eq_ok h
  rw [moved_eq_tally, moved_eq_tally, tally_append, deleteExpiredAtKey, tally_map]
  congr 1
  refine tally_congr (fun record _ => ?_) fun record _ _ => ?_
  · split <;> rfl
  · split <;> rfl

/-- What selects the record that a rollback marks. -/
def Reversing (scope : IdempotencyScope) (record : IdempotencyRecord) : Prop :=
  record.scope = scope ∧ record.deleted = false ∧ record.reversedByKey = none

instance (scope : IdempotencyScope) : DecidablePred (Reversing scope) :=
  fun _ => inferInstanceAs (Decidable (_ ∧ _ ∧ _))

/-- The live record under a key carries all that a rollback of the key takes out. -/
theorem tally_reversing (hr : Recorded s.records) (hmem : record ∈ s.records)
    (hsel : Reversing record.scope record) (k : RowKey) :
    s.records.tally (fun r => decide (r.reversedByKey = none) && decide (Reversing record.scope r))
      (fun r => entriesOn r.moved k) = entriesOn record.moved k := by
  have hlive : s.records.tally
      (fun r => decide (r.reversedByKey = none) && decide (Reversing record.scope r))
      (fun r => entriesOn r.moved k) = (s.records.filter fun r => !r.deleted).tally
          (fun r => decide (Reversing record.scope r)) fun r => entriesOn r.moved k := by
    -- a record that is selected is not deleted
    rw [tally_filter]
    refine tally_congr (fun r _ => ?_) fun _ _ _ => rfl
    rw [Bool.eq_iff_iff]
    simp only [Bool.and_eq_true, decide_eq_true_eq, Bool.not_eq_true']
    unfold Reversing
    tauto
  rw [hlive]
  refine tally_of_unique hr.scopes ?_ (decide_eq_true hsel) fun r _ hr => ?_
  · exact mem_filter.2 ⟨hmem, by simp [hsel.2.1]⟩
  · exact (of_decide_eq_true hr).1

theorem moved_markReversed (hr : Recorded s.records) (hmem : record ∈ s.records)
    (hsel : Reversing record.scope record) (byKey : String) (k : RowKey) :
    (s.markReversed record.scope byKey).moved k + entriesOn record.moved k = s.moved k := by
  have hmarked : (s.markReversed record.scope byKey).moved k = s.records.tally
      (fun r => decide (r.reversedByKey = none) && !decide (Reversing record.scope r))
      fun r => entriesOn r.moved k := by
    rw [moved_eq_tally, markReversed, tally_map]
    refine tally_congr (fun r _ => ?_) fun r _ _ => ?_
    · by_cases hsel : r.scope = record.scope ∧ r.deleted = false ∧ r.reversedByKey = none
      · rw [if_pos hsel, decide_eq_true (show Reversing record.scope r from hsel)]
        simp
      · rw [if_neg hsel, decide_eq_false (show ¬ Reversing record.scope r from hsel)]
        simp
    · split <;> rfl
  rw [hmarked, moved_eq_tally, add_comm, ← tally_reversing hr hmem hsel k]
  exact (tally_split _).symm

theorem Recorded.reversible_map (hr : Recorded records) {f : IdempotencyRecord → IdempotencyRecord}
    (hf : ∀ r, (f r).attribution = r.attribution ∧ (f r).entries = r.entries ∧
      (f r).moved = r.moved) :
    ∀ record ∈ records.map f, record.attribution.isSome → record.entries = record.moved := by
  intro record hrecord hsome
  obtain ⟨r, hr', rfl⟩ := mem_map.1 hrecord
  obtain ⟨hattribution, hentries, hmoved⟩ := hf r
  rw [hattribution] at hsome
  rw [hentries, hmoved]
  exact hr.reversible r hr' hsome

theorem Recorded.writeRecord (hr : Recorded s.records)
    (hpair : attribution.isSome → entries = moves)
    (h : s.writeRecord write entries moves attribution expiresAt now = .ok s') :
    Recorded s'.records := by
  obtain ⟨hfresh, rfl⟩ := writeRecord_eq_ok h
  constructor
  · rw [filter_append, map_append, nodup_append]
    refine ⟨?_, by simp, ?_⟩
    · -- the live records after a deletion were live before it
      refine hr.scopes.sublist ?_
      simp only [deleteExpiredAtKey, filter_map, map_map]
      have hscope : ((·.scope) ∘ fun record : IdempotencyRecord =>
          if record.scope = write.scope ∧ record.expiresAt ≤ now then
            { record with deleted := true } else record) = (·.scope) := by
        funext record
        simp only [Function.comp_apply]
        split <;> rfl
      rw [hscope]
      refine Sublist.map _ (monotone_filter_right _ fun record hrecord => ?_)
      simp only [Function.comp_apply] at hrecord
      split at hrecord
      · cases hrecord
      · exact hrecord
    · intro scope hscope scope' hscope' heq
      obtain ⟨record, hrecord, rfl⟩ := mem_map.1 hscope
      obtain ⟨hrecord, hlive⟩ := mem_filter.1 hrecord
      have hnew : scope' = write.scope := by simpa using hscope'
      rw [hfresh record hrecord (heq.trans hnew)] at hlive
      cases hlive
  · intro record hrecord hsome
    rcases mem_concat_iff.1 hrecord with hrecord | rfl
    · refine hr.reversible_map (fun r => ?_) record hrecord hsome
      split <;> exact ⟨rfl, rfl, rfl⟩
    · exact hpair hsome

theorem Recorded.markReversed (hr : Recorded s.records) (scope : IdempotencyScope)
    (byKey : String) : Recorded (s.markReversed scope byKey).records := by
  constructor
  · have hmap : ∀ f : IdempotencyRecord → IdempotencyRecord,
        (∀ r, (f r).scope = r.scope ∧ (f r).deleted = r.deleted) →
          ((s.records.map f).filter fun r => !r.deleted).map (·.scope) =
            (s.records.filter fun r => !r.deleted).map (·.scope) := by
      intro f hf
      simp only [filter_map, map_map, Function.comp_def, hf]
    rw [Store.markReversed, hmap]
    · exact hr.scopes
    · intro r
      split <;> exact ⟨rfl, rfl⟩
  · refine hr.reversible_map fun r => ?_
    split <;> exact ⟨rfl, rfl, rfl⟩

/-- **The last write of a transaction** turns what is pending into movements. -/
theorem Balanced.withRecords (h : s.Balanced pend)
    (hmoved : ∀ k, (({ s with records } : Store).moved k : ℤ) = s.moved k + pend k) :
    ({ s with records } : Store).Balanced 0 := by
  refine ⟨h.sheltered.withRecords records, ?_, h.holdsOpen, fun k hk => absurd rfl hk, ?_⟩
  · intro k hk
    rw [hmoved k, Pi.zero_apply, add_zero]
    exact h.balance k hk
  · intro event hevent
    obtain ⟨hset, hclosing⟩ := h.closing event hevent
    refine ⟨hset, ?_⟩
    have hzero : pend event.key = 0 := by
      by_contra hpend
      exact not_settled_of_open h.keyed (h.pendOpen _ hpend) hset
    have := hmoved event.key
    omega

theorem Balanced.writeRecord (h : s.Balanced fun key => entriesOn moves key)
    (hwrite : s.writeRecord write entries moves attribution expiresAt now = .ok s') :
    s'.Balanced 0 := by
  have hmoved := moved_writeRecord hwrite
  obtain ⟨-, rfl⟩ := writeRecord_eq_ok hwrite
  refine h.withRecords fun k => ?_
  rw [hmoved, Nat.cast_add]

theorem checkReversible_eq_ok {text : String} {entry : AppliedEntry}
    (h : s.checkReversible text entry = .ok ()) :
    entry.key.period = none ∨ ∃ row, s.findRow entry.key = some row ∧ row.settled = false := by
  simp only [checkReversible, ok_iffs, exists_const] at h
  obtain ⟨-, h⟩ := h
  split at h
  · right
    cases hrow : s.findRow entry.key with
    | none =>
      simp only [hrow] at h
      cases h
    | some row =>
      simp only [hrow, rejectIf_eq_ok_iff, Bool.not_eq_true] at h
      exact ⟨row, rfl, h⟩
  · rename_i hnone
    exact .inl (by simpa using hnone)

theorem Balanced.reverseFold {ordered : List AppliedEntry} (h : s.Balanced pend) (hp : s.Placed)
    (hs : s.Succeeded) (hle : ∀ k, (entriesOn ordered k : ℤ) ≤ s.moved k + pend k)
    (hcheck : ∀ entry ∈ ordered, entry.key.period = none ∨ s.Open entry.key)
    (hfold : ordered.foldlM (reverseEntry now) s = .ok s') :
    s'.Balanced (fun k => pend k - entriesOn ordered k) ∧ Touched s s' ∧ Later s s' := by
  induction ordered generalizing s pend with
  | nil =>
    cases hfold
    exact ⟨by simpa using h, Touched.refl _, Later.refl _⟩
  | cons entry ordered ih =>
    rw [foldlM_cons, bind_eq_ok_iff] at hfold
    obtain ⟨s₁, hentry, hfold⟩ := hfold
    simp only [reverseEntry, ok_iffs, Prod.exists] at hentry
    obtain ⟨v, s₂, hcredit, rfl⟩ := hentry
    -- the row of an allocation quota is never settled; a period row was checked
    have hopen : s.Open entry.key := by
      rcases hcheck entry mem_cons_self with hnone | hopen
      · obtain ⟨row, hrow, hkey, -, -⟩ := creditCounter_eq_ok h.keyed hcredit
        have hw : row.window = none := by
          have : row.key.period = none := by rw [hkey, hnone]
          simpa [CounterRow.key] using this
        exact ⟨row, hrow, hkey, hp.allocation_open hs hrow hw⟩
      · exact hopen
    have hfirst : ∀ k, (entriesOn (entry :: ordered) k : ℤ) =
        (Pi.single entry.key (entry.amount : ℤ) : RowKey → ℤ) k + entriesOn ordered k := by
      intro k
      rw [← singleton_append, entriesOn_append, Nat.cast_add, entriesOn_singleton]
    have hfits : (entry.amount : ℤ) ≤ s.used entry.key := by
      rw [h.balance _ (not_settled_of_open h.keyed hopen)]
      have := hle entry.key
      rw [hfirst, Pi.single_eq_same] at this
      omega
    obtain ⟨hbal, htouch⟩ := h.creditCounter hopen hfits hcredit
    have hl := Later.creditCounter h.keyed hcredit
    have hmoved : ∀ k, s₂.moved k = s.moved k := fun k => by rw [moved, hl.records, moved]
    obtain ⟨hbal', htouch', hl'⟩ := ih hbal (hp.of_outlines htouch.outlines hl.quotas)
      (hs.of_outlines htouch.outlines)
      (fun k => by
        have := hle k
        rw [hfirst] at this
        rw [hmoved, Pi.sub_apply]
        omega)
      (fun e he => (hcheck e (mem_cons_of_mem _ he)).imp_right
        fun ho => open_of_outlines ho htouch.outlines) hfold
    refine ⟨?_, htouch.trans htouch', hl.trans hl'⟩
    have hpend : (fun k => pend k - entriesOn (entry :: ordered) k) = fun k =>
        (pend - Pi.single entry.key (entry.amount : ℤ) : RowKey → ℤ) k - entriesOn ordered k := by
      funext k
      rw [hfirst, Pi.sub_apply]
      omega
    exact hpend ▸ hbal'

theorem Balanced.reverseEntries {text : String} (h : s.Balanced 0) (hp : s.Placed)
    (hs : s.Succeeded) (hle : ∀ k, entriesOn entries k ≤ s.moved k)
    (hreverse : s.reverseEntries text entries now = .ok s') :
    s'.Balanced (fun k => -(entriesOn entries k : ℤ)) ∧ Touched s s' ∧ Later s s' := by
  simp only [Store.reverseEntries, bind_eq_ok_iff] at hreverse
  obtain ⟨_, hcheck, hfold⟩ := hreverse
  have hsame : ∀ k, entriesOn (entries.sortByKey (·.key.quotaId.toNat)) k = entriesOn entries k :=
    fun k => tally_perm (sortByKey_perm _ _)
  obtain ⟨hbal, htouch, hl⟩ := h.reverseFold hp hs
    (fun k => by
      rw [hsame, Pi.zero_apply]
      exact_mod_cast hle k)
    (fun entry hentry => by
      rcases checkReversible_eq_ok (forM_eq_ok_iff.1 hcheck entry hentry) with
        hnone | ⟨row, hrow, hset⟩
      · exact .inl hnone
      · exact .inr ⟨row, mem_of_findRow hrow, key_of_findRow hrow, hset⟩) hfold
  refine ⟨?_, htouch, hl⟩
  simpa only [hsame, Pi.zero_apply, zero_sub] using hbal

end Gears.Quotas.Store
