import Gears.Quotas.Credits

/-!
# Every threshold fires once

* `Moves` : the debits and credits of one period row, with what they reported.
* `Reported` : what the debits so far have reported, with the marker.
* `thresholds_fire_once` : a threshold is reported once, by the first debit that leaves the counter
  at or above it, and the marker is the largest one reported.
-/

namespace Gears.Quotas

open List Except

variable {cap pre amount : ℕ} {thresholds reported values : List ℕ} {marker : Option ℕ}

/-- The thresholds a debit reports. -/
def crossedBy (crossing : Option ThresholdCrossing) : List ℕ :=
  (crossing.map (·.crossedThresholds)).getD []

/-- What was reported is what some debit reached, and the marker is the largest of it. -/
structure Reported (cap : ℕ) (thresholds reported values : List ℕ) (marker : Option ℕ) : Prop where
  nodup : reported.Nodup
  mem : ∀ t, t ∈ reported ↔ t ∈ thresholds ∧ ∃ v ∈ values, t * cap ≤ 100 * v
  marker_eq : marker = reported.max?

theorem aboveMarker_iff (h : marker = reported.max?) {t : ℕ} :
    aboveMarker marker t = true ↔ ∀ r ∈ reported, r < t := by
  subst h
  cases hm : reported.max? with
  | none =>
    obtain rfl := max?_eq_none_iff.1 hm
    simp [aboveMarker]
  | some m =>
    obtain ⟨hmem, hle⟩ := max?_eq_some_iff.1 hm
    simp only [aboveMarker, decide_eq_true_eq]
    exact ⟨fun hlt r hr => (hle r hr).trans_lt hlt, fun h => h m hmem⟩

theorem thresholdCrossings_spec (quotaId : Uuid) (pre amount : ℕ) (thresholds : List ℕ)
    (marker : Option ℕ) (hcap : 0 < cap) :
    let crossing := thresholdCrossings quotaId pre (pre + amount) (some cap) thresholds marker
    (crossedBy crossing).Pairwise (· < ·) ∧
      crossing.map (·.highestCrossedThreshold) = (crossedBy crossing).getLast? ∧
      ∀ t, t ∈ crossedBy crossing ↔ t ∈ thresholds ∧ aboveMarker marker t ∧
        pre * 100 < t * cap ∧ t * cap ≤ (pre + amount) * 100 := by
  intro crossing
  set crossed := (thresholds.dedup.sortByKey id).filter fun t =>
    aboveMarker marker t ∧ pre * 100 < t * cap ∧ t * cap ≤ (pre + amount) * 100 with hcrossed
  have hcrossing : crossing = crossed.getLast?.map fun highest => ⟨quotaId, crossed, highest⟩ := by
    simp only [crossing, thresholdCrossings, Option.bind_eq_bind, Option.bind_some]
    split
    · -- a flat move and an empty list cross nothing
      have hnil : crossed = [] := by
        refine filter_eq_nil_iff.2 fun t ht => ?_
        simp only [decide_eq_true_eq] at ht ⊢
        rcases ‹_ ∨ _ ∨ _› with hzero | hflat | rfl
        · omega
        · omega
        · cases ht
      rw [hnil]
      rfl
    · rw [Option.map_eq_bind]
      rfl
  have hlist : crossedBy crossing = crossed := by
    rw [hcrossing]
    cases hl : crossed.getLast? with
    | none => exact (getLast?_eq_none_iff.1 hl).symm
    | some highest => rfl
  rw [hlist, hcrossing, Option.map_map]
  refine ⟨?_, Option.map_id' .., fun t => by simp [hcrossed]⟩
  have hnodup : (thresholds.dedup.sortByKey id).Nodup :=
    (sortByKey_perm _ _).nodup_iff.2 (nodup_dedup _)
  exact (((pairwise_sortByKey id _).and hnodup).filter _).imp fun h => lt_of_le_of_ne h.1 h.2

/-- **One debit reports what it is the first to reach.** -/
theorem Reported.debit (h : Reported cap thresholds reported values marker) (quotaId : Uuid)
    (hcap : 0 < cap) (hpos : ∀ t ∈ thresholds, 0 < t)
    (hpre : ∃ v ∈ 0 :: values, pre ≤ v) :
    let crossing := thresholdCrossings quotaId pre (pre + amount) (some cap) thresholds marker
    Reported cap thresholds (reported ++ crossedBy crossing) (values ++ [pre + amount])
      ((crossing.map (·.highestCrossedThreshold)).or marker) := by
  intro crossing
  obtain ⟨hlt, hlast, hmem⟩ := thresholdCrossings_spec quotaId pre amount thresholds marker hcap
  simp only [aboveMarker_iff h.marker_eq] at hmem
  have habove : ∀ r ∈ reported, ∀ t ∈ crossedBy crossing, r < t :=
    fun r hr t ht => ((hmem t).1 ht).2.1 r hr
  refine ⟨?_, fun t => ?_, ?_⟩
  · refine nodup_append.2 ⟨h.nodup, hlt.imp fun h => h.ne, ?_⟩
    rintro r hr _ ht rfl
    exact lt_irrefl r (habove r hr r ht)
  · rw [mem_append, h.mem, hmem]
    simp only [mem_append, mem_singleton, or_and_right, exists_or, exists_eq_left]
    constructor
    · rintro (⟨ht, hv⟩ | ⟨ht, -, -, hle⟩)
      · exact ⟨ht, .inl hv⟩
      · exact ⟨ht, .inr (by omega)⟩
    · rintro ⟨ht, hv | hle⟩
      · exact .inl ⟨ht, hv⟩
      · by_cases hbefore : ∃ v ∈ values, t * cap ≤ 100 * v
        · exact .inl ⟨ht, hbefore⟩
        -- nothing reported reaches as far, and the counter was not there before this debit
        · refine .inr ⟨ht, fun r hr => ?_, ?_, by omega⟩
          · by_contra hle
            obtain ⟨-, v, hv, hreach⟩ := (h.mem r).1 hr
            exact hbefore ⟨v, hv, (Nat.mul_le_mul_right cap (not_lt.1 hle)).trans hreach⟩
          · by_contra hge
            obtain ⟨v, hv, hle⟩ := hpre
            rcases mem_cons.1 hv with rfl | hv
            · have := Nat.mul_pos (hpos t ht) hcap
              omega
            · exact hbefore ⟨v, hv, by omega⟩
  · rw [hlast]
    cases hl : (crossedBy crossing).getLast? with
    | none =>
      rw [getLast?_eq_none_iff.1 hl, append_nil]
      exact h.marker_eq
    | some highest =>
      obtain ⟨front, hfront⟩ := getLast?_eq_some_iff.1 hl
      refine (max?_eq_some_iff.2 ⟨by simp [hfront], fun r hr => ?_⟩).symm
      rcases mem_append.1 hr with hr | hr
      · exact (habove r hr highest (by simp [hfront])).le
      · rw [hfront] at hlt hr
        rcases List.mem_concat_iff.1 hr with hr | rfl
        · exact ((pairwise_append.1 hlt).2.2 r hr highest (mem_singleton_self _)).le
        · exact le_rfl

/-! ### The moves of a row -/

namespace Store

variable {s s' : Store} {key : RowKey} {row : CounterRow} {now : ℤ} {quota : Quota}

/-- The threshold marker stored for a key. -/
def markerOf (s : Store) (key : RowKey) : Option ℕ := (s.findRow key).bind (·.marker)

/-- **The moves of one row**, with the thresholds they reported and the values the debits left.
The row starts at zero, no debit is made after its period, and whatever else happens between the
moves leaves the row as it is. -/
inductive Moves (cap : ℕ) (thresholds : List ℕ) (key : RowKey) :
    Store → List ℕ → List ℕ → Prop
  | start {s : Store} : s.Keyed → s.stored key = 0 → s.markerOf key = none →
      Moves cap thresholds key s [] []
  | debit {s s' : Store} {reported values : List ℕ} {quota : Quota} {amount : ℕ} {now : ℤ}
      {entry : AppliedEntry} {crossing : Option ThresholdCrossing} :
      Moves cap thresholds key s reported values → quota.cap = some cap →
      quota.notificationThresholds = thresholds →
      s.debitCounter quota amount now = .ok (entry, crossing, s') → entry.key = key →
      (∀ row ∈ s'.findRow key, ¬ row.HasElapsed now) →
      Moves cap thresholds key s' (reported ++ crossedBy crossing) (values ++ [entry.value])
  | credit {s s' : Store} {reported values : List ℕ} {amount v : ℕ} {now : ℤ} :
      Moves cap thresholds key s reported values →
      s.creditCounter key amount now = .ok (v, s') → Moves cap thresholds key s' reported values
  | other {s s' : Store} {reported values : List ℕ} : Moves cap thresholds key s reported values →
      s'.Keyed → s'.findRow key = s.findRow key → Moves cap thresholds key s' reported values

theorem findRow_writeCounter (h : s.findRow key = some row) (value : ℕ) (marker : Option ℕ) :
    (s.writeCounter key value marker).findRow key = some { row with value, marker } := by
  rw [findRow_map (rewritten_key value marker) rfl, h, Option.map_some, rewritten,
    if_pos (key_of_findRow h)]

theorem Charged.findRow {s₁ : Store} (hk : s.Keyed) (h : Charged s quota now row s₁) :
    s₁.findRow row.key = some row ∧ row.value = s.stored row.key ∧
      row.marker = s.markerOf row.key := by
  have hrow := findRow_of_mem (h.keyed hk) h.mem
  refine ⟨hrow, ?_⟩
  cases h with
  | opened _ _ hfresh =>
    rw [stored, markerOf, hfresh]
    exact ⟨rfl, rfl⟩
  | _ => simp [stored, markerOf, hrow]

theorem debitCounter_row {entry : AppliedEntry} {crossing : Option ThresholdCrossing} (hk : s.Keyed)
    (h : s.debitCounter quota amount now = .ok (entry, crossing, s')) :
    s'.Keyed ∧ ∃ pre ≤ s.stored entry.key, entry.value = pre + amount ∧
      s'.stored entry.key = entry.value ∧
      let crossed := thresholdCrossings quota.id pre (pre + amount) quota.cap
        quota.notificationThresholds (s.markerOf entry.key)
      s'.markerOf entry.key =
        (crossed.map (·.highestCrossedThreshold)).or (s.markerOf entry.key) ∧
      ((∀ row ∈ s'.findRow entry.key, ¬ row.HasElapsed now) → crossing = crossed) := by
  simp only [debitCounter, ok_iffs, exists_const, Prod.exists] at h
  obtain ⟨row, s₁, hrow, -, rfl, rfl, rfl⟩ := h
  have hcharged := chargedRow_eq_ok hrow
  obtain ⟨hfind, hvalue, hmarker⟩ := hcharged.findRow hk
  have hk₁ : (s₁.returnExpiredHolds row.key now).2.Keyed := (hcharged.keyed hk).stampHolds
  have hfind' := findRow_writeCounter (s := (s₁.returnExpiredHolds row.key now).2) hfind
  refine ⟨hk₁.writeCounter _ _, _, ?_, rfl, ?_, ?_, fun hnot => ?_⟩
  · exact (Nat.sub_le _ _).trans hvalue.le
  · rw [stored, hfind']
    rfl
  · rw [markerOf, hfind', ← hmarker]
    rfl
  · rw [hfind'] at hnot
    have hnow := hnot _ rfl
    change ¬ row.HasElapsed now at hnow
    rw [if_neg hnow, hmarker]

theorem creditCounter_row {v : ℕ} (hk : s.Keyed)
    (h : s.creditCounter key amount now = .ok (v, s')) :
    s'.Keyed ∧ s'.stored key ≤ s.stored key ∧ s'.markerOf key = s.markerOf key := by
  obtain ⟨row, hrow, rfl, rfl, rfl⟩ := creditCounter_eq_ok hk h
  have hfind := findRow_of_mem hk hrow
  have hk₁ : (s.returnExpiredHolds row.key now).2.Keyed := hk.stampHolds
  have hfind' := findRow_writeCounter (s := (s.returnExpiredHolds row.key now).2) hfind
  refine ⟨hk₁.writeCounter _ _, ?_, ?_⟩
  · rw [stored, hfind', stored, hfind]
    exact (Nat.sub_le _ _).trans (Nat.sub_le _ _)
  · rw [markerOf, hfind', markerOf, hfind]
    rfl

/-- **Every threshold fires once.**  Over any moves of a period row, a threshold is reported at most
once, exactly when some debit left the counter at or above it, and the stored marker is the largest
one reported. -/
theorem thresholds_fire_once {cap : ℕ} {thresholds : List ℕ} {key : RowKey} {s : Store}
    {reported values : List ℕ} (hcap : 0 < cap) (hrange : ∀ t ∈ thresholds, 1 ≤ t ∧ t ≤ 100)
    (h : Moves cap thresholds key s reported values) : reported.Nodup ∧
      (∀ t, t ∈ reported ↔ t ∈ thresholds ∧ ∃ v ∈ values, t * cap ≤ 100 * v) ∧
      s.markerOf key = reported.max? := by
  suffices hinv : s.Keyed ∧ Reported cap thresholds reported values (s.markerOf key) ∧
      ∃ v ∈ 0 :: values, s.stored key ≤ v from
    ⟨hinv.2.1.nodup, hinv.2.1.mem, hinv.2.1.marker_eq⟩
  induction h with
  | start hk hzero hnone => exact ⟨hk, ⟨nodup_nil, by simp, hnone⟩, 0, mem_cons_self, hzero.le⟩
  | debit _ hcapped hthresholds hdebit hkey hnot ih =>
    obtain ⟨hk, hreported, v, hv, hle⟩ := ih
    subst hkey
    obtain ⟨hk', pre, hpre, hvalue, hstored', hmarker, hcrossing⟩ := debitCounter_row hk hdebit
    rw [hcapped, hthresholds] at hmarker hcrossing
    rw [hcrossing hnot, hvalue, hmarker]
    exact ⟨hk', hreported.debit _ hcap (fun t ht => (hrange t ht).1) ⟨v, hv, hpre.trans hle⟩, _,
      by simp, (hstored'.trans hvalue).le⟩
  | credit _ hcredit ih =>
    obtain ⟨hk, hreported, v, hv, hstored⟩ := ih
    obtain ⟨hk', hle, hmarker⟩ := creditCounter_row hk hcredit
    exact ⟨hk', hmarker ▸ hreported, v, hv, hle.trans hstored⟩
  | other _ hk hsame ih =>
    obtain ⟨-, hreported, hstored⟩ := ih
    rw [markerOf, stored, hsame]
    exact ⟨hk, hreported, hstored⟩

/-- Six of ten seats are used, two credited and two used again, which passes the first threshold a
second time in silence, and then all are used. -/
theorem thresholds_fire_once_sample :
    ∃ s, Moves 10 [50, 100] ⟨1, none⟩ s [50, 100] [6, 6, 10] ∧ s.markerOf ⟨1, none⟩ = some 100 := by
  obtain ⟨d₁, hd₁, hk₁, hn₁, c, hc, d₂, hd₂, hk₂, hn₂, d₃, hd₃, hk₃, hn₃, hreported, hvalues⟩ :
      ∃ d₁, ({ Store.empty with rows := [⟨1, none, 0, none, false⟩] } : Store).debitCounter
          (seats 10 [50, 100]) 6 0 = .ok d₁ ∧ d₁.1.key = ⟨1, none⟩ ∧
        (∀ row ∈ d₁.2.2.findRow ⟨1, none⟩, ¬ row.HasElapsed 0) ∧
      ∃ c, d₁.2.2.creditCounter ⟨1, none⟩ 2 1 = .ok c ∧
      ∃ d₂, c.2.debitCounter (seats 10 [50, 100]) 2 2 = .ok d₂ ∧ d₂.1.key = ⟨1, none⟩ ∧
        (∀ row ∈ d₂.2.2.findRow ⟨1, none⟩, ¬ row.HasElapsed 2) ∧
      ∃ d₃, d₂.2.2.debitCounter (seats 10 [50, 100]) 4 3 = .ok d₃ ∧ d₃.1.key = ⟨1, none⟩ ∧
        (∀ row ∈ d₃.2.2.findRow ⟨1, none⟩, ¬ row.HasElapsed 3) ∧
      [] ++ crossedBy d₁.2.1 ++ crossedBy d₂.2.1 ++ crossedBy d₃.2.1 = [50, 100] ∧
      [] ++ [d₁.1.value] ++ [d₂.1.value] ++ [d₃.1.value] = [6, 6, 10] := by
    decide +kernel
  have h₁ := Moves.debit (.start ⟨by decide, by decide, by simp [Store.empty], by decide,
    by simp [Store.empty]⟩ rfl rfl) rfl rfl hd₁ hk₁ hn₁
  have h₃ := ((h₁.credit hc).debit rfl rfl hd₂ hk₂ hn₂).debit rfl rfl hd₃ hk₃ hn₃
  rw [hreported, hvalues] at h₃
  exact ⟨_, h₃, (thresholds_fire_once (by decide) (by decide) h₃).2.2⟩

end Store

end Gears.Quotas
