import Gears.Lib.Except
import Gears.Lib.Keyed
import Mathlib

/-!
# Splitting a commit across the holds of a lease

* `apportion` : each hold keeps its floor share of what was used, and the units left over go to
  the largest fractional remainders, ties to the earlier hold.
* `apportion_exact` : the charged total, who is charged a unit more, and when the split fails.
-/

namespace Gears.Quotas

open Except List

/-- Why a commit's holds could not be split. -/
inductive ApportionError
  | overflow
  | overCommit
  deriving DecidableEq, Repr

/-- A value of 128 bits. -/
def checked128 (n : ℕ) : Except ApportionError ℕ :=
  if n < 2 ^ 128 then .ok n else .error .overflow

/-- A value of 64 bits. -/
def checked64 (n : ℕ) : Except ApportionError ℕ :=
  if n < 2 ^ 64 then .ok n else .error .overflow

/-- Give the hold at `index` one more unit while the target is not met and it still holds one. -/
def grantUnit (holds : List ℕ) (target : ℕ) (state : List ℕ × ℕ) (index : ℕ) : List ℕ × ℕ :=
  if target ≤ state.2 then state
  else if state.1.getD index 0 < holds.getD index 0 then
    (state.1.set index (state.1.getD index 0 + 1), state.2 + 1)
  else state

/-- The order of the leftover units: largest remainder first, then the earlier hold. -/
def remainderOrder (holds : List ℕ) (actual reserved : ℕ) : List ℕ :=
  let remainders := holds.mapIdx fun index held => (held * actual % reserved, index)
  (remainders.sortByKey fun r => toLex (OrderDual.toDual r.1, r.2)).map Prod.snd

/-- Split `actual` across the holds of a lease, rounding the charged total up. -/
def apportion (holds : List ℕ) (actual reserved : ℕ) : Except ApportionError (List ℕ) := do
  .rejectIf (reserved < actual) .overCommit
  let totalHeld ← holds.foldlM (fun total held => checked128 (total + held)) 0
  let scaled ← checked128 (totalHeld * actual)
  let target := (scaled + (reserved - 1)) / reserved
  let scaledHolds ← holds.mapM fun held => checked128 (held * actual)
  let shares := scaledHolds.map (· / reserved)
  let kept := (remainderOrder holds actual reserved).foldl (grantUnit holds target)
    (shares, shares.sum)
  kept.1.mapM checked64

variable {holds kept : List ℕ} {state : List ℕ × ℕ} {target actual reserved : ℕ}

/-- What each hold keeps once the floor shares and the units left over are handed out. -/
def keptShares (holds : List ℕ) (actual reserved : ℕ) : List ℕ :=
  let shares := holds.map (· * actual / reserved)
  ((remainderOrder holds actual reserved).foldl
    (grantUnit holds ((holds.sum * actual + (reserved - 1)) / reserved)) (shares, shares.sum)).1

theorem foldlM_checked128 {total : ℕ} (h : total < 2 ^ 128) :
    holds.foldlM (fun total held => checked128 (total + held)) total =
      if total + holds.sum < 2 ^ 128 then .ok (total + holds.sum) else .error .overflow := by
  induction holds generalizing total with
  | nil => rw [sum_nil, Nat.add_zero, if_pos h]; rfl
  | cons held holds ih =>
    rw [foldlM_cons, sum_cons, ← Nat.add_assoc]
    by_cases hstep : total + held < 2 ^ 128
    · rw [checked128, if_pos hstep, ok_bind, ih hstep]
    · rw [checked128, if_neg hstep, if_neg (by omega)]
      rfl

theorem mapM_checked {bound : ℕ} (check : ℕ → Except ApportionError ℕ)
    (hcheck : ∀ n, check n = if n < bound then .ok n else .error .overflow) (l : List ℕ) :
    l.mapM check = if ∀ n ∈ l, n < bound then .ok l else .error .overflow := by
  induction l with
  | nil => rw [if_pos (forall_mem_nil _)]; rfl
  | cons n l ih =>
    rw [mapM_cons, ih, hcheck]
    by_cases hn : n < bound
    · simp only [forall_mem_cons, hn, true_and, ↓reduceIte]
      split <;> rfl
    · simp only [forall_mem_cons, hn]
      rfl

/-- The split succeeds unless too much was used or a number does not fit its width. -/
theorem apportion_eq (holds : List ℕ) (actual reserved : ℕ) : apportion holds actual reserved =
      if reserved < actual then .error .overCommit
      else if holds.sum < 2 ^ 128 ∧ holds.sum * actual < 2 ^ 128 ∧
          ∀ n ∈ keptShares holds actual reserved, n < 2 ^ 64 then
        .ok (keptShares holds actual reserved)
      else .error .overflow := by
  unfold apportion
  by_cases hover : reserved < actual
  · rw [if_pos hover, rejectIf, if_pos hover]
    rfl
  rw [rejectIf_of_not hover, if_neg hover, ok_bind, foldlM_checked128 (by norm_num), Nat.zero_add]
  by_cases hsum : holds.sum < 2 ^ 128
  case neg => rw [if_neg hsum, if_neg fun h => hsum h.1]; rfl
  rw [if_pos hsum, ok_bind, checked128]
  by_cases hscaled : holds.sum * actual < 2 ^ 128
  case neg => rw [if_neg hscaled, if_neg fun h => hscaled h.2.1]; rfl
  -- a hold is no more than the sum of the holds
  have hholds : ∀ held ∈ holds, held * actual < 2 ^ 128 := fun held hmem =>
    (Nat.mul_le_mul_right _ (single_le_sum (fun _ _ => Nat.zero_le _) _ hmem)).trans_lt hscaled
  have hmap := mapM_checked checked128 (fun _ => rfl) (holds.map (· * actual))
  rw [if_pos (forall_mem_map.2 hholds), mapM_map] at hmap
  rw [if_pos hscaled, ok_bind, Function.comp_def] at *
  rw [hmap, ok_bind, mapM_checked checked64 fun _ => rfl, map_map]
  simp only [hsum, hscaled, true_and]
  rfl

theorem keptShares_of_ok (h : apportion holds actual reserved = .ok kept) :
    actual ≤ reserved ∧ keptShares holds actual reserved = kept := by
  rw [apportion_eq] at h
  split at h
  · cases h
  · split at h <;> cases h
    exact ⟨by omega, rfl⟩

/-! ### The units left over -/

theorem foldl_grantUnit_of_met (order : List ℕ) (h : target ≤ state.2) :
    order.foldl (grantUnit holds target) state = state := by
  induction order with
  | nil => rfl
  | cons index order ih => rw [foldl_cons, grantUnit, if_pos h, ih]

theorem sum_set_succ {l : List ℕ} {index : ℕ} (h : index < l.length) :
    (l.set index (l.getD index 0 + 1)).sum = l.sum + 1 := by
  induction l generalizing index with
  | nil => cases h
  | cons n l ih =>
    cases index with
    | zero => simp; omega
    | succ index =>
      simp_all
      omega

theorem foldl_grantUnit_of_room {given : List ℕ} (target : ℕ) (state : List ℕ × ℕ)
    (hlen : state.1.length = holds.length) (hgiven : given.Nodup)
    (hroom : ∀ i ∈ given, state.1.getD i 0 < holds.getD i 0)
    (htarget : state.2 + given.length ≤ target) :
    let kept := given.foldl (grantUnit holds target) state
    kept.1.length = holds.length ∧ kept.1.sum = state.1.sum + given.length ∧
      kept.2 = state.2 + given.length ∧
      ∀ i, kept.1.getD i 0 = state.1.getD i 0 + if i ∈ given then 1 else 0 := by
  induction given generalizing state with
  | nil => simp [hlen]
  | cons index given ih =>
    obtain ⟨hindex, hgiven⟩ := nodup_cons.1 hgiven
    obtain ⟨hfirst, hroom⟩ := forall_mem_cons.1 hroom
    rw [length_cons] at htarget
    have hlt : index < state.1.length := by
      by_contra hge
      rw [getD_eq_default _ _ (by omega : holds.length ≤ index)] at hfirst
      omega
    have hstep : grantUnit holds target state index =
        (state.1.set index (state.1.getD index 0 + 1), state.2 + 1) := by
      rw [grantUnit, if_neg (by omega), if_pos hfirst]
    have hset : ∀ i, (state.1.set index (state.1.getD index 0 + 1)).getD i 0 =
        state.1.getD i 0 + if i = index then 1 else 0 := by
      intro i
      by_cases hi : i = index
      · subst hi
        simp [hlt]
      · simp [hi, Ne.symm hi]
    obtain ⟨hl, hs, ha, hk⟩ := ih (grantUnit holds target state index)
      (by rw [hstep, length_set, hlen]) hgiven
      (fun i hi => by
        rw [hstep, hset, if_neg (ne_of_mem_of_not_mem hi hindex)]
        exact hroom i hi) (by rw [hstep]; dsimp only; omega)
    rw [hstep] at hl hs ha hk
    rw [foldl_cons, hstep]
    refine ⟨hl, ?_, ?_, fun i => ?_⟩
    · rw [hs, sum_set_succ hlt, length_cons]
      omega
    · rw [length_cons]
      omega
    · rw [hk, hset]
      by_cases hi : i = index
      · subst hi
        simp [hindex]
      · simp [hi]

/-- The fractional part of a hold's share, in parts of the reserved amount. -/
def remainderOf (holds : List ℕ) (actual reserved i : ℕ) : ℕ := holds.getD i 0 * actual % reserved

/-- Hold `i` is served before hold `j`: its fractional part is larger, or as large and it is
earlier. -/
def Outranks (holds : List ℕ) (actual reserved i j : ℕ) : Prop :=
  remainderOf holds actual reserved j < remainderOf holds actual reserved i ∨
    remainderOf holds actual reserved j = remainderOf holds actual reserved i ∧ i < j

theorem scaled_eq (holds : List ℕ) (actual reserved : ℕ) :
    reserved * (holds.map (· * actual / reserved)).sum + (holds.map (· * actual % reserved)).sum =
      holds.sum * actual := by
  induction holds with
  | nil => simp
  | cons held holds ih =>
    have := Nat.div_add_mod (held * actual) reserved
    simp only [map_cons, sum_cons, Nat.mul_add, Nat.add_mul]
    omega

/-- Parts below one that sum to more than `k - 1` have `k` positive ones, and sorting puts them
first. -/
theorem pos_of_mem_take {l : List (ℕ × ℕ)} {k : ℕ} (hl : l.Pairwise fun r r' => r'.1 ≤ r.1)
    (hlt : ∀ r ∈ l, r.1 < reserved) (hk : reserved * k < (l.map Prod.fst).sum + reserved) :
    k ≤ l.length ∧ ∀ r ∈ l.take k, 0 < r.1 := by
  induction l generalizing k with
  | nil =>
    have : k < 1 := Nat.lt_of_mul_lt_mul_left (by simpa using hk)
    exact ⟨by omega, by simp⟩
  | cons r l ih =>
    obtain ⟨hle, hl⟩ := pairwise_cons.1 hl
    obtain ⟨hr, hlt⟩ := forall_mem_cons.1 hlt
    cases k with
    | zero => simp
    | succ k =>
      rw [map_cons, sum_cons, Nat.mul_succ] at hk
      have hpos : 0 < r.1 := by
        by_contra hzero
        have : (l.map Prod.fst).sum = 0 :=
          sum_eq_zero (forall_mem_map.2 fun r' hr' => by have := hle r' hr'; omega)
        omega
      obtain ⟨hlen, hpos'⟩ := ih (k := k) hl hlt (by omega)
      exact ⟨Nat.succ_le_succ hlen, forall_mem_cons.2 ⟨hpos, hpos'⟩⟩

/-- The fractional parts with the index of their hold, in the order of the units left over. -/
def rankedRemainders (holds : List ℕ) (actual reserved : ℕ) : List (ℕ × ℕ) :=
  (holds.mapIdx fun index held => (held * actual % reserved, index)).sortByKey
    fun r => toLex (OrderDual.toDual r.1, r.2)

theorem mem_rankedRemainders {r : ℕ × ℕ} : r ∈ rankedRemainders holds actual reserved ↔
    r.2 < holds.length ∧ r.1 = remainderOf holds actual reserved r.2 := by
  rw [rankedRemainders, mem_sortByKey, mem_mapIdx]
  constructor
  · rintro ⟨i, hi, rfl⟩
    exact ⟨hi, by simp [remainderOf, hi]⟩
  · rintro ⟨hi, hr⟩
    exact ⟨r.2, hi, Prod.ext (by simp [hr, remainderOf, hi]) rfl⟩

theorem nodup_rankedRemainders : ((rankedRemainders holds actual reserved).map Prod.snd).Nodup := by
  rw [rankedRemainders, ((sortByKey_perm ..).map Prod.snd).nodup_iff, mapIdx_eq_zipIdx_map, map_map]
  exact (zipIdx_map_snd 0 holds).symm ▸ nodup_range'

theorem sum_rankedRemainders : ((rankedRemainders holds actual reserved).map Prod.fst).sum =
    (holds.map (· * actual % reserved)).sum := by
  rw [rankedRemainders, ((sortByKey_perm ..).map Prod.fst).sum_eq, mapIdx_eq_zipIdx_map, map_map]
  nth_rewrite 2 [← zipIdx_map_fst 0 holds]
  rw [map_map]
  rfl

theorem pairwise_rankedRemainders : (rankedRemainders holds actual reserved).Pairwise
    fun r r' => r'.1 < r.1 ∨ r'.1 = r.1 ∧ r.2 ≤ r'.2 := by
  refine (pairwise_sortByKey _ _).imp fun h => ?_
  simpa [Prod.Lex.le_iff, eq_comm] using h

theorem share_lt_of_remainder {held : ℕ} (hle : actual ≤ reserved)
    (h : 0 < held * actual % reserved) : held * actual / reserved < held := by
  have hdiv := Nat.div_add_mod (held * actual) reserved
  have hmul : held * actual ≤ reserved * held := Nat.mul_comm reserved held ▸
    Nat.mul_le_mul_left held hle
  exact Nat.lt_of_mul_lt_mul_left (a := reserved) (by omega)

theorem outranks_of_take {count i j : ℕ}
    (hi : i ∈ ((rankedRemainders holds actual reserved).take count).map Prod.snd)
    (hj : j < holds.length)
    (hnot : j ∉ ((rankedRemainders holds actual reserved).take count).map Prod.snd) :
    Outranks holds actual reserved i j := by
  have hne : i ≠ j := ne_of_mem_of_not_mem hi hnot
  obtain ⟨r, hr, rfl⟩ := mem_map.1 hi
  have hmem : (remainderOf holds actual reserved j, j) ∈ rankedRemainders holds actual reserved :=
    mem_rankedRemainders.2 ⟨hj, rfl⟩
  rw [← take_append_drop count (rankedRemainders ..), mem_append] at hmem
  have hdrop := hmem.resolve_left fun h => hnot (mem_map_of_mem h)
  have hpair : (rankedRemainders holds actual reserved).Pairwise _ := pairwise_rankedRemainders
  rw [← take_append_drop count (rankedRemainders ..), pairwise_append] at hpair
  have hrank := hpair.2.2 r hr _ hdrop
  rw [(mem_rankedRemainders.1 (mem_of_mem_take hr)).2] at hrank
  exact hrank.imp_right fun h => ⟨h.1, lt_of_le_of_ne h.2 hne⟩

/-- The units left over go to the holds that rank first, and those have room. -/
theorem keptShares_spec (holds : List ℕ) (hpos : 0 < reserved) (hle : actual ≤ reserved) :
    ∃ given : List ℕ, (keptShares holds actual reserved).length = holds.length ∧
      (keptShares holds actual reserved).sum = (holds.sum * actual + (reserved - 1)) / reserved ∧
      (∀ i, (keptShares holds actual reserved).getD i 0 =
        holds.getD i 0 * actual / reserved + if i ∈ given then 1 else 0) ∧
      (∀ i, (keptShares holds actual reserved).getD i 0 ≤ holds.getD i 0) ∧
      ∀ i ∈ given, ∀ j < holds.length, j ∉ given → Outranks holds actual reserved i j := by
  have hscaled := scaled_eq holds actual reserved
  set shares := holds.map (· * actual / reserved) with hshares
  set target := (holds.sum * actual + (reserved - 1)) / reserved
  have hlow : shares.sum ≤ target := by
    rw [Nat.le_div_iff_mul_le hpos, Nat.mul_comm]
    omega
  have hhigh : target * reserved ≤ _ := Nat.div_mul_le_self ..
  set ranked := rankedRemainders holds actual reserved
  obtain ⟨hlen, hgiven⟩ := pos_of_mem_take (l := ranked) (k := target - shares.sum)
    (pairwise_rankedRemainders.imp fun h => by omega)
    (fun r hr => (mem_rankedRemainders.1 hr).2.trans_lt (Nat.mod_lt _ hpos))
    (by rw [sum_rankedRemainders, Nat.mul_sub, Nat.mul_comm reserved target]; omega)
  set given := (ranked.take (target - shares.sum)).map Prod.snd
  replace hlen : given.length = target - shares.sum := by
    rw [length_map, length_take_of_le hlen]
  have hroom : ∀ i ∈ given, holds.getD i 0 * actual / reserved < holds.getD i 0 := by
    refine forall_mem_map.2 fun r hr => share_lt_of_remainder hle ?_
    have := hgiven r hr
    rwa [(mem_rankedRemainders.1 (mem_of_mem_take hr)).2] at this
  have hshare : ∀ i, shares.getD i 0 = holds.getD i 0 * actual / reserved := fun i => by
    rw [getD_eq_getElem?_getD, getElem?_map, getD_eq_getElem?_getD]
    cases holds[i]? <;> simp
  obtain ⟨hlength, hsum, hassigned, hkept⟩ :=
    foldl_grantUnit_of_room target (shares, shares.sum) (length_map _)
      (nodup_rankedRemainders.sublist ((take_sublist _ _).map _))
      (fun i hi => (hshare i).trans_lt (hroom i hi)) (show shares.sum + given.length ≤ _ by omega)
  -- the units run out with the holds in `given`, and the rest of the order changes nothing
  have hfold : keptShares holds actual reserved =
      (given.foldl (grantUnit holds target) (shares, shares.sum)).1 := by
    have horder : remainderOrder holds actual reserved =
        given ++ (ranked.drop (target - shares.sum)).map Prod.snd := by
      rw [← map_append, take_append_drop]
      rfl
    show ((remainderOrder holds actual reserved).foldl (grantUnit holds target) _).1 = _
    rw [horder, foldl_append, foldl_grantUnit_of_met]
    rw [hassigned, hlen]
    exact (Nat.add_sub_of_le hlow).ge
  rw [hfold]
  refine ⟨given, hlength, ?_, fun i => ?_, fun i => ?_, fun i hi j hj => outranks_of_take hi hj⟩
  · rw [hsum, hlen]
    exact Nat.add_sub_of_le hlow
  · rw [hkept, hshare]
  · rw [hkept, hshare]
    split
    · exact hroom i ‹_›
    · exact Nat.div_le_of_le_mul (Nat.mul_comm reserved _ ▸ Nat.mul_le_mul_left _ hle)

theorem keptShares_bounded (hpos : 0 < reserved) (hle : actual ≤ reserved) :
    Forall₂ (· ≤ ·) (keptShares holds actual reserved) holds := by
  obtain ⟨-, hlength, -, -, hbound, -⟩ := keptShares_spec holds hpos hle
  refine forall₂_iff_get.2 ⟨hlength, fun i hi hi' => ?_⟩
  have := hbound i
  rwa [getD_eq_getElem _ _ hi, getD_eq_getElem _ _ hi'] at this

/-- **No hold keeps more than it held.** -/
theorem apportion_bounded (hpos : 0 < reserved) (h : apportion holds actual reserved = .ok kept) :
    Forall₂ (· ≤ ·) kept holds := by
  obtain ⟨hle, rfl⟩ := keptShares_of_ok h
  exact keptShares_bounded hpos hle

theorem apportion_zero (hpos : 0 < reserved) (h : apportion holds 0 reserved = .ok kept) :
    ∀ n ∈ kept, n = 0 := by
  obtain ⟨hle, rfl⟩ := keptShares_of_ok h
  obtain ⟨-, -, hsum, -⟩ := keptShares_spec holds hpos hle
  rw [Nat.div_eq_of_lt (by omega)] at hsum
  exact sum_eq_zero_iff.1 hsum

theorem ceil_scaled (total actual : ℕ) (hpos : 0 < reserved) :
    ⌈(total * actual / reserved : ℚ)⌉₊ = (total * actual + (reserved - 1)) / reserved := by
  refine eq_of_forall_ge_iff fun n => ?_
  rw [Nat.ceil_le, div_le_iff₀ (by exact_mod_cast hpos), Nat.div_le_iff_le_mul_add_pred hpos,
    Nat.add_le_add_iff_right, Nat.mul_comm reserved]
  exact_mod_cast Iff.rfl

/-- **The split of a commit is exact.**  The charged total is the used part of what is held,
rounded up; every hold pays its floor share or one unit more, never more than it holds, and the
units left over are paid by the holds that rank first.  The split fails only when more was used
than was reserved, or on holds too large for the arithmetic. -/
theorem apportion_exact (holds : List ℕ) (actual reserved : ℕ) (hpos : 0 < reserved)
    (hholds : ∀ held ∈ holds, held < 2 ^ 64) (hreserved : reserved < 2 ^ 64) :
    (∀ kept, apportion holds actual reserved = .ok kept → kept.length = holds.length ∧
      kept.sum = ⌈(holds.sum * actual / reserved : ℚ)⌉₊ ∧
      (∀ i < holds.length, kept.getD i 0 ≤ holds.getD i 0 ∧
        (kept.getD i 0 = holds.getD i 0 * actual / reserved ∨
          kept.getD i 0 = holds.getD i 0 * actual / reserved + 1)) ∧
      (∀ i < holds.length, ∀ j < holds.length,
        kept.getD i 0 = holds.getD i 0 * actual / reserved + 1 →
        kept.getD j 0 = holds.getD j 0 * actual / reserved →
        Outranks holds actual reserved i j) ∧
      (kept.sum = 0 → actual = 0 ∨ ∀ held ∈ holds, held = 0)) ∧
    (apportion holds actual reserved = .error .overCommit ↔ reserved < actual) ∧
    (holds.sum < 2 ^ 64 → apportion holds actual reserved ≠ .error .overflow) := by
  refine ⟨fun kept h => ?_, ?_, fun hsum => ?_⟩
  · obtain ⟨hle, rfl⟩ := keptShares_of_ok h
    obtain ⟨given, hlength, htotal, hkept, hbound, hranks⟩ := keptShares_spec holds hpos hle
    rw [ceil_scaled _ _ hpos]
    refine ⟨hlength, htotal, fun i _ => ⟨hbound i, ?_⟩, fun i _ j hj hmore hfloor => ?_,
      fun hzero => ?_⟩
    · rw [hkept]
      split <;> simp
    · rw [hkept] at hmore hfloor
      refine hranks i ?_ j hj ?_
      · by_contra hi
        rw [if_neg hi] at hmore
        omega
      · intro hj
        rw [if_pos hj] at hfloor
        omega
    · rw [htotal, Nat.div_eq_zero_iff] at hzero
      have : holds.sum * actual = 0 := by omega
      simpa [or_comm, List.sum_eq_zero_iff] using this
  · rw [apportion_eq]
    split
    · simp_all
    · split <;> simp_all
  · intro h
    rw [apportion_eq] at h
    split at h
    · cases h
    · have hscaled : holds.sum * actual < 2 ^ 64 * 2 ^ 64 :=
        Nat.mul_lt_mul_of_lt_of_lt hsum (by omega)
      have hfits : ∀ n ∈ keptShares holds actual reserved, n < 2 ^ 64 := fun n hn => by
        obtain ⟨held, hmem, hle⟩ := (keptShares_bounded hpos (by omega)).exists_of_mem_left hn
        exact hle.trans_lt (hholds held hmem)
      rw [if_pos ⟨by omega, hscaled, hfits⟩] at h
      cases h

theorem apportion_exact_sample : ∃ kept, apportion [5, 3] 3 10 = .ok kept ∧ kept = [2, 1] ∧
    kept.sum = ⌈(([5, 3] : List ℕ).sum * (3 : ℕ) / (10 : ℕ) : ℚ)⌉₊ :=
  ⟨_, by decide +kernel, rfl, ((apportion_exact [5, 3] 3 10 (by decide) (by decide) (by decide)).1
    [2, 1] (by decide +kernel)).2.1⟩

end Gears.Quotas
