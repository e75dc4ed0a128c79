import Gears.Lib.Keyed

/-!
# Tables with a primary key

A table is a list of rows, and its primary key is a function of the row.

* `Table.Keyed` : no two rows have one key.
* `Table.lookup` : the row with a key.
* `Table.insert`, `Table.insertMany` : insertion, refused when a key is taken.
* `Table.updateWhere`, `Table.deleteWhere` : the statements over every row a condition selects.
* `Table.foldl_updateWhere_key` : a loop of statements, one for each of some keys.
-/

namespace Table

open List

variable {α κ : Type*} [DecidableEq κ] {key : α → κ} {rows rows' : List α} {k : κ} {r : α}
  {p : α → Bool} {f : α → α}

/-- No two rows have one key. -/
def Keyed (key : α → κ) (rows : List α) : Prop := (rows.map key).Nodup

/-- The row with a key. -/
def lookup (key : α → κ) (rows : List α) (k : κ) : Option α := rows.find? (key · = k)

/-- Change every row that the condition selects. -/
def updateWhere (p : α → Bool) (f : α → α) (rows : List α) : List α :=
  rows.map fun r => if p r then f r else r

/-- Remove every row that the condition selects. -/
def deleteWhere (p : α → Bool) (rows : List α) : List α := rows.filter (!p ·)

/-- Add a row, unless its key is taken. -/
def insert (key : α → κ) (r : α) (rows : List α) : Option (List α) :=
  if (lookup key rows (key r)).isNone then some (rows ++ [r]) else none

/-- Add rows one after another, unless a key is taken. -/
def insertMany (key : α → κ) (new rows : List α) : Option (List α) :=
  new.foldlM (fun rows r => insert key r rows) rows

omit [DecidableEq κ] in
theorem keyed_nil : Keyed key [] := nodup_nil

theorem mem_of_lookup (h : lookup key rows k = some r) : r ∈ rows := mem_of_find?_eq_some h

theorem key_of_lookup (h : lookup key rows k = some r) : key r = k := by
  simpa using find?_some h

theorem Keyed.lookup_of_mem (hk : Keyed key rows) (hr : r ∈ rows) :
    lookup key rows (key r) = some r := List.find?_key hk hr

theorem Keyed.eq_of_mem {r' : α} (hk : Keyed key rows) (hr : r ∈ rows) (hr' : r' ∈ rows)
    (h : key r = key r') : r = r' := by
  have hlook := hk.lookup_of_mem hr
  rw [h, hk.lookup_of_mem hr'] at hlook
  exact (Option.some.inj hlook).symm

theorem lookup_eq_none_iff : lookup key rows k = none ↔ ∀ r ∈ rows, key r ≠ k := by
  simp [lookup]

/-! ### Insertion -/

theorem insert_eq_some_iff :
    insert key r rows = some rows' ↔ lookup key rows (key r) = none ∧ rows ++ [r] = rows' := by
  simp [insert]

theorem lookup_append_singleton (h : lookup key rows (key r) = none) (k : κ) :
    lookup key (rows ++ [r]) k = if k = key r then some r else lookup key rows k := by
  rw [lookup, find?_append]
  split
  case isTrue hk =>
    subst hk
    rw [show rows.find? (key · = key r) = none from h]
    simp
  case isFalse hk => simp [lookup, Ne.symm hk]

theorem Keyed.append_singleton (hk : Keyed key rows) (h : lookup key rows (key r) = none) :
    Keyed key (rows ++ [r]) := by
  rw [Keyed, map_append, nodup_append]
  refine ⟨hk, nodup_singleton _, ?_⟩
  intro a ha b hb
  obtain ⟨r', hr', rfl⟩ := mem_map.1 ha
  obtain rfl := mem_singleton.1 hb
  exact lookup_eq_none_iff.1 h r' hr'

theorem append_of_insertMany {new : List α} (h : insertMany key new rows = some rows')
    (hk : Keyed key rows) : rows' = rows ++ new ∧ Keyed key rows' := by
  induction new generalizing rows with
  | nil =>
    cases h
    exact ⟨(append_nil _).symm, hk⟩
  | cons r new ih =>
    rw [insertMany, foldlM_cons, Option.bind_eq_bind, Option.bind_eq_some_iff] at h
    obtain ⟨rows₁, h₁, hrest⟩ := h
    obtain ⟨hfree, rfl⟩ := insert_eq_some_iff.1 h₁
    obtain ⟨rfl, hk'⟩ := ih hrest (hk.append_singleton hfree)
    exact ⟨by rw [append_assoc, singleton_append], hk'⟩

/-! ### Changes -/

theorem mem_updateWhere {r : α} :
    r ∈ updateWhere p f rows ↔ ∃ r₀ ∈ rows, (if p r₀ then f r₀ else r₀) = r := mem_map

omit [DecidableEq κ] in
theorem map_key_updateWhere (hf : ∀ r, key (f r) = key r) :
    (updateWhere p f rows).map key = rows.map key := by
  rw [updateWhere, map_map]
  refine map_congr_left fun r _ => ?_
  dsimp only [Function.comp]
  split
  · exact hf r
  · rfl

omit [DecidableEq κ] in
theorem Keyed.updateWhere (hk : Keyed key rows) (hf : ∀ r, key (f r) = key r) :
    Keyed key (updateWhere p f rows) := by
  rw [Keyed, map_key_updateWhere hf]
  exact hk

theorem lookup_updateWhere (hf : ∀ r, key (f r) = key r) (k : κ) :
    lookup key (updateWhere p f rows) k =
      (lookup key rows k).map fun r => if p r then f r else r := by
  rw [lookup, updateWhere, find?_map]
  refine congrArg _ (congrArg (List.find? · rows) (funext fun r => ?_))
  dsimp only [Function.comp]
  split
  · rw [hf]
  · rfl

theorem lookup_updateWhere_key (hf : ∀ r, key (f r) = key r) (k₀ k : κ) :
    lookup key (updateWhere (key · = k₀) f rows) k =
      if k = k₀ then (lookup key rows k).map f else lookup key rows k := by
  rw [lookup_updateWhere hf]
  cases h : lookup key rows k with
  | none => simp
  | some r =>
    have hr := key_of_lookup h
    subst hr
    by_cases hk : key r = k₀ <;> simp [hk]

/-- A change of rows that a search does not find, before or after it. -/
theorem find?_updateWhere {q : α → Bool} (h : ∀ r ∈ rows, p r → q r = false ∧ q (f r) = false) :
    (updateWhere p f rows).find? q = rows.find? q := by
  induction rows with
  | nil => rfl
  | cons r rows ih =>
    rw [forall_mem_cons] at h
    rw [find?_cons, ← ih h.2, updateWhere, map_cons, find?_cons]
    by_cases hp : p r
    · simp [hp, h.1 hp, updateWhere]
    · simp [hp, updateWhere]

theorem updateWhere_id (p : α → Bool) (rows : List α) : updateWhere p (fun r => r) rows = rows := by
  simp [updateWhere]

/-- **Changes one key at a time.**  One pass over rows with distinct keys, each changing the row
with its own key, is one pass over the table. -/
theorem foldl_updateWhere_key {step : List α → α → List α} {change : α → α → α}
    (hstep : ∀ rows c, step rows c = updateWhere (key · = key c) (change c) rows)
    (hkey : ∀ c r, key (change c r) = key r) {changes : List α} (hc : Keyed key changes)
    (rows : List α) : changes.foldl step rows =
      rows.map fun r => ((lookup key changes (key r)).map fun c => change c r).getD r := by
  induction changes generalizing rows with
  | nil => simp [lookup]
  | cons c changes ih =>
    obtain ⟨hnotin, hc⟩ := nodup_cons.1 hc
    rw [foldl_cons, ih hc, hstep, updateWhere, map_map]
    refine map_congr_left fun r _ => ?_
    dsimp only [Function.comp]
    by_cases hr : key r = key c
    · have hlater : lookup key changes (key c) = none :=
        lookup_eq_none_iff.2 fun r' hr' h => hnotin (h ▸ mem_map_of_mem hr')
      have hfirst : lookup key (c :: changes) (key c) = some c := by simp [lookup]
      rw [if_pos (decide_eq_true hr), hkey, hr, hlater, hfirst]
      rfl
    · have hrest : lookup key (c :: changes) (key r) = lookup key changes (key r) := by
        simp [lookup, Ne.symm hr]
      rw [if_neg (by simpa using hr), hrest]

/-- Changing the row with one key adds one at most to a count. -/
theorem Keyed.countP_updateWhere_le (hk : Keyed key rows) (k : κ) (q : α → Bool) :
    (Table.updateWhere (key · = k) f rows).countP q ≤ rows.countP q + 1 := by
  induction rows with
  | nil => exact Nat.zero_le _
  | cons r rows ih =>
    obtain ⟨hnotin, hk⟩ := nodup_cons.1 hk
    rw [Table.updateWhere, map_cons, countP_cons, countP_cons]
    by_cases hr : key r = k
    · have hrest : rows.map (fun r => if decide (key r = k) = true then f r else r) = rows := by
        refine (map_congr_left fun r' hr' => ?_).trans (map_id' rows)
        have hne : key r' ≠ k := fun h => hnotin (hr ▸ h ▸ mem_map_of_mem hr')
        rw [if_neg (by simpa using hne)]
      rw [hrest]
      split <;> split <;> omega
    · have hsame : (if decide (key r = k) = true then f r else r) = r :=
        if_neg (by simpa using hr)
      have hrest := ih hk
      rw [Table.updateWhere] at hrest
      rw [hsame]
      omega

/-! ### Removal -/

@[simp] theorem mem_deleteWhere : r ∈ deleteWhere p rows ↔ r ∈ rows ∧ ¬ p r := by
  simp [deleteWhere]

omit [DecidableEq κ] in
theorem Keyed.deleteWhere (hk : Keyed key rows) : Keyed key (deleteWhere p rows) :=
  hk.sublist (filter_sublist.map key)

/-- A lookup among the rows whose keys meet a condition. -/
theorem lookup_filter_key (q : κ → Bool) (k : κ) :
    lookup key (rows.filter fun r => q (key r)) k = if q k then lookup key rows k else none := by
  rw [lookup, find?_filter]
  split
  case isTrue hk =>
    refine congrArg (List.find? · rows) (funext fun r => ?_)
    by_cases hr : key r = k <;> simp [hr, hk]
  case isFalse hk =>
    refine find?_eq_none.2 fun r _ => ?_
    by_cases hr : key r = k <;> simp [hr, hk]

theorem lookup_deleteWhere_key (k₀ k : κ) :
    lookup key (deleteWhere (key · = k₀) rows) k = if k = k₀ then none else lookup key rows k := by
  refine (lookup_filter_key (fun k => !decide (k = k₀)) k).trans ?_
  by_cases hk : k = k₀ <;> simp [hk]

end Table
