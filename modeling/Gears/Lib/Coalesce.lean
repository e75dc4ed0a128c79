import Gears.Lib.Except
import Mathlib

/-!
# Merging neighbours of one key

`coalesce key merge l` walks over `l` and merges every element into the one before it when the
two have the same key; `merge` may fail.  On a list sorted by key this leaves one element for
each key.

* `coalesce_forall` : what `merge` keeps holds of every element of the result.
* `coalesce_sum` : a quantity that `merge` adds up keeps its total under every key.
* `coalesce_attr` : a quantity that `merge` requires to agree is the one of every merged element.
* `coalesce_strict` : the keys of a coalesced sorted list increase strictly.
* `coalesce_map` : a renaming that commutes with `merge` commutes with `coalesce`.
-/

namespace Gears

open List

variable {α κ ε : Type*} [DecidableEq κ] (key : α → κ) (merge : α → α → Except ε α)

/-- Merge `g` into the last result when the keys agree, else append it.  The results are kept
last first. -/
def mergeLast : List α → α → Except ε (List α)
  | [], g => .ok [g]
  | last :: rest, g =>
    if key last = key g then (merge last g).map (· :: rest) else .ok (g :: last :: rest)

/-- Merge all neighbours of one key. -/
def coalesce (l : List α) : Except ε (List α) :=
  (l.foldlM (mergeLast key merge) []).map List.reverse

variable {key merge}

theorem mergeLast_cases {rs rs' : List α} {g : α} (h : mergeLast key merge rs g = .ok rs') :
    (rs' = g :: rs ∧ ∀ last ∈ rs.head?, key last ≠ key g) ∨ ∃ last rest c, rs = last :: rest ∧
      key last = key g ∧
      merge last g = .ok c ∧ rs' = c :: rest := by
  cases rs with
  | nil => cases h; exact .inl ⟨rfl, by simp⟩
  | cons last rest =>
    simp only [mergeLast] at h
    split_ifs at h with hk
    · cases hm : merge last g with
      | error e => rw [hm] at h; cases h
      | ok c =>
        rw [hm] at h
        cases h
        exact .inr ⟨last, rest, c, rfl, hk, hm, rfl⟩
    · cases h; exact .inl ⟨rfl, by simpa using hk⟩

variable {l r : List α}

/-- What holds of the results after every element holds of the coalesced list. -/
theorem coalesce_induction {P : List α → List α → Prop} (hnil : P [] [])
    (hstep : ∀ l rs g rs', P l rs → mergeLast key merge rs g = .ok rs' → P (l ++ [g]) rs')
    (h : coalesce key merge l = .ok r) : P l r.reverse := by
  unfold coalesce at h
  cases hf : l.foldlM (mergeLast key merge) [] with
  | error e => rw [hf] at h; cases h
  | ok rs =>
    rw [hf] at h
    cases h
    simpa using Except.foldlM_induction hnil hstep hf

/-- What `merge` keeps holds of every merged element. -/
theorem coalesce_forall {Q : α → Prop} (hm : ∀ a b c, Q a → merge a b = .ok c → Q c)
    (hl : ∀ a ∈ l, Q a) (h : coalesce key merge l = .ok r) : ∀ c ∈ r, Q c := by
  have := coalesce_induction (P := fun l rs => (∀ a ∈ l, Q a) → ∀ c ∈ rs, Q c) (by simp) ?_ h hl
  · simpa using this
  · intro l rs g rs' hp hs hl c hc
    have hrs := hp fun a ha => hl a (mem_append_left _ ha)
    rcases mergeLast_cases hs with ⟨rfl, -⟩ | ⟨last, rest, m, rfl, -, hm', rfl⟩
    · rcases mem_cons.1 hc with rfl | hc
      · exact hl c (by simp)
      · exact hrs c hc
    · rcases mem_cons.1 hc with rfl | hc
      · exact hm _ _ _ (hrs last (by simp)) hm'
      · exact hrs c (mem_cons_of_mem _ hc)

/-- The total of `f` over the elements of key `k`. -/
def sumAt {M : Type*} [AddCommMonoid M] (key : α → κ) (f : α → M) (k : κ) (l : List α) : M :=
  ((l.filter fun a => key a = k).map f).sum

section SumAt

variable {M : Type*} [AddCommMonoid M] (f : α → M) (k : κ)

@[simp] theorem sumAt_nil : sumAt key f k [] = 0 := rfl

theorem sumAt_cons (a : α) (l : List α) :
    sumAt key f k (a :: l) = (if key a = k then f a else 0) + sumAt key f k l := by
  unfold sumAt
  by_cases h : key a = k <;> simp [h]

theorem sumAt_append (l l' : List α) :
    sumAt key f k (l ++ l') = sumAt key f k l + sumAt key f k l' := by
  simp [sumAt]

theorem sumAt_perm {l' : List α} (h : l.Perm l') : sumAt key f k l = sumAt key f k l' :=
  ((h.filter _).map f).sum_eq

theorem sumAt_eq_zero (h : ∀ a ∈ l, key a ≠ k) : sumAt key f k l = 0 := by
  unfold sumAt
  rw [filter_eq_nil_iff.2 (by simpa using h)]
  rfl

/-- A key held by one element has that element's quantity. -/
theorem sumAt_of_mem (hl : l.Pairwise fun a b => key a ≠ key b) {a : α} (ha : a ∈ l)
    (hk : key a = k) : sumAt key f k l = f a := by
  induction l with
  | nil => cases ha
  | cons b l ih =>
    obtain ⟨hb, hl⟩ := pairwise_cons.1 hl
    rw [sumAt_cons]
    rcases mem_cons.1 ha with rfl | ha
    · rw [if_pos hk, sumAt_eq_zero f k fun c hc hck => hb c hc (hk.trans hck.symm), add_zero]
    · rw [if_neg fun hbk => hb a ha (hbk.trans hk.symm), zero_add, ih hl ha]

variable {f}

/-- **Totals survive coalescing.** -/
theorem coalesce_sum (hm : ∀ a b c, merge a b = .ok c → key c = key a ∧ f c = f a + f b)
    (h : coalesce key merge l = .ok r) : sumAt key f k r = sumAt key f k l := by
  have := coalesce_induction (P := fun l rs => sumAt key f k rs = sumAt key f k l) rfl ?_ h
  · rw [← this]; exact sumAt_perm f k r.reverse_perm.symm
  · intro l rs g rs' hp hs
    rw [sumAt_append, ← hp, sumAt_cons, sumAt_nil, add_zero]
    rcases mergeLast_cases hs with ⟨rfl, -⟩ | ⟨last, rest, c, rfl, hk, hc, rfl⟩
    · rw [sumAt_cons, add_comm]
    · obtain ⟨hkc, hfc⟩ := hm _ _ _ hc
      rw [sumAt_cons, sumAt_cons, hkc, hfc, hk]
      split_ifs
      · exact add_right_comm _ _ _
      · simp

end SumAt

/-- **Attributes survive coalescing.**  What `merge` requires to agree is shared by an element and
the merged element of its key. -/
theorem coalesce_attr {τ : Type*} {p : α → τ}
    (hm : ∀ a b c, merge a b = .ok c → key c = key a ∧ p c = p a ∧ p b = p a)
    (h : coalesce key merge l = .ok r) : (∀ g ∈ l, ∃ c ∈ r, key c = key g ∧ p c = p g) ∧
      ∀ c ∈ r, ∃ g ∈ l, key g = key c ∧ p g = p c := by
  have := coalesce_induction (P := fun l rs => (∀ g ∈ l, ∃ c ∈ rs, key c = key g ∧ p c = p g) ∧
    ∀ c ∈ rs, ∃ g ∈ l, key g = key c ∧ p g = p c) (by simp) ?_ h
  · simpa using this
  · rintro l rs g rs' ⟨h₁, h₂⟩ hs
    rcases mergeLast_cases hs with ⟨rfl, -⟩ | ⟨last, rest, c, rfl, hk, hc, rfl⟩
    · refine ⟨fun a ha => ?_, fun a ha => ?_⟩
      · rcases List.mem_concat_iff.1 ha with ha | rfl
        · obtain ⟨c, hc, hkp⟩ := h₁ a ha
          exact ⟨c, mem_cons_of_mem _ hc, hkp⟩
        · exact ⟨a, mem_cons_self, rfl, rfl⟩
      · rcases mem_cons.1 ha with rfl | ha
        · exact ⟨a, by simp, rfl, rfl⟩
        · obtain ⟨g', hg', hkp⟩ := h₂ a ha
          exact ⟨g', mem_append_left _ hg', hkp⟩
    · obtain ⟨hkc, hpc, hpg⟩ := hm _ _ _ hc
      refine ⟨fun a ha => ?_, fun a ha => ?_⟩
      · rcases List.mem_concat_iff.1 ha with ha | rfl
        · obtain ⟨c', hc', hk', hp'⟩ := h₁ a ha
          rcases mem_cons.1 hc' with rfl | hc'
          · exact ⟨c, mem_cons_self, hkc.trans hk', hpc.trans hp'⟩
          · exact ⟨c', mem_cons_of_mem _ hc', hk', hp'⟩
        · exact ⟨c, mem_cons_self, hkc.trans hk, hpc.trans hpg.symm⟩
      · rcases mem_cons.1 ha with rfl | ha
        · exact ⟨g, by simp, (hkc.trans hk).symm, hpg.trans hpc.symm⟩
        · obtain ⟨g', hg', hkp⟩ := h₂ a (mem_cons_of_mem _ ha)
          exact ⟨g', mem_append_left _ hg', hkp⟩

/-- **A coalesced sorted list has one element for each key**, in increasing order. -/
theorem coalesce_strict [LinearOrder κ] (hm : ∀ a b c, merge a b = .ok c → key c = key a)
    (hl : l.Pairwise fun a b => key a ≤ key b) (h : coalesce key merge l = .ok r) :
    r.Pairwise fun a b => key a < key b := by
  have := coalesce_induction (P := fun l rs => (l.Pairwise fun a b => key a ≤ key b) →
    (∀ c ∈ rs, ∃ g ∈ l, key g = key c) ∧ rs.Pairwise fun a b => key b < key a) (by simp) ?_ h
  · exact pairwise_reverse.1 (this hl).2
  · intro l rs g rs' hp hs hl
    obtain ⟨hl, -, hg⟩ := pairwise_append.1 hl
    obtain ⟨hmem, hrs⟩ := hp hl
    have hle : ∀ c ∈ rs, key c ≤ key g := by
      intro c hc
      obtain ⟨g', hg', hk⟩ := hmem c hc
      exact hk ▸ hg g' hg' g (by simp)
    rcases mergeLast_cases hs with ⟨rfl, hne⟩ | ⟨last, rest, c, rfl, hk, hc, rfl⟩
    · refine ⟨fun c hc => ?_, pairwise_cons.2 ⟨fun c hc => ?_, hrs⟩⟩
      · rcases mem_cons.1 hc with rfl | hc
        · exact ⟨c, by simp, rfl⟩
        · obtain ⟨g', hg', hk⟩ := hmem c hc
          exact ⟨g', mem_append_left _ hg', hk⟩
      · -- the last result has another key, and the earlier ones lie below it
        cases rs with
        | nil => cases hc
        | cons last rest =>
          have hlast : key last < key g := lt_of_le_of_ne (hle last (by simp)) (hne last (by simp))
          rcases mem_cons.1 hc with rfl | hc
          · exact hlast
          · exact (rel_of_pairwise_cons hrs hc).trans hlast
    · have hkc := hm _ _ _ hc
      obtain ⟨hlast, hrest⟩ := pairwise_cons.1 hrs
      refine ⟨fun a ha => ?_, pairwise_cons.2 ⟨fun a ha => hkc ▸ hlast a ha, hrest⟩⟩
      rcases mem_cons.1 ha with rfl | ha
      · exact ⟨g, by simp, (hkc.trans hk).symm⟩
      · obtain ⟨g', hg', hk'⟩ := hmem a (mem_cons_of_mem _ ha)
        exact ⟨g', mem_append_left _ hg', hk'⟩

/-- **Renaming commutes with coalescing.** -/
theorem coalesce_map {β : Type*} {key' : β → κ} {merge' : β → β → Except ε β} (φ : α → β)
    (hk : ∀ a, key' (φ a) = key a) (hm : ∀ a b, merge' (φ a) (φ b) = (merge a b).map φ)
    (l : List α) : coalesce key' merge' (l.map φ) = (coalesce key merge l).map (List.map φ) := by
  have hs : ∀ rs g, mergeLast key' merge' (rs.map φ) (φ g) =
      (mergeLast key merge rs g).map (List.map φ) := by
    intro rs g
    cases rs with
    | nil => rfl
    | cons last rest =>
      simp only [map_cons, mergeLast, hk, hm]
      split
      · cases merge last g <;> rfl
      · rfl
  have run := Except.foldlM_map (List.map φ) φ hs l []
  rw [map_nil] at run
  unfold coalesce
  rw [run]
  cases l.foldlM (mergeLast key merge) [] with
  | error e => rfl
  | ok rs => simp [Except.map]

end Gears
