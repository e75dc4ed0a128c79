import Mathlib.Data.List.Sort
import Mathlib.Order.Basic

/-!
# Lists with a key

A stable sort by a key in a linear order, the neighbour of an element in a sorted list, and the
search for a key that occurs once.

* `List.sortByKey` : the sort; `List.pairwise_sortByKey` says it is ordered.
* `List.follower` : the element right after the first one a test selects.
* `List.follower_le` : in a sorted list the follower of an element is not past any later element.
* `List.filter_key_le` : in a sorted list the elements up to one of them are a prefix.
* `List.perm_cons_filter` : taking the element with a key out of a list of distinct keys.
* `List.find?_key` : searching a list of distinct keys for the key of one of its elements.
-/

namespace List

variable {α κ : Type*} [LinearOrder κ] {key : α → κ}

/-- Sort by a key; elements of one key keep their order. -/
def sortByKey (key : α → κ) (l : List α) : List α := l.insertionSort fun a b => key a ≤ key b

theorem sortByKey_perm (key : α → κ) (l : List α) : (l.sortByKey key).Perm l :=
  perm_insertionSort _ l

variable {l : List α} {a : α}

@[simp] theorem mem_sortByKey : a ∈ l.sortByKey key ↔ a ∈ l :=
  (sortByKey_perm key l).mem_iff

theorem pairwise_sortByKey (key : α → κ) (l : List α) :
    (l.sortByKey key).Pairwise fun a b => key a ≤ key b := by
  exact pairwise_insertionSort _ l

/-- The element right after the first one that `p` selects. -/
def follower (p : α → Bool) : List α → Option α
  | [] => none
  | a :: l => if p a then l.head? else follower p l

/-- **The follower is the nearest.**  When `p` selects only `a` in a sorted list that holds an
element with a larger key, `a` has a follower, and its key lies between the two. -/
theorem follower_le {p : α → Bool} {b : α} (hl : l.Pairwise fun a b => key a ≤ key b) (ha : a ∈ l)
    (hp : ∀ c ∈ l, p c = true ↔ c = a) (hb : b ∈ l) (hlt : key a < key b) :
    ∃ c ∈ l, l.follower p = some c ∧ key a ≤ key c ∧ key c ≤ key b := by
  induction l with
  | nil => cases ha
  | cons x l ih =>
    obtain ⟨hx, hl⟩ := pairwise_cons.1 hl
    by_cases hpx : p x = true
    · -- the head is `a`, so `b` is in the tail, at or behind the tail's head
      obtain rfl := (hp x mem_cons_self).1 hpx
      have hb : b ∈ l := (mem_cons.1 hb).resolve_left (by rintro rfl; exact lt_irrefl _ hlt)
      cases l with
      | nil => cases hb
      | cons c l =>
        refine ⟨c, by simp, by rw [follower, if_pos hpx]; rfl, hx c mem_cons_self, ?_⟩
        rcases mem_cons.1 hb with rfl | hb
        · exact le_rfl
        · exact (pairwise_cons.1 hl).1 b hb
    · have hax : a ≠ x := by
        rintro rfl
        exact hpx ((hp a mem_cons_self).2 rfl)
      have ha' : a ∈ l := (mem_cons.1 ha).resolve_left hax
      have hb : b ∈ l := (mem_cons.1 hb).resolve_left (by
        rintro rfl
        exact absurd (hx a ha') (not_le.2 hlt))
      obtain ⟨c, hc, hfollow, h₁, h₂⟩ :=
        ih hl ha' (fun c hc => hp c (mem_cons_of_mem _ hc)) hb
      exact ⟨c, mem_cons_of_mem _ hc, by rw [follower, if_neg hpx, hfollow], h₁, h₂⟩

/-- In a strictly sorted list the elements with keys up to that of entry `k` are the first ones. -/
theorem filter_key_le {k : ℕ} (hl : l.Pairwise fun a b => key a < key b) (ha : l[k]? = some a) :
    l.filter (fun b => key b ≤ key a) = l.take (k + 1) := by
  induction l generalizing k with
  | nil => simp at ha
  | cons x l ih =>
    obtain ⟨hx, hl⟩ := pairwise_cons.1 hl
    cases k with
    | zero =>
      obtain rfl : x = a := by simpa using ha
      have hrest : l.filter (fun b => key b ≤ key x) = [] :=
        filter_eq_nil_iff.2 fun b hb => by simpa using hx b hb
      simp [hrest]
    | succ k =>
      have hxa : key x ≤ key a := (hx a (mem_of_getElem? ha)).le
      rw [filter_cons_of_pos (by simpa using hxa), ih hl ha, take_succ_cons]

/-- In a list of distinct keys the search for an element's key finds the element. -/
theorem find?_key {β : Type*} [DecidableEq β] {f : α → β} (hl : (l.map f).Nodup) (ha : a ∈ l) :
    l.find? (fun b => f b = f a) = some a := by
  induction l with
  | nil => cases ha
  | cons b l ih =>
    obtain ⟨hb, hl⟩ := nodup_cons.1 hl
    rcases mem_cons.1 ha with rfl | ha
    · simp
    · have hne : f b ≠ f a := fun h => hb (h ▸ mem_map_of_mem ha)
      rw [find?_cons_of_neg (by simpa using hne), ih hl ha]

/-- Taking the element with a key out of a list of distinct keys. -/
theorem perm_cons_filter {β : Type*} [DecidableEq β] {f : α → β} {k : β} (hl : (l.map f).Nodup)
    (ha : l.find? (fun b => f b = k) = some a) : l.Perm (a :: l.filter fun b => f b ≠ k) := by
  induction l with
  | nil => cases ha
  | cons b l ih =>
    obtain ⟨hb, hl⟩ := nodup_cons.1 hl
    by_cases hk : f b = k
    · obtain rfl : b = a := by simpa [hk] using ha
      have hrest : (l.filter fun c => f c ≠ k) = l := by
        refine filter_eq_self.2 fun c hc => ?_
        have hne : f c ≠ k := fun h => hb (hk ▸ h ▸ mem_map_of_mem hc)
        simpa using hne
      rw [filter_cons_of_neg (by simpa using hk), hrest]
    · rw [find?_cons_of_neg (by simpa using hk)] at ha
      rw [filter_cons_of_pos (by simpa using hk)]
      exact ((ih hl ha).cons b).trans (.swap _ _ _)

end List
