import Gears.Lib.Keyed
import Mathlib.Data.List.Dedup

/-!
# Windows of ascending lists

A list is ascending when its keys are strictly increasing.  The elements with keys in `(a, b]` form
a window of it.

* `List.Ascending` : strictly increasing keys.
* `List.window` : the elements with keys in `(a, b]`; neighbouring windows join.
* `List.Ascending.eq_of_mem_iff` : an ascending list is determined by its elements.
* `List.dedupByKey` : neighbours with one key become one; a sorted list becomes ascending.
-/

namespace List

variable {α κ : Type*} [LinearOrder κ] {key : α → κ} {l l' : List α} {a b c : κ}

/-- The keys are strictly increasing. -/
def Ascending (key : α → κ) (l : List α) : Prop := l.Pairwise fun x y => key x < key y

instance : Decidable (l.Ascending key) :=
  inferInstanceAs (Decidable (l.Pairwise fun x y => key x < key y))

/-- The elements with keys in `(a, b]`. -/
def window (key : α → κ) (a b : κ) (l : List α) : List α :=
  l.filter fun x => a < key x ∧ key x ≤ b

theorem mem_window {x : α} : x ∈ l.window key a b ↔ x ∈ l ∧ a < key x ∧ key x ≤ b := by
  simp [window]

section

variable (hl : l.Ascending key)
include hl

theorem Ascending.filter (p : α → Bool) : (l.filter p).Ascending key :=
  Pairwise.filter p hl

theorem Ascending.sublist (h : l'.Sublist l) : l'.Ascending key :=
  Pairwise.sublist h hl

/-- In an ascending list a key tells the element. -/
theorem Ascending.eq_of_key {x y : α} (hx : x ∈ l) (hy : y ∈ l) (h : key x = key y) : x = y :=
  inj_on_of_nodup_map (pairwise_map.2 (hl.imp fun hlt => hlt.ne)) hx hy h

/-- An ascending list is determined by its elements. -/
theorem Ascending.eq_of_mem_iff (hl' : l'.Ascending key) (h : ∀ x, x ∈ l ↔ x ∈ l') : l = l' := by
  induction l generalizing l' with
  | nil => exact (eq_nil_iff_forall_not_mem.2 fun x hx => by simpa using (h x).2 hx).symm
  | cons x l ih =>
    obtain ⟨hx, hl⟩ := pairwise_cons.1 hl
    cases l' with
    | nil => simpa using (h x).1 mem_cons_self
    | cons y l' =>
      obtain ⟨hy, hrest'⟩ := pairwise_cons.1 hl'
      -- the heads have the least keys, so they are the same element
      have hxy : x = y := by
        rcases mem_cons.1 ((h x).1 mem_cons_self) with rfl | hmem
        · rfl
        · rcases mem_cons.1 ((h y).2 mem_cons_self) with rfl | hmem'
          · rfl
          · exact absurd (hy x hmem) (hx y hmem').asymm
      subst hxy
      have hrest : ∀ z, z ∈ l ↔ z ∈ l' := by
        intro z
        have hz := h z
        rw [mem_cons, mem_cons] at hz
        constructor
        · intro hmem
          rcases hz.1 (.inr hmem) with rfl | hmem'
          · exact absurd (hx z hmem) (lt_irrefl _)
          · exact hmem'
        · intro hmem
          rcases hz.2 (.inr hmem) with rfl | hmem'
          · exact absurd (hy z hmem) (lt_irrefl _)
          · exact hmem'
      rw [ih hl hrest' hrest]

theorem window_append (hab : a ≤ b) (hbc : b ≤ c) :
    l.window key a b ++ l.window key b c = l.window key a c := by
  have happ : (l.window key a b ++ l.window key b c).Ascending key := by
    refine pairwise_append.2 ⟨hl.filter _, hl.filter _, fun x hx y hy => ?_⟩
    exact (mem_window.1 hx).2.2.trans_lt (mem_window.1 hy).2.1
  have hjoined : (l.window key a c).Ascending key := hl.filter _
  refine happ.eq_of_mem_iff hjoined fun x => ?_
  rw [mem_append, mem_window, mem_window, mem_window]
  constructor
  · rintro (⟨hx, h₁, h₂⟩ | ⟨hx, h₁, h₂⟩)
    · exact ⟨hx, h₁, h₂.trans hbc⟩
    · exact ⟨hx, hab.trans_lt h₁, h₂⟩
  · rintro ⟨hx, h₁, h₂⟩
    rcases le_or_gt (key x) b with h | h
    · exact .inl ⟨hx, h₁, h⟩
    · exact .inr ⟨hx, h, h₂⟩

end

theorem window_self : l.window key a a = [] :=
  filter_eq_nil_iff.2 fun x _ => by simp

/-- What is left of an ascending list after its first elements up to a key. -/
theorem Ascending.drop_takeWhile (hl : l.Ascending key) (a : κ) :
    l.drop (l.takeWhile fun x => key x ≤ a).length = l.filter fun x => a < key x := by
  induction l with
  | nil => rfl
  | cons x l ih =>
    obtain ⟨hx, hl⟩ := pairwise_cons.1 hl
    by_cases h : key x ≤ a
    · simpa [h] using ih hl
    · have hall : ∀ y ∈ l, a < key y := fun y hy => (not_le.1 h).trans (hx y hy)
      have hrest : (l.filter fun y => a < key y) = l :=
        filter_eq_self.2 fun y hy => by simpa using hall y hy
      simp [not_le.1 h, hrest]

/-- A prefix that passes a test is within the longest one. -/
theorem le_length_takeWhile {p : α → Bool} {n : ℕ} (hn : n ≤ l.length)
    (h : ∀ x ∈ l.take n, p x) : n ≤ (l.takeWhile p).length := by
  induction l generalizing n with
  | nil => simpa using hn
  | cons x l ih =>
    cases n with
    | zero => exact Nat.zero_le _
    | succ n =>
      rw [take_succ_cons, forall_mem_cons] at h
      rw [takeWhile_cons, if_pos h.1]
      exact Nat.succ_le_succ (ih (Nat.le_of_succ_le_succ hn) h.2)

/-! ### Removing repeats -/

/-- Of neighbours with one key keep the first. -/
def dedupByKey (key : α → κ) : List α → List α
  | [] => []
  | x :: l =>
    match dedupByKey key l with
    | [] => [x]
    | y :: rest => if key x = key y then x :: rest else x :: y :: rest

theorem mem_of_mem_dedupByKey {z : α} (h : z ∈ dedupByKey key l) : z ∈ l := by
  induction l with
  | nil => exact h
  | cons x l ih =>
    rw [dedupByKey] at h
    split at h
    · exact mem_cons.2 (.inl (mem_singleton.1 h))
    · rename_i y rest heq
      rw [heq] at ih
      rw [mem_cons]
      split at h
      · exact (mem_cons.1 h).imp_right fun hz => ih (mem_cons_of_mem _ hz)
      · exact (mem_cons.1 h).imp_right ih

/-- Where a key tells the element, nothing is lost. -/
theorem mem_dedupByKey (hinj : ∀ x ∈ l, ∀ y ∈ l, key x = key y → x = y) {z : α} :
    z ∈ dedupByKey key l ↔ z ∈ l := by
  induction l with
  | nil => simp [dedupByKey]
  | cons x l ih =>
    have hrest := ih fun a ha b hb => hinj a (mem_cons_of_mem _ ha) b (mem_cons_of_mem _ hb)
    rw [dedupByKey, mem_cons, ← hrest]
    split
    · rename_i heq
      rw [heq]
      simp
    · rename_i y rest heq
      rw [heq] at hrest ⊢
      split
      · -- the head of the rest is the same element
        rename_i hxy
        have hy : y ∈ l := mem_of_mem_dedupByKey (heq ▸ mem_cons_self)
        obtain rfl := hinj x mem_cons_self y (mem_cons_of_mem _ hy) hxy
        simp
      · simp

theorem ascending_dedupByKey (hl : l.Pairwise fun x y => key x ≤ key y) :
    (dedupByKey key l).Ascending key := by
  induction l with
  | nil => exact .nil
  | cons x l ih =>
    obtain ⟨hx, hl⟩ := pairwise_cons.1 hl
    have hle : ∀ y ∈ dedupByKey key l, key x ≤ key y := fun y hy => hx y (mem_of_mem_dedupByKey hy)
    have hrest := ih hl
    rw [dedupByKey]
    split
    · exact pairwise_singleton _ _
    · rename_i y rest heq
      rw [heq] at hrest hle
      obtain ⟨hy, -⟩ := pairwise_cons.1 hrest
      split
      · rename_i hxy
        exact pairwise_cons.2 ⟨fun z hz => hxy ▸ hy z hz, (pairwise_cons.1 hrest).2⟩
      · rename_i hxy
        have hlt : key x < key y := lt_of_le_of_ne (hle y mem_cons_self) hxy
        refine pairwise_cons.2 ⟨forall_mem_cons.2 ⟨hlt, fun z hz => hlt.trans (hy z hz)⟩, hrest⟩

end List
