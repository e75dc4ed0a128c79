import Mathlib

/-!
# Weighted tallies of lists

* `List.tally` : the total weight of the elements that a test selects.
* `List.tally_map` : the tally of a mapped list.
* `List.tally_split` : a tally splits along a second test.
-/

namespace List

variable {α β : Type*} {p q : α → Bool} {w : α → ℕ} {l : List α}

/-- The total weight of the elements that `p` selects. -/
def tally (p : α → Bool) (w : α → ℕ) (l : List α) : ℕ := ((l.filter p).map w).sum

@[simp] theorem tally_nil : tally p w [] = 0 := rfl

@[simp] theorem tally_cons {a : α} :
    tally p w (a :: l) = (if p a then w a else 0) + tally p w l := by
  unfold tally
  cases h : p a <;> simp [h]

@[simp] theorem tally_append {l' : List α} : tally p w (l ++ l') = tally p w l + tally p w l' := by
  simp [tally]

theorem tally_congr {w' : α → ℕ} (hp : ∀ a ∈ l, p a = q a) (hw : ∀ a ∈ l, p a → w a = w' a) :
    tally p w l = tally q w' l := by
  induction l with
  | nil => rfl
  | cons a l ih =>
    rw [tally_cons, tally_cons, ih (fun b hb => hp b (mem_cons_of_mem _ hb))
      fun b hb => hw b (mem_cons_of_mem _ hb), ← hp a mem_cons_self]
    split
    · rename_i h
      rw [hw a mem_cons_self h]
    · rfl

theorem tally_map {f : α → β} {p : β → Bool} {w : β → ℕ} :
    tally p w (l.map f) = tally (fun a => p (f a)) (fun a => w (f a)) l := by
  induction l with
  | nil => rfl
  | cons a l ih => rw [map_cons, tally_cons, tally_cons, ih]

theorem tally_split (q : α → Bool) :
    tally p w l = tally (fun a => p a && q a) w l + tally (fun a => p a && !q a) w l := by
  induction l with
  | nil => rfl
  | cons a l ih =>
    rw [tally_cons, tally_cons, tally_cons]
    cases p a <;> cases q a <;> simp <;> omega

theorem tally_eq_zero (h : ∀ a ∈ l, p a → w a = 0) : tally p w l = 0 := by
  induction l with
  | nil => rfl
  | cons a l ih =>
    rw [tally_cons, ih fun b hb => h b (mem_cons_of_mem _ hb)]
    split
    · rename_i hp
      rw [h a mem_cons_self hp]
    · rfl

theorem tally_filter : tally p w (l.filter q) = tally (fun a => p a && q a) w l := by
  rw [tally, filter_filter, tally]

theorem tally_perm {l' : List α} (h : l.Perm l') : tally p w l = tally p w l' :=
  ((h.filter p).map w).sum_eq

theorem le_tally {a : α} (ha : a ∈ l) (hp : p a) : w a ≤ tally p w l := by
  induction l with
  | nil => cases ha
  | cons b l ih =>
    rw [tally_cons]
    rcases mem_cons.1 ha with rfl | ha
    · rw [if_pos hp]
      omega
    · exact (ih ha).trans (Nat.le_add_left _ _)

/-- The tally of a test that selects one element of a list of distinct keys. -/
theorem tally_of_unique {κ : Type*} {key : α → κ} (hl : (l.map key).Nodup) {a : α} (ha : a ∈ l)
    (hp : p a) (hq : ∀ b ∈ l, p b → key b = key a) : tally p w l = w a := by
  induction l with
  | nil => cases ha
  | cons b l ih =>
    obtain ⟨hb, hl⟩ := nodup_cons.1 hl
    rw [tally_cons]
    rcases mem_cons.1 ha with rfl | ha
    · rw [if_pos hp, tally_eq_zero fun c hc hpc => ?_, Nat.add_zero]
      exact absurd (hq c (mem_cons_of_mem _ hc) hpc ▸ mem_map_of_mem hc) hb
    · rw [if_neg, ih hl ha fun c hc => hq c (mem_cons_of_mem _ hc), Nat.zero_add]
      intro hpb
      exact hb (hq b mem_cons_self hpb ▸ mem_map_of_mem ha)

end List
