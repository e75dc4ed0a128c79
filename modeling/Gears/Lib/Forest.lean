import Mathlib.Data.List.Nodup
import Mathlib.Data.List.Perm.Subperm
import Mathlib.Data.Set.Basic
import Mathlib.Tactic.WLOG
import Mathlib.Logic.Function.Basic

/-!
# Forests given by parent links

A forest is a function that gives each node its parent, if it has one.  All that is asked about it
is asked in terms of walks along the links.

* `Forest.up` : the node reached by a number of links.
* `Forest.Acyclic` : no walk comes back; then a walk is determined by its ends
  (`Forest.Acyclic.eq_of_up`).
* `Forest.exists_up_root` : walks along which a rank falls reach a node without a parent.
* `Forest.up_congr` : walks stay inside a set that the links do not leave.
* `Forest.up_update_iff` : the walks after one node is given another parent.
* `Forest.Crosses` : some node strictly below the end of a walk meets a condition.
-/

namespace Forest

open List

variable {α : Type*} {parent parent' : α → Option α} {x a g : α} {m n k : ℕ}

/-- The node reached by a number of links. -/
def up (parent : α → Option α) : ℕ → α → Option α
  | 0, x => some x
  | n + 1, x => (parent x).bind (up parent n)

theorem up_succ (n : ℕ) (x : α) : up parent (n + 1) x = (parent x).bind (up parent n) := rfl

theorem up_add (m n : ℕ) (x : α) : up parent (m + n) x = (up parent m x).bind (up parent n) := by
  induction m generalizing x with
  | zero => simp [up]
  | succ m ih =>
    rw [Nat.succ_add, up_succ, up_succ, Option.bind_assoc]
    exact congrArg _ (funext ih)

theorem up_succ_eq_some_iff :
    up parent (n + 1) x = some a ↔ ∃ p, parent x = some p ∧ up parent n p = some a := by
  rw [up_succ, Option.bind_eq_some_iff]

theorem exists_up_of_le (h : up parent n x = some a) (hle : m ≤ n) :
    ∃ y, up parent m x = some y ∧ up parent (n - m) y = some a := by
  rw [← Nat.add_sub_cancel' hle, up_add, Option.bind_eq_some_iff] at h
  exact h

/-! ### Walks that do not come back -/

/-- No walk comes back to where it began. -/
def Acyclic (parent : α → Option α) : Prop := ∀ n x, up parent (n + 1) x ≠ some x

theorem Acyclic.eq_of_up (h : Acyclic parent) (hm : up parent m x = some a)
    (hn : up parent n x = some a) : m = n := by
  wlog hle : m ≤ n generalizing m n
  · exact (this hn hm (Nat.le_of_not_le hle)).symm
  obtain ⟨y, hy, hrest⟩ := exists_up_of_le hn hle
  rw [hm] at hy
  obtain rfl := Option.some.inj hy
  rcases Nat.eq_zero_or_eq_succ_pred (n - m) with hzero | hsucc
  · omega
  · rw [hsucc] at hrest
    exact absurd hrest (h _ _)

/-- A rank that falls along the links rules cycles out. -/
theorem acyclic_of_rank (rank : α → ℕ) (h : ∀ x p, parent x = some p → rank p < rank x) :
    Acyclic parent := by
  have hle : ∀ n x a, up parent n x = some a → rank a + n ≤ rank x := by
    intro n
    induction n with
    | zero =>
      intro x a ha
      obtain rfl := Option.some.inj ha
      exact Nat.le_refl _
    | succ n ih =>
      intro x a ha
      obtain ⟨p, hp, ha⟩ := up_succ_eq_some_iff.1 ha
      have := ih p a ha
      have := h x p hp
      omega
  intro n x hx
  have := hle _ _ _ hx
  omega

/-- A walk passes at most as many nodes as a list that holds them all. -/
theorem Acyclic.lt_length (h : Acyclic parent) {nodes : List α} (ha : up parent n x = some a)
    (hmem : ∀ k ≤ n, ∀ y, up parent k x = some y → y ∈ nodes) : n < nodes.length := by
  have hwalk : ∀ k ∈ List.range (n + 1), ∃ y, up parent k x = some y := by
    intro k hk
    obtain ⟨y, hy, -⟩ := exists_up_of_le ha (Nat.lt_succ_iff.1 (mem_range.1 hk))
    exact ⟨y, hy⟩
  let node (k : ℕ) : α := (up parent k x).getD x
  have hnode : ∀ k ∈ List.range (n + 1), up parent k x = some (node k) := by
    intro k hk
    obtain ⟨y, hy⟩ := hwalk k hk
    dsimp only [node]
    rw [hy, Option.getD_some]
  have hnodup : ((List.range (n + 1)).map node).Nodup := by
    refine Nodup.map_on (fun i hi j hj hij => ?_) nodup_range
    exact h.eq_of_up (hnode i hi) (hij ▸ hnode j hj)
  have hsub : (List.range (n + 1)).map node ⊆ nodes := by
    intro y hy
    obtain ⟨k, hk, rfl⟩ := mem_map.1 hy
    exact hmem k (Nat.lt_succ_iff.1 (mem_range.1 hk)) _ (hnode k hk)
  have hle := (hnodup.subperm hsub).length_le
  rw [length_map, length_range] at hle
  exact hle

/-- Links along which a rank falls lead to a node without a parent. -/
theorem exists_up_root (rank : α → ℕ) (h : ∀ x p, parent x = some p → rank p < rank x) (x : α) :
    ∃ n r, up parent n x = some r ∧ parent r = none := by
  induction hk : rank x using Nat.strong_induction_on generalizing x with
  | _ k ih =>
    subst hk
    cases hp : parent x with
    | none => exact ⟨0, x, rfl, hp⟩
    | some p =>
      obtain ⟨n, r, hr, hroot⟩ := ih (rank p) (h x p hp) p rfl
      exact ⟨n + 1, r, up_succ_eq_some_iff.2 ⟨p, hp, hr⟩, hroot⟩

/-! ### Other links -/

variable {s : Set α}

/-- Walks that begin in a set the links do not leave depend only on the links in that set. -/
theorem up_congr (hclosed : ∀ x ∈ s, ∀ p, parent x = some p → p ∈ s)
    (hagree : ∀ x ∈ s, parent' x = parent x) (hx : x ∈ s) (n : ℕ) :
    up parent' n x = up parent n x := by
  induction n generalizing x with
  | zero => rfl
  | succ n ih =>
    rw [up_succ, up_succ, hagree x hx]
    cases hp : parent x with
    | none => rfl
    | some p => exact ih (hclosed x hx p hp)

theorem mem_of_up (hclosed : ∀ x ∈ s, ∀ p, parent x = some p → p ∈ s) (hx : x ∈ s)
    (ha : up parent n x = some a) : a ∈ s := by
  induction n generalizing x with
  | zero => exact Option.some.inj ha ▸ hx
  | succ n ih =>
    obtain ⟨p, hp, ha⟩ := up_succ_eq_some_iff.1 ha
    exact ih (hclosed x hx p hp) ha

theorem up_mono (h : ∀ x p, parent' x = some p → parent x = some p)
    (ha : up parent' n x = some a) : up parent n x = some a := by
  induction n generalizing x with
  | zero => exact ha
  | succ n ih =>
    obtain ⟨p, hp, ha⟩ := up_succ_eq_some_iff.1 ha
    exact up_succ_eq_some_iff.2 ⟨p, h x p hp, ih ha⟩

theorem Acyclic.mono (hacyclic : Acyclic parent)
    (h : ∀ x p, parent' x = some p → parent x = some p) :
    Acyclic parent' := fun n x hx => hacyclic n x (up_mono h hx)

section Update

variable [DecidableEq α] {q : Option α}

/-- A walk that does not meet the node before its end is as before. -/
theorem up_update_of_forall_ne (h : ∀ k < n, up parent k x ≠ some g) :
    up (Function.update parent g q) n x = up parent n x := by
  induction n generalizing x with
  | zero => rfl
  | succ n ih =>
    have hne : x ≠ g := fun hx => h 0 (Nat.succ_pos n) (congrArg some hx)
    rw [up_succ, up_succ, Function.update_of_ne hne]
    cases hp : parent x with
    | none => rfl
    | some p =>
      refine ih fun k hk hup => h (k + 1) (Nat.succ_lt_succ hk) ?_
      rw [up_succ, hp]
      exact hup

/-- Below the node the walk to it is as before. -/
theorem Acyclic.up_update_below (h : Acyclic parent) (hk : up parent k x = some g) :
    up (Function.update parent g q) k x = some g := by
  rw [up_update_of_forall_ne, hk]
  intro j hj hup
  exact absurd (h.eq_of_up hup hk) (Nat.ne_of_lt hj)

/-- **Another parent.**  When the node is not above its new parent, the walks are those that do not
leave through the node, and those through the node and up from its new parent. -/
theorem Acyclic.up_update_iff (h : Acyclic parent) (hq : ∀ p ∈ q, ∀ k, up parent k p ≠ some g) :
    up (Function.update parent g q) n x = some a ↔
      (up parent n x = some a ∧ ∀ k < n, up parent k x ≠ some g) ∨
        ∃ k m p, up parent k x = some g ∧ q = some p ∧ up parent m p = some a ∧ n = k + 1 + m := by
  by_cases hthrough : ∃ k < n, up parent k x = some g
  · obtain ⟨k, hk, hup⟩ := hthrough
    have hn : up (Function.update parent g q) n x = q.bind fun p => up parent (n - (k + 1)) p := by
      rw [show n = k + (n - (k + 1) + 1) by omega, up_add, h.up_update_below hup, Option.bind_some,
        up_succ, Function.update_self, show k + (n - (k + 1) + 1) - (k + 1) = n - (k + 1) by omega]
      cases hq' : q with
      | none => rfl
      | some p =>
        exact up_update_of_forall_ne fun j _ => hq p hq' j
    rw [hn, Option.bind_eq_some_iff]
    constructor
    · rintro ⟨p, hp, ha⟩
      exact .inr ⟨k, n - (k + 1), p, hup, hp, ha, by omega⟩
    · rintro (⟨-, hnot⟩ | ⟨k', m, p, hup', hp, ha, hn'⟩)
      · exact absurd hup (hnot k hk)
      · obtain rfl := h.eq_of_up hup hup'
        refine ⟨p, hp, ?_⟩
        rwa [show n - (k + 1) = m by omega]
  · rw [up_update_of_forall_ne fun k hk hup => hthrough ⟨k, hk, hup⟩]
    constructor
    · exact fun ha => .inl ⟨ha, fun k hk hup => hthrough ⟨k, hk, hup⟩⟩
    · rintro (⟨ha, -⟩ | ⟨k, m, p, hup, -, -, rfl⟩)
      · exact ha
      · exact absurd ⟨k, by omega, hup⟩ hthrough

theorem Acyclic.update (h : Acyclic parent) (hq : ∀ p ∈ q, ∀ k, up parent k p ≠ some g) :
    Acyclic (Function.update parent g q) := by
  intro n x hx
  rcases (h.up_update_iff hq).1 hx with ⟨hx, -⟩ | ⟨k, m, p, hup, hp, hm, -⟩
  · exact h n x hx
  · refine hq p hp (m + k) ?_
    rw [up_add, hm, Option.bind_some, hup]

end Update

/-! ### Conditions below the end of a walk -/

/-- Some node of a walk before its end meets a condition. -/
def Crosses (parent : α → Option α) (p : α → Prop) (n : ℕ) (x : α) : Prop :=
  ∃ k < n, ∃ y, up parent k x = some y ∧ p y

variable {p : α → Prop}

theorem not_crosses_zero (x : α) : ¬ Crosses parent p 0 x := by
  rintro ⟨k, hk, -⟩
  exact absurd hk (Nat.not_lt_zero k)

theorem crosses_succ_iff {q : α} (hq : parent x = some q) :
    Crosses parent p (n + 1) x ↔ p x ∨ Crosses parent p n q := by
  constructor
  · rintro ⟨k, hk, y, hy, hpy⟩
    cases k with
    | zero => exact .inl (Option.some.inj hy ▸ hpy)
    | succ k =>
      rw [up_succ, hq] at hy
      exact .inr ⟨k, Nat.lt_of_succ_lt_succ hk, y, hy, hpy⟩
  · rintro (hpx | ⟨k, hk, y, hy, hpy⟩)
    · exact ⟨0, Nat.succ_pos n, x, rfl, hpx⟩
    · exact ⟨k + 1, Nat.succ_lt_succ hk, y, by rw [up_succ, hq]; exact hy, hpy⟩

/-- The condition matters on the walk only. -/
theorem crosses_congr_of_up {p' : α → Prop}
    (h : ∀ k < n, ∀ y, up parent k x = some y → (p' y ↔ p y)) :
    Crosses parent p' n x ↔ Crosses parent p n x := by
  refine exists_congr fun k => and_congr_right fun hk => exists_congr fun y => ?_
  exact and_congr_right (h k hk y)

theorem crosses_congr {p' : α → Prop} (hclosed : ∀ x ∈ s, ∀ p, parent x = some p → p ∈ s)
    (hagree : ∀ x ∈ s, parent' x = parent x) (hp : ∀ x ∈ s, p' x ↔ p x) (hx : x ∈ s) (n : ℕ) :
    Crosses parent' p' n x ↔ Crosses parent p n x := by
  refine exists_congr fun k => and_congr_right fun _ => exists_congr fun y => ?_
  rw [up_congr hclosed hagree hx]
  exact and_congr_right fun hy => hp y (mem_of_up hclosed hx hy)

end Forest
