import Mathlib

/-!
# Sorting by a comparison

A list whose elements a comparison tells apart has one sorted form, in which the elements after one
of them are those the comparison puts after it.

* `Keyset.sorted` : the sort.
* `Keyset.sorted_eq` : a strictly ordered list is the sorted form of its rearrangements.
* `Keyset.filter_split` : the elements after one of them, and before it.
-/

namespace Keyset

open List

variable {α : Type*} {cmp : α → α → Ordering} {l s : List α}

/-- Sort by a comparison. -/
def sorted (cmp : α → α → Ordering) (l : List α) : List α :=
  l.insertionSort fun a b => (cmp a b).isLE

/-- No two elements compare as equal. -/
def Distinct (cmp : α → α → Ordering) (l : List α) : Prop := l.Pairwise fun a b => cmp a b ≠ .eq

/-- The elements come in strict order. -/
def Increasing (cmp : α → α → Ordering) (l : List α) : Prop := l.Pairwise fun a b => cmp a b = .lt

theorem sorted_perm : (sorted cmp l).Perm l := perm_insertionSort _ l

theorem Increasing.distinct (h : Increasing cmp s) : Distinct cmp s :=
  h.imp fun hlt heq => by cases hlt.symm.trans heq

theorem Distinct.perm [Std.OrientedCmp cmp] (h : Distinct cmp l) (hp : l.Perm s) : Distinct cmp s :=
  hp.pairwise h fun hab hba => hab (Std.OrientedCmp.eq_symm hba)

variable [Std.TransCmp cmp]

theorem increasing_sorted (h : Distinct cmp l) : Increasing cmp (sorted cmp l) := by
  have : Std.Total fun a b : α => (cmp a b).isLE = true := by
    refine ⟨fun a b => ?_⟩
    rw [show cmp b a = (cmp a b).swap from Std.OrientedCmp.eq_swap]
    cases cmp a b <;> simp
  have : IsTrans α fun a b : α => (cmp a b).isLE = true := ⟨fun _ _ _ => Std.TransCmp.isLE_trans⟩
  have hle := pairwise_insertionSort (fun a b : α => (cmp a b).isLE = true) l
  refine (hle.and (h.perm sorted_perm.symm)).imp fun {a b} hab => ?_
  cases hcmp : cmp a b with
  | lt => rfl
  | eq => exact absurd hcmp hab.2
  | gt => simp [hcmp] at hab

/-- A strictly ordered list is the sorted form of its rearrangements. -/
theorem sorted_eq (hs : Increasing cmp s) (hp : l.Perm s) : sorted cmp l = s := by
  have hl := increasing_sorted (hs.distinct.perm hp.symm)
  refine (sorted_perm.trans hp).eq_of_pairwise (fun a b _ _ hab hba => ?_) hl hs
  cases (Std.OrientedCmp.gt_of_lt hab).symm.trans hba

theorem sorted_filter (p : α → Bool) (h : Distinct cmp l) :
    sorted cmp (l.filter p) = (sorted cmp l).filter p :=
  sorted_eq ((increasing_sorted h).filter p) (sorted_perm.symm.filter p)

theorem sorted_swap (h : Distinct cmp l) : sorted (fun a b => cmp b a) l = (sorted cmp l).reverse :=
  have : Std.TransCmp fun a b => cmp b a := .opposite
  sorted_eq (pairwise_reverse.2 (increasing_sorted h))
    (sorted_perm.symm.trans (reverse_perm _).symm)

/-- The elements on either side of one of a strictly ordered list. -/
theorem filter_split {pre post : List α} {a : α} (h : Increasing cmp (pre ++ a :: post)) :
    (pre ++ a :: post).filter (fun b => cmp a b = .lt) = post ∧
      (pre ++ a :: post).filter (fun b => cmp b a = .lt) = pre := by
  obtain ⟨-, hafter, hbefore⟩ := pairwise_append.1 h
  have hpre : ∀ b ∈ pre, cmp b a = .lt := fun b hb => hbefore b hb a mem_cons_self
  have hpost : ∀ b ∈ post, cmp a b = .lt := (pairwise_cons.1 hafter).1
  have hself : cmp a a = .eq := Std.ReflCmp.compare_self
  constructor
  · rw [filter_append, filter_cons_of_neg (by simp [hself]), filter_eq_nil_iff.2]
    · simpa using hpost
    · intro b hb
      simp [Std.OrientedCmp.gt_of_lt (hpre b hb)]
  · rw [filter_append, filter_cons_of_neg (by simp [hself]), filter_eq_self.2,
      filter_eq_nil_iff.2, append_nil]
    · intro b hb
      simp [Std.OrientedCmp.gt_of_lt (hpost b hb)]
    · simpa using hpre

end Keyset
