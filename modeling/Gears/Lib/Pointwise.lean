import Gears.Lib.Except

/-!
# Lists changed element by element

`List.Forall₂ R l l'` says that `l'` comes from `l` by changing each element as `R` allows.

* `List.forall₂_set`, `List.forall₂_modify`, `List.forall₂_map_self` : how such changes arise.
* `List.Forall₂.filterMap_eq`, `List.Forall₂.map_eq`, `List.Forall₂.pairwise` : what they keep.
-/

namespace List

variable {j : ℕ}
  {α β : Type*} {R : α → α → Prop} {l l' : List α}

theorem forall₂_set (hrefl : ∀ a, R a a) {a b : α} (ha : l[j]? = some a) (hab : R a b) :
    Forall₂ R l (l.set j b) := by
  induction l generalizing j with
  | nil => simp at ha
  | cons x l ih =>
    cases j with
    | zero =>
      obtain rfl : x = a := by simpa using ha
      exact .cons hab (forall₂_same.2 fun _ _ => hrefl _)
    | succ j => exact .cons (hrefl x) (ih (by simpa using ha))

theorem forall₂_modify (hrefl : ∀ a, R a a) {f : α → α} (hf : ∀ a, l[j]? = some a → R a (f a)) :
    Forall₂ R l (l.modify j f) := by
  induction l generalizing j with
  | nil => simp
  | cons x l ih =>
    cases j with
    | zero => exact .cons (hf x rfl) (forall₂_same.2 fun _ _ => hrefl _)
    | succ j => exact .cons (hrefl x) (ih fun a ha => hf a (by simpa using ha))

theorem forall₂_map_self {f : α → α} (hf : ∀ a ∈ l, R a (f a)) : Forall₂ R l (l.map f) := by
  rw [forall₂_map_right_iff, forall₂_same]
  exact hf

theorem filterMap_ite_some (l : List α) (p : α → Bool) (f : α → β) :
    l.filterMap (fun a => if p a then some (f a) else none) = (l.filter p).map f := by
  induction l with
  | nil => rfl
  | cons a l ih => by_cases hp : p a <;> simp [hp, ih]

namespace Forall₂

section Between

variable {S : α → β → Prop} {m : List β} (h : Forall₂ S l m)

include h

theorem exists_of_mem_right {b : β} (hb : b ∈ m) : ∃ a ∈ l, S a b :=
  h.flip.exists_of_mem_left hb

theorem exists_getElem? {a : α} (ha : l[j]? = some a) : ∃ b, m[j]? = some b ∧ S a b := by
  induction h generalizing j with
  | nil => simp at ha
  | cons hab _ ih =>
    cases j with
    | zero =>
      obtain rfl := by simpa using ha
      exact ⟨_, rfl, hab⟩
    | succ j => simpa using ih (by simpa using ha)

theorem rel_of_getElem? {a : α} {b : β} (ha : l[j]? = some a) (hb : m[j]? = some b) : S a b := by
  obtain ⟨b', hb', hab⟩ := h.exists_getElem? ha
  rwa [Option.some.inj (hb.symm.trans hb')]

theorem zipWith_right {γ : Type*} {T : α → γ → Prop} {f : α → β → γ}
    (hT : ∀ a b, S a b → T a (f a b)) : Forall₂ T l (List.zipWith f l m) := by
  induction h with
  | nil => exact .nil
  | cons hab _ ih => exact .cons (hT _ _ hab) ih

end Between

variable (h : Forall₂ R l l')

include h

variable {S : α → α → Prop}

theorem imp_of_mem (hS : ∀ a ∈ l, ∀ b, R a b → S a b) : Forall₂ S l l' := by
  induction h with
  | nil => exact .nil
  | cons hab _ ih =>
    exact .cons (hS _ mem_cons_self _ hab) (ih fun a ha => hS a (mem_cons_of_mem _ ha))

theorem comp {T : α → α → Prop} {l'' : List α} (h' : Forall₂ S l' l'')
    (hT : ∀ a b c, R a b → S b c → T a c) : Forall₂ T l l'' := by
  induction h generalizing l'' with
  | nil => cases h'; exact .nil
  | cons hab _ ih =>
    cases h' with
    | cons hbc hrest => exact .cons (hT _ _ _ hab hbc) (ih hrest)

theorem filterMap_eq {f : α → Option β} (hf : ∀ a b, R a b → f a = f b) :
    l.filterMap f = l'.filterMap f := by
  induction h with
  | nil => rfl
  | cons hab _ ih => rw [filterMap_cons, filterMap_cons, hf _ _ hab, ih]

theorem map_eq {f : α → β} (hf : ∀ a b, R a b → f a = f b) : l.map f = l'.map f := by
  induction h with
  | nil => rfl
  | cons hab _ ih => rw [map_cons, map_cons, hf _ _ hab, ih]

/-- A relation between the elements is kept if it is kept by changing both ends. -/
theorem pairwise (hS : ∀ a a' b b', R a a' → R b b' → S a b → S a' b') (hl : l.Pairwise S) :
    l'.Pairwise S := by
  induction h with
  | nil => exact .nil
  | cons hab hrest ih =>
    rw [pairwise_cons] at hl ⊢
    refine ⟨fun b' hb' => ?_, ih hl.2⟩
    obtain ⟨b, hb, hbb'⟩ := exists_of_mem_right hrest hb'
    exact hS _ _ _ _ hab hbb' (hl.1 b hb)

end Forall₂

end List
