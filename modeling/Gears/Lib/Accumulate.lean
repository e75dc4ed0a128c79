import Gears.Lib.Except
import Mathlib

/-!
# Totals by key

`accumulate key step l` walks over `l` and takes every element into the value of its key, from
`none` for a key not met before; `step` may fail.

* `accumulate_valueOf` : the value of a key is the run over the elements of that key.
* `exists_accumulate` : the walk succeeds when the runs of the keys do.
* `mem_accumulate_iff` : the entries of the result.
-/

namespace Gears

open Except List

variable {α κ ν ε : Type} [DecidableEq κ]

/-- Set the value of a key, in its place or at the end. -/
def putValue (k : κ) (v : ν) : List (κ × ν) → List (κ × ν)
  | [] => [(k, v)]
  | g :: gs => if g.1 = k then (k, v) :: gs else g :: putValue k v gs

/-- The value of a key. -/
def valueOf (k : κ) : List (κ × ν) → Option ν
  | [] => none
  | g :: gs => if g.1 = k then some g.2 else valueOf k gs

theorem valueOf_putValue (k : κ) (v : ν) (gs : List (κ × ν)) (k' : κ) :
    valueOf k' (putValue k v gs) = if k = k' then some v else valueOf k' gs := by
  induction gs with
  | nil => rfl
  | cons g gs ih =>
    by_cases hk : g.1 = k
    · rw [putValue, if_pos hk, valueOf, valueOf, hk]
      split <;> rfl
    · rw [putValue, if_neg hk, valueOf, valueOf, ih]
      split_ifs with h₁ h₂
      · exact absurd (h₁.trans h₂.symm) hk
      · rfl
      · rfl
      · rfl

theorem keys_putValue (k : κ) (v : ν) (gs : List (κ × ν)) : (putValue k v gs).map Prod.fst =
      if k ∈ gs.map Prod.fst then gs.map Prod.fst else gs.map Prod.fst ++ [k] := by
  induction gs with
  | nil => simp [putValue]
  | cons g gs ih =>
    by_cases hk : g.1 = k
    · simp [putValue, hk]
    · simp only [putValue, hk, if_false, map_cons, ih, mem_cons, Ne.symm hk, false_or]
      split_ifs <;> simp

theorem mem_iff_valueOf {gs : List (κ × ν)} (h : (gs.map Prod.fst).Nodup) {k : κ} {v : ν} :
    (k, v) ∈ gs ↔ valueOf k gs = some v := by
  induction gs with
  | nil => simp [valueOf]
  | cons g gs ih =>
    rw [map_cons, nodup_cons] at h
    rw [mem_cons, ih h.2, valueOf]
    split_ifs with hk
    · subst hk
      rw [← ih h.2]
      constructor
      · rintro (heq | hmem)
        · rw [← heq]
        · exact absurd (mem_map_of_mem hmem) h.1
      · rintro heq
        exact .inl (Prod.ext rfl (Option.some.inj heq).symm)
    · exact or_iff_right fun heq => hk (heq ▸ rfl)

variable (key : α → κ) (step : Option ν → α → Except ε ν)

/-- Take one element into the value of its key. -/
def accumulateStep (gs : List (κ × ν)) (a : α) : Except ε (List (κ × ν)) := do
  let v ← step (valueOf (key a) gs) a
  pure (putValue (key a) v gs)

/-- The values by key, in the order in which the keys appear. -/
def accumulate (l : List α) : Except ε (List (κ × ν)) := l.foldlM (accumulateStep key step) []

/-- The run over the elements of one key. -/
def runAt (k : κ) (l : List α) : Except ε (Option ν) :=
  (l.filter (key · = k)).foldlM (fun o a => (step o a).map some) none

variable {key step} {l : List α} {gs : List (κ × ν)}

theorem runAt_append_singleton (k : κ) (l : List α) (a : α) : runAt key step k (l ++ [a]) =
    if key a = k then runAt key step k l >>= fun o => (step o a).map some
    else runAt key step k l := by
  unfold runAt
  split_ifs with hk
  · rw [filter_append, filter_singleton, decide_eq_true hk, foldlM_append]
    simp only [cond_true, foldlM_cons, foldlM_nil, bind_pure]
  · simp [hk]

section

variable (h : accumulate key step l = .ok gs)
include h

/-- **The value of a key** is what the elements of that key give by themselves. -/
theorem accumulate_valueOf (k : κ) : runAt key step k l = .ok (valueOf k gs) := by
  refine foldlM_induction (P := fun l gs => ∀ k, runAt key step k l = .ok (valueOf k gs))
    (fun _ => rfl) (fun l gs a gs' ih hstep k => ?_) h k
  simp only [accumulateStep, ok_iffs] at hstep
  obtain ⟨v, hv, rfl⟩ := hstep
  rw [runAt_append_singleton, valueOf_putValue, ih]
  by_cases hk : key a = k
  · subst hk
    rw [if_pos rfl, if_pos rfl, ok_bind, hv]
    rfl
  · rw [if_neg hk, if_neg hk]

theorem nodup_accumulate : (gs.map Prod.fst).Nodup := by
  refine foldlM_invariant (I := fun gs => (gs.map Prod.fst).Nodup)
    (fun gs a _ gs' ih hstep => ?_) h nodup_nil
  simp only [accumulateStep, ok_iffs] at hstep
  obtain ⟨v, -, rfl⟩ := hstep
  rw [keys_putValue]
  split_ifs with hk
  · exact ih
  · exact nodup_append.2 ⟨ih, nodup_singleton _, by
      rintro x hx y hy rfl
      exact hk (mem_singleton.1 hy ▸ hx)⟩

theorem mem_accumulate_iff {k : κ} {v : ν} : (k, v) ∈ gs ↔ runAt key step k l = .ok (some v) := by
  rw [mem_iff_valueOf (nodup_accumulate h), accumulate_valueOf h, Except.ok.injEq]

theorem exists_mem_of_accumulate {g : κ × ν} (hg : g ∈ gs) : ∃ a ∈ l, key a = g.1 := by
  have hrun := (mem_accumulate_iff h).1 hg
  by_contra hnone
  rw [runAt, filter_eq_nil_iff.2 fun a ha => by simpa using fun heq => hnone ⟨a, ha, heq⟩] at hrun
  cases hrun

end

/-- **The walk succeeds** when the elements of every key can be taken by themselves. -/
theorem exists_accumulate (h : ∀ a ∈ l, ∃ o, runAt key step (key a) l = .ok o) :
    ∃ gs, accumulate key step l = .ok gs := by
  induction l using List.reverseRecOn with
  | nil => exact ⟨[], rfl⟩
  | append_singleton l a ih =>
    have hprefix : ∀ b ∈ l, ∃ o, runAt key step (key b) l = .ok o := by
      intro b hb
      obtain ⟨o, ho⟩ := h b (mem_append_left _ hb)
      rw [runAt_append_singleton] at ho
      split_ifs at ho
      · rw [bind_eq_ok_iff] at ho
        obtain ⟨o', ho', -⟩ := ho
        exact ⟨o', ho'⟩
      · exact ⟨o, ho⟩
    obtain ⟨gs, hgs⟩ := ih hprefix
    obtain ⟨o, ho⟩ := h a (by simp)
    rw [runAt_append_singleton, if_pos rfl, accumulate_valueOf hgs, ok_bind, map_eq_ok_iff] at ho
    obtain ⟨v, hv, -⟩ := ho
    refine ⟨putValue (key a) v gs, ?_⟩
    rw [accumulate, foldlM_append]
    change accumulate key step l >>= _ = _
    rw [hgs, ok_bind, foldlM_cons, accumulateStep, hv]
    rfl

end Gears
