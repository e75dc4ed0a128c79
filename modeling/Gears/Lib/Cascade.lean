import Mathlib.Data.List.Induction

/-!
# Settings merged along a chain

A setting is merged from the layers of a chain, root first.  A layer either adds its own setting to
what was merged above it or opts out and starts afresh.  A requirement that some layer meets is met
by the merged setting until a layer opts out.

* `Cascade` : the merge of one layer and what it does to the requirements that are met.
* `Cascade.keeps_demands_iff` : the demands of all layers are met at the end exactly if no layer
  opts out of a demand that neither it nor a later layer meets.
-/

/-- A merge by layers: `meets` is read on the merged state and `own` on a single layer. -/
structure Cascade (σ ℓ ρ : Type*) where
  start : σ
  step : σ → ℓ → σ
  optsOut : σ → ℓ → Prop
  meets : σ → ρ → Prop
  own : ℓ → ρ → Prop
  meets_step_iff : ∀ s l r, meets (step s l) r ↔ own l r ∨ (¬ optsOut s l ∧ meets s r)

namespace Cascade

variable {σ ℓ ρ : Type*} (c : Cascade σ ℓ ρ)

/-- The setting merged from the layers. -/
def merged (ls : List ℓ) : σ := ls.foldl c.step c.start

@[simp] theorem merged_append_singleton (ls : List ℓ) (l : ℓ) :
    c.merged (ls ++ [l]) = c.step (c.merged ls) l := by
  rw [merged, List.foldl_append, List.foldl_cons, List.foldl_nil, merged]

/-- Every opt-out is of demands that the layer itself or a later one meets. -/
def KeepsDemands (demands : ℓ → ρ → Prop) (ls : List ℓ) : Prop :=
  ∀ above l below, ls = above ++ l :: below → c.optsOut (c.merged above) l →
    ∀ a ∈ above, ∀ r, demands a r → ∃ k ∈ l :: below, c.own k r

variable {c} {ls : List ℓ} {r : ρ}

theorem exists_own_of_meets {s : σ} (h : c.meets (ls.foldl c.step s) r) :
    c.meets s r ∨ ∃ k ∈ ls, c.own k r := by
  induction ls generalizing s with
  | nil => exact .inl h
  | cons l ls ih =>
    rcases ih h with h | ⟨k, hk, h⟩
    · rcases (c.meets_step_iff s l r).1 h with h | h
      · exact .inr ⟨l, List.mem_cons_self, h⟩
      · exact .inl h.2
    · exact .inr ⟨k, List.mem_cons_of_mem _ hk, h⟩

/-- A requirement that a layer meets is met at the end, or was lost where a layer opted out. -/
theorem meets_or_optsOut {k : ℓ} (hk : k ∈ ls) (hown : c.own k r) :
    c.meets (c.merged ls) r ∨ ∃ above l below, ls = above ++ l :: below ∧
      c.optsOut (c.merged above) l ∧ k ∈ above ∧ ∀ k' ∈ l :: below, ¬ c.own k' r := by
  induction ls using List.reverseRecOn with
  | nil => cases hk
  | append_singleton ls x ih =>
    rw [merged_append_singleton, c.meets_step_iff]
    by_cases hx : c.own x r
    · exact .inl (.inl hx)
    have hk : k ∈ ls := by
      rcases List.mem_append.1 hk with hk | hk
      · exact hk
      · rw [List.mem_singleton.1 hk] at hown
        exact absurd hown hx
    rcases ih hk with hmeets | ⟨above, l, below, rfl, hout, hmem, hnone⟩
    · by_cases hout : c.optsOut (c.merged ls) x
      · refine .inr ⟨ls, x, [], rfl, hout, hk, fun k' hk' => ?_⟩
        rwa [List.mem_singleton.1 hk']
      · exact .inl (.inr ⟨hout, hmeets⟩)
    · refine .inr ⟨above, l, below ++ [x], by simp, hout, hmem, fun k' hk' => ?_⟩
      rcases List.mem_append.1 (List.cons_append ▸ hk' : k' ∈ (l :: below) ++ [x]) with h | h
      · exact hnone k' h
      · rwa [List.mem_singleton.1 h]

/-- **Demands along a chain.**  Every demand is met by the merged setting exactly if each opt-out is
of demands that are met again. -/
theorem keeps_demands_iff (ls : List ℓ) (demands : ℓ → ρ → Prop)
    (hown : ∀ l r, demands l r → c.own l r) :
    (∀ a ∈ ls, ∀ r, demands a r → c.meets (c.merged ls) r) ↔ c.KeepsDemands demands ls := by
  constructor
  · rintro h above l below rfl hout a ha r hr
    have hend := h a (List.mem_append_left _ ha) r hr
    rw [merged, List.foldl_append, List.foldl_cons] at hend
    rcases exists_own_of_meets hend with hl | ⟨k, hk, hkr⟩
    · rcases (c.meets_step_iff _ _ _).1 hl with hl | hl
      · exact ⟨l, List.mem_cons_self, hl⟩
      · exact absurd hout hl.1
    · exact ⟨k, List.mem_cons_of_mem _ hk, hkr⟩
  · intro h a ha r hr
    rcases meets_or_optsOut ha (hown a r hr) with hmeets | ⟨above, l, below, hls, hout, hmem, hnone⟩
    · exact hmeets
    · obtain ⟨k, hk, hkr⟩ := h above l below hls hout a hmem r hr
      exact absurd hkr (hnone k hk)

end Cascade
