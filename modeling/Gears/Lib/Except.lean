import Mathlib.Data.List.Forall2

/-!
# Inverting computations that may fail

Fallible code is written in the `Except` monad.  The lemmas here take a successful or a failed
computation apart without unfolding it:

* `Except.bind_eq_ok_iff`, `Except.bind_eq_error_iff` : what a `do` block that returned did.
* `Except.rejectIf`, `Except.onlyIf`, `Except.forSome`, `Except.okOr`, `Except.refuse` : early
  returns and conditional checks.
* `Except.mapError_eq_ok_iff` : renaming the error of a computation.
* `Except.exists_ok_of` : facts decided by running a closed computation.
* `Except.OnlyFails` : computations with a single possible error.
* `Except.mapM_eq_ok_iff` : a successful traversal, element by element.
* `Except.foldlM_invariant`, `Except.foldlM_induction` : the invariant rule for a run of steps that
  may fail.
-/

theorem List.mem_concat_iff {α : Type*} {l : List α} {a b : α} : a ∈ l ++ [b] ↔ a ∈ l ∨ a = b := by
  rw [List.mem_append, List.mem_singleton]

theorem List.Forall₂.exists_of_mem_left {α β : Type*} {R : α → β → Prop} {l : List α}
    {r : List β} (h : List.Forall₂ R l r) {a : α} (ha : a ∈ l) : ∃ b ∈ r, R a b := by
  induction h with
  | nil => cases ha
  | cons hab _ ih =>
    rcases List.mem_cons.1 ha with rfl | ha
    · exact ⟨_, List.mem_cons_self, hab⟩
    · obtain ⟨b, hb, hr⟩ := ih ha
      exact ⟨b, List.mem_cons_of_mem _ hb, hr⟩

namespace Except

variable {γ : Type*} {l : List γ}

universe u

variable {ε ε' : Type*} {α β : Type u} {x : Except ε α} {f : α → Except ε β} {a : α} {b : β} {e : ε}
  {u : Unit} {c : Prop} [Decidable c]

@[simp] theorem bind_eq_ok_iff : (x >>= f) = .ok b ↔ ∃ a, x = .ok a ∧ f a = .ok b := by
  cases x <;> simp [bind, Except.bind]

theorem bind_eq_error_iff :
    (x >>= f) = .error e ↔ x = .error e ∨ ∃ a, x = .ok a ∧ f a = .error e := by
  cases x <;> simp [bind, Except.bind]

@[simp] theorem ok_bind (a : α) (f : α → Except ε β) : (ok a >>= f) = f a := rfl

@[simp] theorem error_bind (e : ε) (f : α → Except ε β) : (error e >>= f) = .error e := rfl

@[simp] theorem pure_eq_ok (a : α) : (pure a : Except ε α) = .ok a := rfl

theorem pure_eq_ok_iff {a b : α} :
    (pure a : Except ε α) = .ok b ↔ a = b := ok.injEq a b ▸ .rfl

@[simp] theorem mapError_eq_ok_iff {g : ε → ε'} : x.mapError g = .ok a ↔ x = .ok a := by
  cases x <;> simp [Except.mapError]

@[simp] theorem mapError_eq_error_iff {g : ε → ε'} {e : ε'} :
    x.mapError g = .error e ↔ ∃ a, x = .error a ∧ g a = e := by
  cases x <;> simp [Except.mapError]

/-- The early return of `e` when `c` holds. -/
def rejectIf (c : Prop) [Decidable c] (e : ε) : Except ε Unit :=
  if c then .error e else .ok ()

@[simp] theorem rejectIf_eq_ok_iff : rejectIf c e = .ok u ↔ ¬ c := by
  unfold rejectIf
  split <;> simp_all

@[simp] theorem rejectIf_eq_error_iff {e' : ε} : rejectIf c e = .error e' ↔ c ∧ e = e' := by
  unfold rejectIf
  split <;> simp_all

theorem rejectIf_of_not (h : ¬ c) : rejectIf c e = .ok () := if_neg h

theorem rejectIf_congr {d : Prop} [Decidable d] (h : c ↔ d) (e : ε) :
    rejectIf c e = rejectIf d e := by
  simp only [h]

/-- A check made only when `c` holds. -/
def onlyIf (c : Prop) [Decidable c] (check : Except ε Unit) : Except ε Unit :=
  if c then check else .ok ()

@[simp] theorem onlyIf_eq_ok_iff {check : Except ε Unit} :
    onlyIf c check = .ok u ↔ (c → check = .ok ()) := by
  unfold onlyIf
  split <;> simp_all

/-- A check made on the value that is present, if any. -/
def forSome {γ : Type*} (o : Option γ) (check : γ → Except ε Unit) : Except ε Unit :=
  match o with
  | some a => check a
  | none => .ok ()

@[simp] theorem forSome_eq_ok_iff {o : Option γ} {check : γ → Except ε Unit} :
    forSome o check = .ok u ↔ ∀ a ∈ o, check a = .ok () := by
  cases o <;> simp [forSome]

/-- The value that is present, or an error when there is none. -/
def okOr (o : Option α) (e : ε) : Except ε α :=
  match o with
  | some a => .ok a
  | none => .error e

@[simp] theorem okOr_eq_ok_iff {o : Option α} : okOr o e = .ok a ↔ o = some a := by
  cases o <;> simp [okOr]

/-- Fail with the refusal that was found, if any. -/
def refuse (o : Option ε) : Except ε Unit :=
  match o with
  | some e => .error e
  | none => .ok ()

@[simp] theorem refuse_eq_ok_iff {o : Option ε} : refuse o = .ok u ↔ o = none := by
  cases o <;> simp [refuse]

@[simp] theorem refuse_eq_error_iff {o : Option ε} : refuse o = .error e ↔ o = some e := by
  cases o <;> simp [refuse]

@[simp] theorem map_eq_ok_iff {g : α → β} : x.map g = .ok b ↔ ∃ a, x = .ok a ∧ g a = b := by
  cases x <;> simp [Except.map]

instance decidableExistsOk (x : Except ε α) (P : α → Prop) [DecidablePred P] :
    Decidable (∃ a, x = .ok a ∧ P a) :=
  match x with
  | .ok a => decidable_of_iff (P a) (by simp)
  | .error _ => .isFalse (by simp)

instance decidableExistsSome {γ : Type*} (o : Option γ) (P : γ → Prop) [DecidablePred P] :
    Decidable (∃ a, o = some a ∧ P a) :=
  match o with
  | some a => decidable_of_iff (P a) (by simp)
  | none => .isFalse (by simp)

/-- What a computation returns, with a fact that is decided by running it. -/
theorem exists_ok_of {P Q : α → Prop} (h : ∃ a, x = .ok a ∧ P a)
    (hQ : ∀ a, x = .ok a → P a → Q a) : ∃ a, x = .ok a ∧ Q a := by
  obtain ⟨a, hx, ha⟩ := h
  exact ⟨a, hx, hQ a hx ha⟩

/-- The rules that take a successful computation apart, as one simp set. -/
theorem ok_iffs : (∀ {ε α β : Type} {x : Except ε α} {f : α → Except ε β} {b : β},
      (x >>= f) = .ok b ↔ ∃ a, x = .ok a ∧ f a = .ok b) ∧
    (∀ {ε α : Type} {a b : α}, (pure a : Except ε α) = .ok b ↔ a = b) ∧
    (∀ {ε α : Type} {o : Option α} {e : ε} {a : α}, okOr o e = .ok a ↔ o = some a) ∧
    (∀ {ε : Type} {c : Prop} [Decidable c] {e : ε} {u : Unit}, rejectIf c e = .ok u ↔ ¬ c) ∧
    ∀ {ε ε' α : Type} {x : Except ε α} {g : ε → ε'} {a : α}, x.mapError g = .ok a ↔ x = .ok a :=
  ⟨bind_eq_ok_iff, pure_eq_ok_iff, okOr_eq_ok_iff, rejectIf_eq_ok_iff, mapError_eq_ok_iff⟩

/-! ### Computations with a single error -/

/-- The computation can fail with `e` only. -/
def OnlyFails (e : ε) (x : Except ε α) : Prop := ∀ e', x = .error e' → e' = e

theorem onlyFails_ok (e : ε) (a : α) : OnlyFails e (.ok a) := by
  intro e' h
  cases h

theorem onlyFails_rejectIf (c : Prop) [Decidable c] (e : ε) : OnlyFails e (rejectIf c e) := by
  intro e' h
  exact (rejectIf_eq_error_iff.1 h).2.symm

theorem OnlyFails.bind (hx : OnlyFails e x)
    (hf : ∀ a, x = .ok a → OnlyFails e (f a)) : OnlyFails e (x >>= f) := by
  intro e' h
  rcases bind_eq_error_iff.1 h with h | ⟨a, ha, h⟩
  · exact hx e' h
  · exact hf a ha e' h

theorem OnlyFails.mapError (hx : OnlyFails e x) (g : ε → ε') : OnlyFails (g e) (x.mapError g) := by
  intro e' h
  cases x with
  | ok a => cases h
  | error e₁ =>
    cases h
    rw [hx e₁ rfl]

/-- Two computations with one possible error that succeed together are related by `g`. -/
theorem OnlyFails.eq_map {y : Except ε β} {g : α → β}
    (hx : OnlyFails e x) (hy : OnlyFails e y) (h : ∀ a, x = .ok a → y = .ok (g a))
    (h' : ∀ b, y = .ok b → ∃ a, x = .ok a) : y = x.map g := by
  cases hxa : x with
  | ok a => exact h a hxa
  | error e₁ =>
    cases hyb : y with
    | ok b =>
      obtain ⟨a, ha⟩ := h' b hyb
      cases hxa.symm.trans ha
    | error e₂ => rw [hx e₁ hxa, hy e₂ hyb]; rfl

/-! ### Runs -/

variable {f : γ → Except ε β}

theorem mapM_eq_ok_iff {r : List β} :
    l.mapM f = .ok r ↔ List.Forall₂ (fun a b => f a = .ok b) l r := by
  induction l generalizing r with
  | nil => cases r <;> simp
  | cons a l ih =>
    rw [List.mapM_cons]
    simp only [bind_eq_ok_iff, ih, pure_eq_ok, ok.injEq]
    constructor
    · rintro ⟨b, hb, bs, hbs, rfl⟩
      exact .cons hb hbs
    · intro h
      cases h with
      | cons hb hbs => exact ⟨_, hb, _, hbs, rfl⟩

/-- A loop of checks passes when every check does. -/
theorem forM_eq_ok_iff {check : γ → Except ε PUnit} {u : PUnit} :
    l.forM check = .ok u ↔ ∀ a ∈ l, check a = .ok u := by
  induction l with
  | nil => simp
  | cons a l ih =>
    have hcons : (a :: l).forM check = check a >>= fun _ => l.forM check := rfl
    rw [hcons, bind_eq_ok_iff, List.forall_mem_cons, exists_and_right, ih]
    exact and_congr_left fun _ => ⟨fun ⟨_, h⟩ => h, fun h => ⟨u, h⟩⟩

/-- An observation of every result is read off the list that was mapped. -/
theorem map_eq_of_mapM {δ : Type*} {r : List β} (h : l.mapM f = .ok r) {g : β → δ} {g' : γ → δ}
    (hg : ∀ a b, f a = .ok b → g b = g' a) : r.map g = l.map g' := by
  rw [mapM_eq_ok_iff] at h
  induction h with
  | nil => rfl
  | cons hab _ ih => rw [List.map_cons, List.map_cons, hg _ _ hab, ih]

variable {σ : Type u} {f : σ → β → Except ε σ} {l : List β} {s₀ s : σ}

/-- **Run rule.**  What holds before the first step and is kept by every successful step holds of
the steps taken and the state reached. -/
theorem foldlM_induction {P : List β → σ → Prop} (hnil : P [] s₀)
    (hstep : ∀ l s b s', P l s → f s b = .ok s' → P (l ++ [b]) s')
    (h : l.foldlM f s₀ = .ok s) : P l s := by
  have run : ∀ (l pre : List β) (s₁ : σ), P pre s₁ → l.foldlM f s₁ = .ok s → P (pre ++ l) s := by
    intro l
    induction l with
    | nil => intro pre s₁ hp h; cases h; simpa using hp
    | cons b l ih =>
      intro pre s₁ hp h
      rw [List.foldlM_cons, bind_eq_ok_iff] at h
      obtain ⟨s₂, h₂, h⟩ := h
      simpa using ih (pre ++ [b]) s₂ (hstep pre s₁ b s₂ hp h₂) h
  simpa using run l [] s₀ hnil h

/-- Every step of a successful run succeeded. -/
theorem exists_of_foldlM (h : l.foldlM f s₀ = .ok s) (hb : b ∈ l) : ∃ s₁ s₂, f s₁ b = .ok s₂ := by
  refine foldlM_induction (P := fun pre _ => ∀ b ∈ pre, ∃ s₁ s₂, f s₁ b =
    .ok s₂) (by simp) ?_ h b hb
  intro pre s₁ c s₂ ih hstep b hb
  rw [List.mem_append, List.mem_singleton] at hb
  rcases hb with hb | rfl
  · exact ih b hb
  · exact ⟨s₁, s₂, hstep⟩

/-- The run rule, for steps over the elements of one list. -/
theorem foldlM_scan {P : List β → σ → Prop} (hnil : P [] s₀)
    (hstep : ∀ pre s, ∀ b ∈ l, ∀ s', P pre s → f s b = .ok s' → P (pre ++ [b]) s')
    (h : l.foldlM f s₀ = .ok s) : P l s := by
  refine foldlM_induction (P := fun pre s => (∀ b ∈ pre, b ∈ l) → P pre s) (fun _ => hnil)
    (fun pre s b s' hp hs hall => ?_) h fun _ hb => hb
  exact hstep pre s b (hall b (by simp)) s' (hp fun c hc => hall c (by simp [hc])) hs

/-- What every step over the elements of a list keeps holds of the state reached. -/
theorem foldlM_invariant {I : σ → Prop}
    (hstep : ∀ s, ∀ b ∈ l, ∀ s', I s → f s b = .ok s' → I s')
    (h : l.foldlM f s₀ = .ok s) (hs : I s₀) : I s :=
  foldlM_scan (P := fun _ => I) hs (fun _ => hstep) h

/-- A run that fails stops at its first failing step. -/
theorem foldlM_eq_error
    (h : l.foldlM f s = .error e) : ∃ pre b rest s', l = pre ++ b :: rest ∧
      pre.foldlM f s = .ok s' ∧ f s' b = .error e := by
  induction l generalizing s with
  | nil => cases h
  | cons b l ih =>
    rw [List.foldlM_cons, bind_eq_error_iff] at h
    rcases h with h | ⟨s₁, h₁, h⟩
    · exact ⟨[], b, l, s, rfl, rfl, h⟩
    · obtain ⟨pre, c, rest, s', rfl, hpre, hc⟩ := ih h
      refine ⟨b :: pre, c, rest, s', rfl, ?_, hc⟩
      rw [List.foldlM_cons, h₁, ok_bind, hpre]

/-- A renaming of states and inputs that commutes with every step commutes with a run. -/
theorem foldlM_map {σ τ δ : Type*} {f : σ → γ → Except ε σ} {f' : τ → δ → Except ε τ} (φ : σ → τ)
    (ψ : γ → δ) (h : ∀ s a, f' (φ s) (ψ a) = (f s a).map φ) (l : List γ) (s : σ) :
    (l.map ψ).foldlM f' (φ s) = (l.foldlM f s).map φ := by
  induction l generalizing s with
  | nil => rfl
  | cons a l ih =>
    rw [List.map_cons, List.foldlM_cons, List.foldlM_cons, h]
    cases f s a with
    | error e => rfl
    | ok s' => exact ih s'

theorem map_bind {γ : Type u} (x : Except ε α) (g : α → β) (k : β → Except ε γ) :
    (x.map g >>= k) = x >>= fun a => k (g a) := by
  cases x <;> rfl

/-- After the same first step, a renaming of the rest renames the whole. -/
theorem bind_eq_map_bind {γ : Type u} {f : α → Except ε β} {f' : α → Except ε γ} {g : β → γ}
    (h : ∀ a, f' a = (f a).map g) :
    (x >>= f') = (x >>= f).map g := by
  cases x with
  | error e => rfl
  | ok a => exact h a

end Except
