import Gears.Lib.Except

/-!
# Machines that may refuse an event

A machine is a step function that takes an event or refuses it.  A run is a list of events that
are all taken, one after another.

* `Machine.run` : the state after a run.
* `Machine.AllSteps` : every event of a run meets a condition in the state it is taken in.
* `Machine.run_guarded` : the invariant rule for such runs.
* `Machine.run_invariant` : the invariant rule without a condition.
-/

namespace Machine

open List

variable {σ ε err : Type*} {step : σ → ε → Except err σ} {cond : σ → ε → Prop} {I : σ → Prop}

/-- Take events one after another. -/
def run (step : σ → ε → Except err σ) (s : σ) (events : List ε) : Except err σ :=
  events.foldlM step s

/-- Every event of the run meets the condition in the state it is taken in. -/
def AllSteps (step : σ → ε → Except err σ) (cond : σ → ε → Prop) : σ → List ε → Prop
  | _, [] => True
  | s, e :: es => cond s e ∧ ∀ s', step s e = .ok s' → AllSteps step cond s' es

/-- Whether a run meets a decidable condition is found by running it. -/
instance AllSteps.decidable [∀ s e, Decidable (cond s e)] :
    ∀ (s : σ) (es : List ε), Decidable (AllSteps step cond s es)
  | _, [] => .isTrue trivial
  | s, e :: es =>
    match h : step s e with
    | .ok s' =>
      have := AllSteps.decidable s' es
      decidable_of_iff (cond s e ∧ AllSteps step cond s' es)
        (and_congr_right fun _ => ⟨fun hall _ h' => (by cases h.symm.trans h'; exact hall),
          fun hall => hall s' h⟩)
    | .error _ =>
      decidable_of_iff (cond s e)
        ⟨fun hc => ⟨hc, fun _ h' => (by cases h.symm.trans h')⟩, fun hall => hall.1⟩

variable {es : List ε} {s s' : σ}

theorem run_cons_eq_ok_iff {e : ε} :
    run step s (e :: es) = .ok s' ↔ ∃ s₁, step s e = .ok s₁ ∧ run step s₁ es = .ok s' := by
  rw [run, foldlM_cons, Except.bind_eq_ok_iff]
  rfl

/-- A fact about every event is a condition of a run. -/
theorem AllSteps.of_forall {p : ε → Prop} (hp : ∀ e ∈ es, p e) :
    AllSteps step (fun _ e => p e) s es := by
  induction es generalizing s with
  | nil => trivial
  | cons e es ih =>
    exact ⟨hp e mem_cons_self, fun _ _ => ih fun e' he' => hp e' (mem_cons_of_mem _ he')⟩

/-- A fact about every event joins the condition of a run. -/
theorem AllSteps.and_forall {p : ε → Prop} (h : AllSteps step cond s es) (hp : ∀ e ∈ es, p e) :
    AllSteps step (fun s e => p e ∧ cond s e) s es := by
  induction es generalizing s with
  | nil => trivial
  | cons e es ih =>
    refine ⟨⟨hp e mem_cons_self, h.1⟩, fun s' hs => ih (h.2 s' hs) fun e' he' => ?_⟩
    exact hp e' (mem_cons_of_mem _ he')

/-- **Guarded runs keep an invariant** that every step meeting the condition keeps. -/
theorem run_guarded (hstep : ∀ s e s', I s → cond s e → step s e = .ok s' → I s')
    (hrun : run step s es = .ok s') (hall : AllSteps step cond s es) (hs : I s) : I s' := by
  induction es generalizing s with
  | nil =>
    cases hrun
    exact hs
  | cons e es ih =>
    obtain ⟨s₁, h₁, hrest⟩ := run_cons_eq_ok_iff.1 hrun
    exact ih hrest (hall.2 s₁ h₁) (hstep s e s₁ hs hall.1 h₁)

/-- Every run keeps an invariant that every step keeps. -/
theorem run_invariant (hstep : ∀ s e s', I s → step s e = .ok s' → I s') {s s' : σ}
    (hrun : run step s es = .ok s') (hs : I s) : I s' := by
  have hall : AllSteps step (fun _ _ => True) s es := .of_forall fun _ _ => trivial
  exact run_guarded (fun s e s' hi _ h => hstep s e s' hi h) hrun hall hs

end Machine
