import Mathlib.Algebra.Order.Ring.Int

/-!
# Rows with a revision

A writer loads a row, computes, and writes only if the row still has the revision it loaded; every
write moves the revision on.  So what it loaded is what it overwrites.

* `Versioned.write` : a write.
* `Versioned.Past` : a row that was loaded at some time.
* `Versioned.Past.eq_of_revision` : compare-and-set.
-/

/-- A row with its revision. -/
structure Versioned (α : Type) where
  value : α
  revision : ℤ

namespace Versioned

variable {α : Type} {loaded current : Versioned α}

/-- The row with a new value, at the next revision. -/
def write (row : Versioned α) (value : α) : Versioned α := ⟨value, row.revision + 1⟩

/-- The row was loaded before the last write, or it is the present one. -/
def Past (loaded current : Versioned α) : Prop :=
  loaded.revision < current.revision ∨ loaded = current

theorem Past.refl (row : Versioned α) : row.Past row := .inr rfl

theorem Past.write (h : loaded.Past current) (value : α) : loaded.Past (current.write value) := by
  refine .inl ?_
  rcases h with h | rfl
  · exact h.trans (Int.lt_succ _)
  · exact Int.lt_succ _

/-- **Compare-and-set.**  A row that was loaded with the present revision is the present row. -/
theorem Past.eq_of_revision (h : loaded.Past current)
    (hrev : loaded.revision = current.revision) : loaded = current := by
  rcases h with h | h
  · exact absurd hrev h.ne
  · exact h

end Versioned
