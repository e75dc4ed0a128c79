import Mathlib.Order.Basic
import Mathlib.Algebra.Order.Ring.Int

/-!
# Calendar days

* `Date` : the days of the years -9999 to 9999, in order, with checked arithmetic.
-/

namespace Gears

/-- A calendar day of the years -9999 to 9999, by its Julian day number. -/
structure Date where
  julianDay : ℤ
  lower : -1930999 ≤ julianDay
  upper : julianDay ≤ 5373484
  deriving DecidableEq, Repr

namespace Date

theorem julianDay_injective : Function.Injective julianDay := by
  rintro ⟨a, _, _⟩ ⟨b, _, _⟩ h
  cases h
  rfl

instance : LinearOrder Date := LinearOrder.lift' julianDay julianDay_injective

/-- The days from `b` to `a`. -/
def daysSince (a b : Date) : ℤ := a.julianDay - b.julianDay

/-- Add a number of days, within the calendar. -/
def checkedAdd (d : Date) (days : ℤ) : Option Date :=
  if h : -1930999 ≤ d.julianDay + days ∧ d.julianDay + days ≤ 5373484 then
    some ⟨d.julianDay + days, h.1, h.2⟩
  else none

/-- The day before, within the calendar. -/
def previousDay (d : Date) : Option Date := d.checkedAdd (-1)

theorem lt_iff {a b : Date} : a < b ↔ a.julianDay < b.julianDay := Iff.rfl

theorem julianDay_of_checkedAdd {d e : Date} {days : ℤ} (h : d.checkedAdd days = some e) :
    e.julianDay = d.julianDay + days := by
  unfold checkedAdd at h
  split at h
  · cases h
    rfl
  · cases h

end Date

end Gears
