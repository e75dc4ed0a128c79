import Mathlib

/-!
# The proleptic Gregorian calendar

Days are counted from 1970-01-01.  Years and months are named by the day they start on.

* `Calendar.yearStart`, `Calendar.yearOf` : years as half-open ranges of days.
* `Calendar.monthStart`, `Calendar.monthOf` : months, counted from January of year 0.
* `Calendar.eq_or_apart_of_strictMono` : the ranges cut out by a strictly increasing sequence are
  equal or apart.
-/

namespace Calendar

/-- A leap year has 29 February. -/
def isLeap (y : ℤ) : Bool := y % 4 = 0 ∧ (y % 100 ≠ 0 ∨ y % 400 = 0)

/-- The first day of year `y`. -/
def yearStart (y : ℤ) : ℤ :=
  365 * (y - 1970) + ((y - 1) / 4 - (y - 1) / 100 + (y - 1) / 400) - 477

/-- The year a day lies in: the mean length of a year gives it up to one. -/
def yearOf (d : ℤ) : ℤ :=
  let guess := 400 * d / 146097 + 1970
  if d < yearStart guess then guess - 1
  else if yearStart (guess + 1) ≤ d then guess + 1
  else guess

theorem yearStart_succ (y : ℤ) :
    yearStart (y + 1) = yearStart y + if isLeap y then 366 else 365 := by
  simp only [yearStart, isLeap, decide_eq_true_eq]
  split <;> omega

theorem yearStart_strictMono : StrictMono yearStart := by
  refine strictMono_int_of_lt_succ fun y => ?_
  rw [yearStart_succ]
  split <;> omega

/-! ### Months -/

/-- The days of a year before month `m`, counted from January as 0. -/
def daysBefore (leap : Bool) (m : ℤ) : ℤ :=
  let extra := if leap then 1 else 0
  if m ≤ 0 then 0
  else if m = 1 then 31
  else if m = 2 then 59 + extra
  else if m = 3 then 90 + extra
  else if m = 4 then 120 + extra
  else if m = 5 then 151 + extra
  else if m = 6 then 181 + extra
  else if m = 7 then 212 + extra
  else if m = 8 then 243 + extra
  else if m = 9 then 273 + extra
  else if m = 10 then 304 + extra
  else 334 + extra

/-- The first day of the `k`-th month, counted from January of year 0. -/
def monthStart (k : ℤ) : ℤ := yearStart (k / 12) + daysBefore (isLeap (k / 12)) (k % 12)

/-- The last of the months up to `m` that has begun on a day of the year. -/
def lastBegun (leap : Bool) (day : ℤ) : ℕ → ℤ
  | 0 => 0
  | m + 1 => if daysBefore leap (m + 1) ≤ day then m + 1 else lastBegun leap day m

/-- The month of a year that a day of the year lies in. -/
def monthOfYear (leap : Bool) (day : ℤ) : ℤ := lastBegun leap day 11

/-- The month a day lies in, counted from January of year 0. -/
def monthOf (d : ℤ) : ℤ :=
  let y := yearOf d
  12 * y + monthOfYear (isLeap y) (d - yearStart y)

theorem monthStart_of_lt (y : ℤ) {m : ℤ} (h : 0 ≤ m) (h' : m < 12) :
    monthStart (12 * y + m) = yearStart y + daysBefore (isLeap y) m := by
  have hdiv : (12 * y + m) / 12 = y := by omega
  have hmod : (12 * y + m) % 12 = m := by omega
  rw [monthStart, hdiv, hmod]

theorem monthStart_next_year (y : ℤ) : monthStart (12 * y + 12) = yearStart (y + 1) := by
  have h := monthStart_of_lt (y + 1) le_rfl (by omega : (0 : ℤ) < 12)
  rw [show 12 * y + 12 = 12 * (y + 1) + 0 by omega, h]
  simp [daysBefore]

theorem daysBefore_lt_succ (leap : Bool) {m : ℤ} (h : 0 ≤ m) (h' : m < 11) :
    daysBefore leap m < daysBefore leap (m + 1) := by
  cases leap <;> interval_cases m <;> decide

theorem monthStart_strictMono : StrictMono monthStart := by
  refine strictMono_int_of_lt_succ fun k => ?_
  obtain ⟨y, m, h, h', rfl⟩ : ∃ y m : ℤ, 0 ≤ m ∧ m < 12 ∧ k = 12 * y + m :=
    ⟨k / 12, k % 12, by omega, by omega, by omega⟩
  rw [monthStart_of_lt y h h']
  by_cases hm : m = 11
  · subst hm
    rw [show 12 * y + 11 + 1 = 12 * y + 12 by omega, monthStart_next_year, yearStart_succ]
    cases isLeap y <;> simp [daysBefore]
  · rw [add_assoc, monthStart_of_lt y (by omega) (by omega)]
    have := daysBefore_lt_succ (isLeap y) h (by omega)
    omega

/-! ### Ranges of a strictly increasing sequence -/

/-- Two of the ranges `[f i, f (i + 1))` are equal or apart. -/
theorem eq_or_apart_of_strictMono {f : ℤ → ℤ} (hf : StrictMono f) (i j : ℤ) :
    i = j ∨ f (i + 1) ≤ f j ∨ f (j + 1) ≤ f i := by
  rcases lt_trichotomy i j with h | h | h
  · exact .inr (.inl (hf.monotone h))
  · exact .inl h
  · exact .inr (.inr (hf.monotone h))

end Calendar
