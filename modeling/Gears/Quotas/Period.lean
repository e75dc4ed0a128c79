import Gears.Lib.Calendar

/-!
# Calendar-aligned periods

A period is a half-open window `[start, end)` of UTC instants, counted in nanoseconds from the
Unix epoch: instants are integers.

* `PeriodType.windowContaining` : the window a period type puts an instant in.
* `PeriodType.Regular` : the calendar has a window for the instant, and it contains the instant.
-/

namespace Gears.Quotas

/-- How often a consumption quota resets. -/
inductive PeriodType
  | day
  | week
  | month
  | year
  | oneTime
  deriving DecidableEq, Repr

/-- A half-open window of instants. -/
structure PeriodWindow where
  start : ℤ
  «end» : ℤ
  deriving DecidableEq, Repr

namespace PeriodWindow

/-- `9999-12-31T23:59:59Z`, the end of a period that never resets. -/
def openEnd : ℤ := 253402300799 * 1000000000

/-- The window a one-time quota has, and the fallback of a computation off the calendar. -/
def openEnded : PeriodWindow := ⟨0, openEnd⟩

/-- Half-open: the end instant is not inside. -/
def Contains (w : PeriodWindow) (at' : ℤ) : Prop := w.start ≤ at' ∧ at' < w.end

instance (w : PeriodWindow) (at' : ℤ) : Decidable (w.Contains at') :=
  inferInstanceAs (Decidable (_ ∧ _))

/-- The window has ended by `now`. -/
def HasElapsed (w : PeriodWindow) (now : ℤ) : Prop := w.end ≤ now

instance (w : PeriodWindow) (now : ℤ) : Decidable (w.HasElapsed now) :=
  inferInstanceAs (Decidable (_ ≤ _))

/-- One window ends before the other starts. -/
def Apart (v w : PeriodWindow) : Prop := v.end ≤ w.start ∨ w.end ≤ v.start

end PeriodWindow

/-! ### Days -/

/-- Nanoseconds of a day. -/
def nanosPerDay : ℤ := 86400 * 1000000000

/-- Midnight UTC of a day. -/
def midnight (day : ℤ) : ℤ := day * nanosPerDay

/-- The UTC day an instant lies in. -/
def dateOf (at' : ℤ) : ℤ := at' / nanosPerDay

/-- The last representable day, 31 December 9999. -/
def maxDate : ℤ := 2932896

/-- The last representable instant, the end of that day. -/
def maxInstant : ℤ := midnight (maxDate + 1) - 1

/-- The first representable day, 1 January -9999. -/
def minDate : ℤ := -4371587

/-- A day of the calendar's range, and none beyond it. -/
def representable (day : ℤ) : Option ℤ :=
  if minDate ≤ day ∧ day ≤ maxDate then some day else none

theorem representable_eq_some_iff {day day' : ℤ} :
    representable day = some day' ↔ day = day' ∧ minDate ≤ day ∧ day ≤ maxDate := by
  unfold representable
  split
  · rename_i h
    simp [h]
  · rename_i h
    simp [h]

theorem midnight_strictMono : StrictMono midnight := by
  intro a b h
  simp only [midnight, nanosPerDay]
  omega

/-! ### Windows -/

namespace PeriodType

/-- The bounds of the period an instant lies in, when the calendar can represent them. -/
def bounds (p : PeriodType) (at' : ℤ) : Option PeriodWindow :=
  let date := dateOf at'
  match p with
  | day => do
    let next ← representable (date + 1)
    return ⟨midnight date, midnight next⟩
  | week => do
    -- the epoch is a Thursday
    let sinceMonday := (date + 3) % 7
    let monday ← representable (date - sinceMonday)
    let next ← representable (monday + 7)
    return ⟨midnight monday, midnight next⟩
  | month => do
    let first ← representable (Calendar.monthStart (Calendar.monthOf date))
    let next ← representable (Calendar.monthStart (Calendar.monthOf date + 1))
    return ⟨midnight first, midnight next⟩
  | year => do
    let first ← representable (Calendar.yearStart (Calendar.yearOf date))
    let next ← representable (Calendar.yearStart (Calendar.yearOf date + 1))
    return ⟨midnight first, midnight next⟩
  | oneTime => some PeriodWindow.openEnded

/-- The window containing an instant; off the calendar it is the open-ended one. -/
def windowContaining (p : PeriodType) (at' : ℤ) : PeriodWindow :=
  (p.bounds at').getD PeriodWindow.openEnded

/-- The calendar represents the period of the instant, and the instant lies in it. -/
def Regular (p : PeriodType) (at' : ℤ) : Prop :=
  (p.bounds at').isSome ∧ (p.windowContaining at').Contains at'

instance (p : PeriodType) (at' : ℤ) : Decidable (p.Regular at') :=
  inferInstanceAs (Decidable (_ ∧ _))

/-- The day the `k`-th period of a recurring type starts on. -/
def startDay : PeriodType → ℤ → ℤ
  | day, k => k
  | week, k => 7 * k - 3
  | month, k => Calendar.monthStart k
  | year, k => Calendar.yearStart k
  | oneTime, k => k

theorem startDay_strictMono (p : PeriodType) : StrictMono p.startDay := by
  cases p with
  | day => exact strictMono_id
  | week =>
    intro a b h
    simp only [startDay]
    omega
  | month => exact Calendar.monthStart_strictMono
  | year => exact Calendar.yearStart_strictMono
  | oneTime => exact strictMono_id

theorem bounds_eq_some {p : PeriodType} {at' : ℤ} {w : PeriodWindow} (hp : p ≠ oneTime)
    (h : p.bounds at' = some w) :
    ∃ k, w = ⟨midnight (p.startDay k), midnight (p.startDay (k + 1))⟩ := by
  cases p <;> simp only [bounds, Option.bind_eq_bind, Option.bind_eq_some_iff,
    representable_eq_some_iff, Option.pure_def, Option.some.injEq] at h
  case day =>
    obtain ⟨_, ⟨rfl, -⟩, rfl⟩ := h
    exact ⟨dateOf at', rfl⟩
  case week =>
    obtain ⟨_, ⟨rfl, -⟩, _, ⟨rfl, -⟩, rfl⟩ := h
    refine ⟨(dateOf at' + 3) / 7, ?_⟩
    simp only [startDay, PeriodWindow.mk.injEq]
    constructor <;> congr 1 <;> omega
  case month | year =>
    obtain ⟨_, ⟨rfl, -⟩, _, ⟨rfl, -⟩, rfl⟩ := h
    exact ⟨_, rfl⟩
  case oneTime => exact absurd rfl hp

/-- **Windows partition time.**  The windows of two regular instants are equal or apart. -/
theorem eq_or_apart {p : PeriodType} {a b : ℤ} (ha : p.Regular a) (hb : p.Regular b) :
    p.windowContaining a = p.windowContaining b ∨
      (p.windowContaining a).Apart (p.windowContaining b) := by
  obtain ⟨v, hv⟩ := Option.isSome_iff_exists.1 ha.1
  obtain ⟨w, hw⟩ := Option.isSome_iff_exists.1 hb.1
  simp only [windowContaining, hv, hw]
  by_cases hp : p = oneTime
  · subst hp
    cases hv
    cases hw
    exact .inl rfl
  obtain ⟨i, rfl⟩ := bounds_eq_some hp hv
  obtain ⟨j, rfl⟩ := bounds_eq_some hp hw
  have hmono : StrictMono fun k => midnight (p.startDay k) :=
    midnight_strictMono.comp p.startDay_strictMono
  rcases Calendar.eq_or_apart_of_strictMono hmono i j with rfl | h
  · exact .inl rfl
  · exact .inr h

end PeriodType

end Gears.Quotas
