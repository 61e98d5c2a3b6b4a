import Mathlib.Algebra.Order.Group.Int
import Mathlib.Tactic.IntervalCases

namespace Machino.Calendar

def isLeap (y : ℕ) : Bool := y % 4 = 0 && y % 100 ≠ 0 || y % 400 = 0

def monthDays (y : ℕ) : ℕ → ℕ
  | 2 => if isLeap y then 29 else 28
  | 4 | 6 | 9 | 11 => 30
  | _ => 31

/-- A day that there is. -/
structure Date where
  year : ℕ
  month : ℕ
  day : ℕ
  month_pos : 1 ≤ month
  month_le : month ≤ 12
  day_pos : 1 ≤ day
  day_le : day ≤ monthDays year month

/-- The days of all years before this one, from year 0 on. -/
def yearsBefore : ℕ → ℕ
  | 0 => 0
  | y + 1 => yearsBefore y + if isLeap y then 366 else 365

/-- The days of the months before this one. -/
def monthsBefore (y : ℕ) : ℕ → ℕ
  | 0 | 1 => 0
  | m + 2 => monthsBefore y (m + 1) + monthDays y (m + 1)

/-- The days before a date. -/
def Date.number (d : Date) : ℕ := yearsBefore d.year + monthsBefore d.year d.month + (d.day - 1)

theorem isLeap_iff (y : ℕ) : isLeap y = true ↔ y % 4 = 0 ∧ y % 100 ≠ 0 ∨ y % 400 = 0 := by
  simp [isLeap]

/-- Every fourth year is a day longer, not the centuries, but their fourths. -/
theorem yearsBefore_eq (y : ℕ) :
    yearsBefore y + (y + 99) / 100 = 365 * y + (y + 3) / 4 + (y + 399) / 400 := by
  induction y with
  | zero => rfl
  | succ y ih =>
    rw [yearsBefore]
    by_cases hleap : isLeap y = true
    · have hrule := (isLeap_iff y).mp hleap
      rw [if_pos hleap]
      omega
    · have hrule := mt (isLeap_iff y).mpr hleap
      rw [if_neg hleap]
      omega

/-- The months from March on come in turns of five with 153 days. -/
theorem monthsBefore_eq (y : ℕ) {m : ℕ} (hlo : 1 ≤ m) (hhi : m ≤ 12) :
    monthsBefore y m = if m ≤ 2 then 31 * (m - 1)
      else (153 * (m - 3) + 2) / 5 + if isLeap y then 60 else 59 := by
  by_cases hleap : isLeap y = true
  · interval_cases m <;> simp [monthsBefore, monthDays, hleap]
  · interval_cases m <;> simp [monthsBefore, monthDays, hleap]

/-- The day number in years that begin with March, which puts the leap day last. -/
theorem number_eq (d : Date) {y mp : ℤ}
    (hy : y = if d.month ≤ 2 then (d.year : ℤ) - 1 else d.year)
    (hmp : mp = if d.month ≤ 2 then (d.month : ℤ) + 9 else d.month - 3) :
    (d.number : ℤ) = 365 * y + y / 4 - y / 100 + y / 400 + (153 * mp + 2) / 5 + d.day + 59 := by
  have hyears := yearsBefore_eq d.year
  have hmonths := monthsBefore_eq d.year d.month_pos d.month_le
  have hday := d.day_pos
  have hleap := isLeap_iff d.year
  have hpos := d.month_pos
  unfold Date.number
  by_cases hearly : d.month ≤ 2
  · rw [if_pos hearly] at hy hmp hmonths
    rw [hmonths, hy, hmp]
    omega
  · rw [if_neg hearly] at hy hmp hmonths
    rw [hmonths, hy, hmp]
    by_cases h : isLeap d.year = true
    · have hrule := hleap.mp h
      rw [if_pos h]
      omega
    · have hrule := mt hleap.mpr h
      rw [if_neg h]
      omega

end Machino.Calendar
