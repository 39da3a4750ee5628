import EntitySearch.Instant.Calendar
import Mathlib.Algebra.Order.Ring.Int
import Mathlib.Order.Monotone.Basic
import Mathlib.Tactic.IntervalCases
/-!
The calendar and its count of days. Dates are counted one by one, each from the one before it, and
every day has exactly one date. Years are taken to begin in March, where a leap day ends them.
-/
namespace EntitySearch.Calendar

theorem isLeapYear_iff {y : Int} :
    isLeapYear y = true ↔ y % 4 = 0 ∧ (y % 100 ≠ 0 ∨ y % 400 = 0) := by
  simp [isLeapYear]

theorem daysInMonth_february (y : Int) :
    daysInMonth y 2 = if isLeapYear y then 29 else 28 := rfl

theorem le_daysInMonth (y : Int) (m : Nat) : 28 ≤ daysInMonth y m := by
  unfold daysInMonth
  split
  · split <;> decide
  all_goals decide

theorem daysInMonth_le (y : Int) (m : Nat) : daysInMonth y m ≤ 31 := by
  unfold daysInMonth
  split
  · split <;> decide
  all_goals decide

theorem valid_iff {d : Date} : d.valid = true ↔
    (1 ≤ d.month ∧ d.month ≤ 12) ∧ 1 ≤ d.day ∧ d.day ≤ daysInMonth d.year d.month := by
  simp [Date.valid, and_assoc]

section MarchYears

/-- Days from the year 0 on before a year that begins in March. -/
def yearStart (y : Int) : Int := 365 * y + y / 4 - y / 100 + y / 400

/-- February ends a year that begins in March. -/
theorem yearStart_eq (y : Int) : yearStart y = yearStart (y - 1) + 337 + daysInMonth y 2 := by
  rw [daysInMonth_february]
  unfold yearStart
  split
  next h =>
    have := isLeapYear_iff.mp h
    omega
  next h =>
    rw [isLeapYear_iff] at h
    omega

/-- The days of 400 years without most of the leap days. -/
def evenDays (n : Int) : Int := n - n / 1460 + n / 36524 - n / 146096

theorem evenDays_succ (n : Int) : evenDays n ≤ evenDays (n + 1) := by
  have h : n / 146096 = n / 36524 / 4 := by omega
  have h' : (n + 1) / 146096 = (n + 1) / 36524 / 4 := by omega
  unfold evenDays
  rw [h, h']
  omega

theorem evenDays_mono {m n : Int} (h : m ≤ n) : evenDays m ≤ evenDays n :=
  monotone_int_of_le_succ evenDays_succ h

theorem evenDays_ends : ∀ y : Fin 400, 365 * (y : Int) ≤ evenDays (yearStart y) ∧
    evenDays (yearStart (y + 1) - 1) < 365 * (y + 1) := by
  decide +kernel

/-- The first and the last day of a year decide for all of its days. -/
theorem evenDays_div {y n : Int} (hy : 0 ≤ y ∧ y < 400) (hfirst : yearStart y ≤ n)
    (hlast : n < yearStart (y + 1)) : evenDays n / 365 = y := by
  obtain ⟨hstart, hend⟩ := evenDays_ends ⟨y.toNat, by omega⟩
  have hcast : ((y.toNat : Nat) : Int) = y := Int.toNat_of_nonneg hy.1
  simp only [hcast] at hstart hend
  have hfrom := evenDays_mono hfirst
  have huntil := evenDays_mono (show n ≤ yearStart (y + 1) - 1 by omega)
  omega

end MarchYears

namespace Date

/-- The year of a date when years begin in March. -/
def marchYear (d : Date) : Int := if d.month ≤ 2 then d.year - 1 else d.year

/-- The month of a date, March being 0. -/
def marchMonth (d : Date) : Int := if d.month ≤ 2 then d.month + 9 else d.month - 3

/-- Days since the first of March. -/
def marchDay (d : Date) : Int := (153 * d.marchMonth + 2) / 5 + d.day - 1

theorem toDays_eq (d : Date) : d.toDays = yearStart d.marchYear + d.marchDay - 719468 := by
  have h : d.toDays = d.marchYear / 400 * 146097 + (d.marchYear % 400 * 365 +
      d.marchYear % 400 / 4 - d.marchYear % 400 / 100 + d.marchDay) - 719468 := rfl
  rw [h, yearStart]
  omega

/-- The date of the day after. -/
def next (d : Date) : Date :=
  if d.day < daysInMonth d.year d.month then ⟨d.year, d.month, d.day + 1⟩
  else if d.month < 12 then ⟨d.year, d.month + 1, 1⟩
  else ⟨d.year + 1, 1, 1⟩

end Date

section Counting

theorem toDays_day (y : Int) (m day : Nat) :
    (⟨y, m, day⟩ : Date).toDays = (⟨y, m, 1⟩ : Date).toDays + day - 1 := by
  simp only [Date.toDays]
  omega

theorem toDays_nextMonth (y : Int) {m : Nat} (h : 1 ≤ m ∧ m ≤ 11) :
    (⟨y, m + 1, 1⟩ : Date).toDays = (⟨y, m, 1⟩ : Date).toDays + daysInMonth y m := by
  have hyear := yearStart_eq y
  simp only [Date.toDays_eq, Date.marchDay, Date.marchYear, Date.marchMonth]
  obtain ⟨hfirst, hlast⟩ := h
  -- from February to March the year changes
  by_cases hfebruary : m = 2
  · subst hfebruary
    simp
    omega
  · interval_cases m <;> simp [daysInMonth] at * <;> omega

theorem toDays_nextYear (y : Int) :
    (⟨y + 1, 1, 1⟩ : Date).toDays = (⟨y, 12, 1⟩ : Date).toDays + 31 := by
  simp [Date.toDays_eq, Date.marchDay, Date.marchYear, Date.marchMonth]
  omega

theorem valid_next {d : Date} (h : d.valid = true) : d.next.valid = true := by
  obtain ⟨⟨hfirst, hlast⟩, hday, -⟩ := valid_iff.mp h
  have hmonth := le_daysInMonth d.year (d.month + 1)
  have hyear := le_daysInMonth (d.year + 1) 1
  rw [valid_iff]
  unfold Date.next
  split
  · dsimp only
    omega
  · split <;> dsimp only <;> omega

/-- Days are counted one by one. -/
theorem toDays_next {d : Date} (h : d.valid = true) : d.next.toDays = d.toDays + 1 := by
  obtain ⟨⟨hfirst, hlast⟩, hday, hend⟩ := valid_iff.mp h
  obtain ⟨y, m, day⟩ := d
  dsimp only at hfirst hlast hday hend
  unfold Date.next
  dsimp only
  rw [toDays_day y m day]
  split
  next =>
    rw [toDays_day]
    omega
  next hlastDay =>
    split
    next =>
      rw [toDays_nextMonth y (by omega)]
      omega
    next =>
      obtain rfl : m = 12 := by omega
      have hdecember : daysInMonth y 12 = 31 := rfl
      rw [toDays_nextYear]
      omega

theorem exists_toDays_eq (n : Int) : ∃ d : Date, d.valid = true ∧ d.toDays = n := by
  have hfrom (y : Int) (k : Nat) :
      ∃ d : Date, d.valid = true ∧ d.toDays = (⟨y, 3, 1⟩ : Date).toDays + k := by
    induction k with
    | zero => exact ⟨⟨y, 3, 1⟩, rfl, by omega⟩
    | succ k ih =>
      obtain ⟨d, hd, hk⟩ := ih
      exact ⟨d.next, valid_next hd, by rw [toDays_next hd, hk]; omega⟩
  -- the day itself, taken as a year, lies far enough back
  have hstart : (⟨min n 0, 3, 1⟩ : Date).toDays ≤ n := by
    simp [Date.toDays_eq, Date.marchYear, Date.marchDay, Date.marchMonth, yearStart]
    omega
  obtain ⟨d, hd, hk⟩ := hfrom (min n 0) (n - (⟨min n 0, 3, 1⟩ : Date).toDays).toNat
  exact ⟨d, hd, by omega⟩

end Counting

section Dates

/-- The date of a day of a year that begins in March. -/
theorem ofDays_eq {y n : Int} (hn : 0 ≤ n ∧ n < yearStart (y + 1) - yearStart y) :
    Date.ofDays (yearStart y + n - 719468) =
      let m := (5 * n + 2) / 153
      let month := if m < 10 then m + 3 else m - 9
      ⟨if month ≤ 2 then y + 1 else y, month.toNat, (n - (153 * m + 2) / 5 + 1).toNat⟩ := by
  -- every 400 years the calendar repeats itself
  have hstart : 0 ≤ yearStart (y % 400) ∧ yearStart (y % 400 + 1) ≤ 146097 ∧
      yearStart y = 146097 * (y / 400) + yearStart (y % 400) ∧
      yearStart (y + 1) - yearStart y = yearStart (y % 400 + 1) - yearStart (y % 400) := by
    unfold yearStart
    omega
  have hera : (yearStart y + n - 719468 + 719468) / 146097 = y / 400 := by omega
  have hday : (yearStart y + n - 719468 + 719468) % 146097 = yearStart (y % 400) + n := by omega
  have hyear := evenDays_div (y := y % 400) (n := yearStart (y % 400) + n) (by omega) (by omega)
    (by omega)
  have hrest : yearStart (y % 400) + n - (365 * (y % 400) + y % 400 / 4 - y % 400 / 100) = n := by
    unfold yearStart
    omega
  have hsum : y / 400 * 400 + y % 400 = y := by omega
  unfold evenDays at hyear
  simp only [Date.ofDays, hera, hday, hyear, hrest, hsum]

variable {d : Date}

theorem marchDay_bounds (h : d.valid = true) :
    0 ≤ d.marchDay ∧ d.marchDay < yearStart (d.marchYear + 1) - yearStart d.marchYear := by
  obtain ⟨⟨hfirst, hlast⟩, hday, hend⟩ := valid_iff.mp h
  have hyear := yearStart_eq (d.marchYear + 1)
  rw [Int.add_sub_cancel] at hyear
  have hmost := daysInMonth_le d.year d.month
  have hleast := le_daysInMonth (d.marchYear + 1) 2
  by_cases hfebruary : d.month = 2
  · have hsame : d.marchYear + 1 = d.year := by simp [Date.marchYear, hfebruary]
    rw [hsame] at hyear ⊢
    rw [hfebruary] at hend
    simp only [Date.marchDay, Date.marchMonth, hfebruary]
    omega
  · unfold Date.marchDay Date.marchMonth
    omega

theorem marchMonth_eq (h : d.valid = true) : (5 * d.marchDay + 2) / 153 = d.marchMonth := by
  obtain ⟨⟨hfirst, hlast⟩, hday, hend⟩ := valid_iff.mp h
  obtain ⟨y, m, day⟩ := d
  dsimp only at hfirst hlast hday hend
  unfold Date.marchDay Date.marchMonth
  by_cases hfebruary : m = 2
  · subst hfebruary
    rw [daysInMonth_february] at hend
    simp only
    split at hend <;> omega
  · interval_cases m <;> simp [daysInMonth] at * <;> omega

theorem ofDays_toDays (h : d.valid = true) : Date.ofDays d.toDays = d := by
  have hmonth := marchMonth_eq h
  rw [Date.toDays_eq, ofDays_eq (marchDay_bounds h)]
  simp only [hmonth]
  obtain ⟨⟨hfirst, hlast⟩, hday, -⟩ := valid_iff.mp h
  obtain ⟨y, m, day⟩ := d
  unfold Date.marchDay Date.marchMonth Date.marchYear
  dsimp only at hfirst hlast hday
  simp only [Date.mk.injEq]
  refine ⟨?_, ?_, ?_⟩ <;> omega

theorem valid_ofDays (n : Int) : (Date.ofDays n).valid = true := by
  obtain ⟨d, hd, rfl⟩ := exists_toDays_eq n
  rwa [ofDays_toDays hd]

theorem toDays_ofDays (n : Int) : (Date.ofDays n).toDays = n := by
  obtain ⟨d, hd, rfl⟩ := exists_toDays_eq n
  rw [ofDays_toDays hd]

/-- The dates of successive days follow each other in the calendar. -/
theorem ofDays_succ (n : Int) : Date.ofDays (n + 1) = (Date.ofDays n).next := by
  have hvalid := valid_ofDays n
  rw [← ofDays_toDays (valid_next hvalid), toDays_next hvalid, toDays_ofDays]

/-- Days are counted from here. -/
theorem ofDays_zero : Date.ofDays 0 = ⟨1970, 1, 1⟩ := by decide

end Dates
end EntitySearch.Calendar
