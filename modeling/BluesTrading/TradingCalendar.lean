import BluesTrading.Foundations.GregorianCalendar
import Mathlib.Data.List.Range
import Mathlib.Order.Interval.Finset.Nat
import Mathlib.Tactic.IntervalCases

namespace BluesTrading.TradingCalendar

open Foundations

def spliteYearMonthDay (date : ℕ) : DayName :=
  let start_year := date / 10000
  let start_month := (date - start_year * 10000) / 100
  let start_day := date % 100
  ⟨start_year, start_month, start_day⟩

def isoNumber (n : DayName) : ℕ := n.year * 10000 + n.month * 100 + n.day

variable (cal : Calendar)

/-- The day with a given date number.  The year is passed on as a 16-bit number; a name
that the calendar does not have raises an exception. -/
def getDateFromNum (date : ℕ) : Option ℕ :=
  let n := spliteYearMonthDay date
  cal.find ⟨n.year % 2 ^ 16, n.month, n.day⟩

def dateNumber (day : ℕ) : ℕ := isoNumber (cal.name day)

/-- The date number of a day.  A day outside the calendar cannot be printed. -/
def getNumFromDate (day : ℕ) : Option ℕ :=
  if day ≤ cal.last then some (dateNumber cal day) else none

/-- The day before, which the first day of the calendar does not have. -/
def dayBefore : ℕ → Option ℕ
  | 0 => none
  | day + 1 => some day

def isWeekend (day : ℕ) : Bool := cal.dayOfWeek day == 0 || cal.dayOfWeek day == 6

def nextWorkingDay (day : ℕ) : ℕ :=
  if cal.dayOfWeek day = 5 then day + 3
  else if cal.dayOfWeek day = 6 then day + 2
  else day + 1

def getNextWorkingDay (current_day : ℕ) : Option ℕ :=
  (getDateFromNum cal current_day).bind fun day => getNumFromDate cal (nextWorkingDay cal day)

/-- The weekdays from one day on and before another, in ascending order. -/
def weekdays (start finish : ℕ) : List ℕ :=
  (List.range' start (finish - start)).filter fun day => !isWeekend cal day

variable {cal}

theorem spliteYearMonthDay_isoNumber {n : DayName} (h : n.Short) :
    spliteYearMonthDay (isoNumber n) = n := by
  obtain ⟨year, month, day⟩ := n
  obtain ⟨hyear, hmonth, hday⟩ := h
  simp only at hyear hmonth hday
  have hdiv : (year * 10000 + month * 100 + day) / 10000 = year := by omega
  simp only [spliteYearMonthDay, isoNumber, hdiv, DayName.mk.injEq, true_and]
  exact ⟨by omega, by omega⟩

theorem getDateFromNum_dateNumber {day : ℕ} (h : day ≤ cal.last) :
    getDateFromNum cal (dateNumber cal day) = some day := by
  have hshort := cal.name_short day h
  have hyear : (cal.name day).year % 2 ^ 16 = (cal.name day).year :=
    Nat.mod_eq_of_lt (hshort.year_lt.trans (by norm_num))
  rw [getDateFromNum, dateNumber, spliteYearMonthDay_isoNumber hshort]
  simp only [hyear]
  exact cal.find_name day h

theorem getDateFromNum_le {date day : ℕ} (h : getDateFromNum cal date = some day) :
    day ≤ cal.last :=
  (cal.name_find _ _ h).1

theorem getNumFromDate_of_le {day : ℕ} (h : day ≤ cal.last) :
    getNumFromDate cal day = some (dateNumber cal day) :=
  if_pos h

theorem eq_dateNumber_of_getNumFromDate {day date : ℕ} (h : getNumFromDate cal day = some date) :
    day ≤ cal.last ∧ date = dateNumber cal day := by
  unfold getNumFromDate at h
  split_ifs at h with hday
  exact ⟨hday, (Option.some.inj h).symm⟩

theorem dateNumber_inj {d e : ℕ} (hd : d ≤ cal.last) (he : e ≤ cal.last)
    (h : dateNumber cal d = dateNumber cal e) : d = e := by
  have hfound := getDateFromNum_dateNumber hd
  rw [h, getDateFromNum_dateNumber he] at hfound
  exact (Option.some.inj hfound).symm

/-! ### The next working day -/

theorem nextWorkingDay_cases (cal : Calendar) (day : ℕ) :
    (cal.firstWeekday + day) % 7 = 5 ∧ nextWorkingDay cal day = day + 3 ∨
    (cal.firstWeekday + day) % 7 = 6 ∧ nextWorkingDay cal day = day + 2 ∨
    (cal.firstWeekday + day) % 7 < 5 ∧ nextWorkingDay cal day = day + 1 := by
  unfold nextWorkingDay Calendar.dayOfWeek
  by_cases hfriday : (cal.firstWeekday + day) % 7 = 5
  · exact .inl ⟨hfriday, if_pos hfriday⟩
  by_cases hsaturday : (cal.firstWeekday + day) % 7 = 6
  · exact .inr (.inl ⟨hsaturday, by rw [if_neg hfriday, if_pos hsaturday]⟩)
  · exact .inr (.inr ⟨by omega, by rw [if_neg hfriday, if_neg hsaturday]⟩)

theorem isWeekend_iff (day : ℕ) :
    isWeekend cal day = true ↔
      (cal.firstWeekday + day) % 7 = 0 ∨ (cal.firstWeekday + day) % 7 = 6 := by
  simp only [isWeekend, Calendar.dayOfWeek, Bool.or_eq_true, beq_iff_eq]

theorem lt_nextWorkingDay (cal : Calendar) (day : ℕ) : day < nextWorkingDay cal day := by
  have hcases := nextWorkingDay_cases cal day
  omega

theorem isWeekend_nextWorkingDay (day : ℕ) : isWeekend cal (nextWorkingDay cal day) = false := by
  rw [Bool.eq_false_iff, Ne, isWeekend_iff]
  have hcases := nextWorkingDay_cases cal day
  omega

theorem isWeekend_of_lt_nextWorkingDay {day d : ℕ} (hd : day < d)
    (hnext : d < nextWorkingDay cal day) : isWeekend cal d = true := by
  rw [isWeekend_iff]
  have hcases := nextWorkingDay_cases cal day
  omega

theorem nextWorkingDay_le_of_weekday {day d : ℕ} (hd : day < d)
    (hweekday : isWeekend cal d = false) : nextWorkingDay cal day ≤ d := by
  by_contra hlt
  rw [isWeekend_of_lt_nextWorkingDay hd (not_le.mp hlt)] at hweekday
  cases hweekday

/-! ### The weekdays of a range -/

theorem mem_weekdays {start finish day : ℕ} :
    day ∈ weekdays cal start finish ↔ start ≤ day ∧ day < finish ∧ isWeekend cal day = false := by
  simp only [weekdays, List.mem_filter, List.mem_range'_1, Bool.not_eq_true']
  constructor
  · rintro ⟨⟨hstart, hfinish⟩, hweekday⟩
    exact ⟨hstart, by omega, hweekday⟩
  · rintro ⟨hstart, hfinish, hweekday⟩
    exact ⟨⟨hstart, by omega⟩, hweekday⟩

theorem weekdays_sorted (cal : Calendar) (start finish : ℕ) :
    (weekdays cal start finish).Pairwise (· < ·) :=
  List.Pairwise.filter _ List.pairwise_lt_range'

theorem weekdays_self (cal : Calendar) (start : ℕ) : weekdays cal start start = [] := by
  simp [weekdays]

theorem weekdays_append (cal : Calendar) {start middle finish : ℕ} (h : start ≤ middle)
    (h' : middle ≤ finish) :
    weekdays cal start finish = weekdays cal start middle ++ weekdays cal middle finish := by
  have hlength : finish - start = (middle - start) + (finish - middle) := by omega
  have hmiddle : start + 1 * (middle - start) = middle := by omega
  rw [weekdays, hlength, ← List.range'_append, List.filter_append, hmiddle]
  rfl

theorem weekdays_cons (cal : Calendar) {day finish : ℕ} (h : day < finish) :
    weekdays cal day finish =
      (if isWeekend cal day then [] else [day]) ++ weekdays cal (day + 1) finish := by
  have hlength : finish - day = (finish - (day + 1)) + 1 := by omega
  rw [weekdays, hlength, List.range'_succ, List.filter_cons, weekdays]
  cases isWeekend cal day <;> rfl

theorem le_last_of_mem_weekdays {start finish day : ℕ} (hfinish : finish ≤ cal.last)
    (h : day ∈ weekdays cal start finish) : day ≤ cal.last := by
  have hday := mem_weekdays.mp h
  omega

/-- The last day of an ascending list is not before any of them. -/
theorem le_getLast_of_pairwise_lt {days : List ℕ} {day : ℕ} (hdays : days.Pairwise (· < ·))
    (hday : days.getLast? = some day) : ∀ d ∈ days, d ≤ day := by
  obtain ⟨init, rfl⟩ := List.getLast?_eq_some_iff.mp hday
  intro d hd
  rcases List.mem_append.mp hd with hd | hd
  · exact ((List.pairwise_append.mp hdays).2.2 d hd day (by simp)).le
  · exact (List.mem_singleton.mp hd).le

/-- From the last of the first weekdays of a range, or from the day before the range,
`getNextWorkingDay` leads to the weekday that comes next. -/
theorem getNextWorkingDay_of_split {start finish day : ℕ} {pre post : List ℕ} {next : ℕ}
    (hfinish : finish ≤ cal.last) (hsplit : weekdays cal (start + 1) finish = pre ++ next :: post)
    (hday : (start :: pre).getLast? = some day) :
    getNextWorkingDay cal (dateNumber cal day) = some (dateNumber cal next) := by
  have hsorted := weekdays_sorted cal (start + 1) finish
  have hnext : next ∈ weekdays cal (start + 1) finish := by
    rw [hsplit]
    simp
  obtain ⟨hstart, hend, hweekday⟩ := mem_weekdays.mp hnext
  have hpairwise : (start :: pre).Pairwise (· < ·) := by
    rw [hsplit] at hsorted
    refine List.pairwise_cons.mpr ⟨fun d hd => ?_, (List.pairwise_append.mp hsorted).1⟩
    have hmem : d ∈ weekdays cal (start + 1) finish := by
      rw [hsplit]
      exact List.mem_append_left _ hd
    have hle := (mem_weekdays.mp hmem).1
    omega
  have hdayLast := le_getLast_of_pairwise_lt hpairwise hday
  have hlt : day < next := by
    rcases List.mem_cons.mp (List.mem_of_getLast? hday) with rfl | hmem
    · omega
    · rw [hsplit] at hsorted
      exact (List.pairwise_append.mp hsorted).2.2 day hmem next (by simp)
  -- The next working day lies in the range, after all of the earlier weekdays.
  have hle := nextWorkingDay_le_of_weekday hlt hweekday
  have hmem : nextWorkingDay cal day ∈ weekdays cal (start + 1) finish := by
    have hday' := lt_nextWorkingDay cal day
    have hstart' := hdayLast start (by simp)
    exact mem_weekdays.mpr ⟨by omega, by omega, isWeekend_nextWorkingDay day⟩
  have heq : nextWorkingDay cal day = next := by
    rw [hsplit] at hmem hsorted
    rcases List.mem_append.mp hmem with hmem | hmem
    · have hle' := hdayLast _ (List.mem_cons_of_mem _ hmem)
      have hlt' := lt_nextWorkingDay cal day
      omega
    · rcases List.mem_cons.mp hmem with heq | hmem
      · exact heq
      · have hlt' := (List.pairwise_cons.mp (List.pairwise_append.mp hsorted).2.1).1 _ hmem
        omega
  rw [getNextWorkingDay, getDateFromNum_dateNumber (by omega), Option.bind_some, heq,
    getNumFromDate_of_le (by omega)]

/-- 2014 and 2015; the first of January 2014 is a Wednesday. -/
def years2014 : Calendar := gregorian 2014 2 3 (by decide) (by decide)

end BluesTrading.TradingCalendar
