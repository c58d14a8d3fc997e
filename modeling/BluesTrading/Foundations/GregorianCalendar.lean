import Mathlib.Data.Nat.Basic
import Mathlib.Tactic.IntervalCases

namespace BluesTrading.Foundations

structure DayName where
  year : ℕ
  month : ℕ
  day : ℕ
  deriving DecidableEq

structure DayName.Short (n : DayName) : Prop where
  year_lt : n.year < 10000
  month_lt : n.month < 100
  day_lt : n.day < 100

/-- A calendar whose days are `0, …, last`. -/
structure Calendar where
  last : ℕ
  name : ℕ → DayName
  find : DayName → Option ℕ
  /-- How many days after a Sunday the first day is. -/
  firstWeekday : ℕ
  find_name : ∀ d, d ≤ last → find (name d) = some d
  name_find : ∀ n d, find n = some d → d ≤ last ∧ name d = n
  name_short : ∀ d, d ≤ last → (name d).Short

namespace Calendar

def dayOfWeek (cal : Calendar) (d : ℕ) : ℕ := (cal.firstWeekday + d) % 7

end Calendar

/-! ### Locating an offset in consecutive blocks -/

def blocksBefore (len : ℕ → ℕ) : ℕ → ℕ
  | 0 => 0
  | i + 1 => blocksBefore len i + len i

/-- The block that an offset from the start of block `i` falls into, among the next
`count` blocks, and the offset within it. -/
def locateBlock (len : ℕ → ℕ) : (count i offset : ℕ) → ℕ × ℕ
  | 0, i, offset => (i, offset)
  | count + 1, i, offset =>
      if offset < len i then (i, offset) else locateBlock len count (i + 1) (offset - len i)

theorem blocksBefore_mono (len : ℕ → ℕ) {i j : ℕ} (h : i ≤ j) :
    blocksBefore len i ≤ blocksBefore len j := by
  induction j, h using Nat.le_induction with
  | base => exact le_rfl
  | succ j _ ih => exact ih.trans (Nat.le_add_right _ _)

theorem locateBlock_spec (len : ℕ → ℕ) (count i offset : ℕ)
    (h : blocksBefore len i + offset < blocksBefore len (i + count)) :
    let found := locateBlock len count i offset
    found.1 < i + count ∧ found.2 < len found.1 ∧
      blocksBefore len found.1 + found.2 = blocksBefore len i + offset := by
  induction count generalizing i offset with
  | zero =>
      rw [Nat.add_zero] at h
      omega
  | succ count ih =>
      rw [locateBlock]
      split_ifs with hlt
      · exact ⟨by omega, hlt, rfl⟩
      · have hrest : blocksBefore len (i + 1) + (offset - len i) = blocksBefore len i + offset := by
          rw [blocksBefore]
          omega
        have hcount : i + 1 + count = i + (count + 1) := by omega
        obtain ⟨hblock, hoffset, htotal⟩ := ih (i + 1) (offset - len i) (by rwa [hrest, hcount])
        exact ⟨by omega, hoffset, htotal.trans hrest⟩

theorem block_unique (len : ℕ → ℕ) {i j r s : ℕ} (hr : r < len i) (hs : s < len j)
    (h : blocksBefore len i + r = blocksBefore len j + s) : i = j ∧ r = s := by
  have hij : ¬ i < j := by
    intro hlt
    have hle := blocksBefore_mono len (Nat.succ_le_of_lt hlt)
    rw [blocksBefore] at hle
    omega
  have hji : ¬ j < i := by
    intro hlt
    have hle := blocksBefore_mono len (Nat.succ_le_of_lt hlt)
    rw [blocksBefore] at hle
    omega
  obtain rfl : i = j := by omega
  exact ⟨rfl, by omega⟩

/-! ### The Gregorian calendar -/

def isLeapYear (year : ℕ) : Bool :=
  (year % 4 == 0 && year % 100 != 0) || year % 400 == 0

def monthLength (year : ℕ) : ℕ → ℕ
  | 1 => if isLeapYear year then 29 else 28
  | 3 | 5 | 8 | 10 => 30
  | _ => 31

def yearLength (year : ℕ) : ℕ := if isLeapYear year then 366 else 365

theorem blocksBefore_monthLength (year : ℕ) :
    blocksBefore (monthLength year) 12 = yearLength year := by
  unfold yearLength
  cases h : isLeapYear year <;> simp [blocksBefore, monthLength, h]

theorem monthLength_le (year month : ℕ) : monthLength year month ≤ 31 := by
  unfold monthLength
  split
  · split_ifs <;> omega
  all_goals omega

section Gregorian

variable (firstYear years : ℕ)

def yearAt (i : ℕ) : ℕ := yearLength (firstYear + i)

def gregorianName (d : ℕ) : DayName :=
  let year := locateBlock (yearAt firstYear) years 0 d
  let month := locateBlock (monthLength (firstYear + year.1)) 12 0 year.2
  ⟨firstYear + year.1, month.1 + 1, month.2 + 1⟩

def gregorianFind (n : DayName) : Option ℕ :=
  if firstYear ≤ n.year ∧ n.year < firstYear + years ∧ 1 ≤ n.month ∧ n.month ≤ 12 ∧
      1 ≤ n.day ∧ n.day ≤ monthLength n.year (n.month - 1) then
    some (blocksBefore (yearAt firstYear) (n.year - firstYear) +
      (blocksBefore (monthLength n.year) (n.month - 1) + (n.day - 1)))
  else none

variable {firstYear years}

theorem gregorianName_spec {d : ℕ} (h : d < blocksBefore (yearAt firstYear) years) :
    ∃ i m s, gregorianName firstYear years d = ⟨firstYear + i, m + 1, s + 1⟩ ∧
      i < years ∧ m < 12 ∧ s < monthLength (firstYear + i) m ∧
      blocksBefore (monthLength (firstYear + i)) m + s < yearAt firstYear i ∧
      blocksBefore (yearAt firstYear) i +
        (blocksBefore (monthLength (firstYear + i)) m + s) = d := by
  have hyear := locateBlock_spec (yearAt firstYear) years 0 d
    (by rwa [blocksBefore, Nat.zero_add, Nat.zero_add])
  rw [gregorianName]
  generalize locateBlock (yearAt firstYear) years 0 d = year at hyear ⊢
  obtain ⟨hi, hr, hd⟩ := hyear
  have hmonth := locateBlock_spec (monthLength (firstYear + year.1)) 12 0 year.2 (by
    rw [Nat.zero_add 12, blocksBefore_monthLength, blocksBefore, Nat.zero_add]
    exact hr)
  generalize locateBlock (monthLength (firstYear + year.1)) 12 0 year.2 = month at hmonth ⊢
  obtain ⟨hm, hs, hmonths⟩ := hmonth
  rw [blocksBefore, Nat.zero_add] at hd hmonths
  rw [Nat.zero_add] at hi hm
  refine ⟨year.1, month.1, month.2, rfl, hi, hm, hs, ?_, ?_⟩
  · rwa [hmonths]
  · rwa [hmonths]

theorem gregorianFind_name {d : ℕ} (h : d < blocksBefore (yearAt firstYear) years) :
    gregorianFind firstYear years (gregorianName firstYear years d) = some d := by
  obtain ⟨i, m, s, hname, hi, hm, hs, -, hd⟩ := gregorianName_spec h
  rw [hname, gregorianFind]
  simp only [Nat.add_sub_cancel, Nat.add_sub_cancel_left]
  rw [if_pos ⟨by omega, by omega, by omega, by omega, by omega, hs⟩, hd]

theorem dayOfYear_lt {year m s : ℕ} (hm : m < 12) (hs : s < monthLength year m) :
    blocksBefore (monthLength year) m + s < yearLength year := by
  have hle := blocksBefore_mono (monthLength year) (Nat.succ_le_of_lt hm)
  rw [blocksBefore_monthLength, blocksBefore] at hle
  omega

theorem dayOfRange_lt {i r : ℕ} (hi : i < years) (hr : r < yearAt firstYear i) :
    blocksBefore (yearAt firstYear) i + r < blocksBefore (yearAt firstYear) years := by
  have hle := blocksBefore_mono (yearAt firstYear) (Nat.succ_le_of_lt hi)
  rw [blocksBefore] at hle
  omega

theorem gregorianName_find {n : DayName} {d : ℕ} (h : gregorianFind firstYear years n = some d) :
    d < blocksBefore (yearAt firstYear) years ∧ gregorianName firstYear years d = n := by
  obtain ⟨year, month, day⟩ := n
  rw [gregorianFind] at h
  split_ifs at h with hvalid
  obtain ⟨hfirst, hlast, hmonth, hmonth', hday, hday'⟩ := hvalid
  obtain ⟨i, rfl⟩ := Nat.exists_eq_add_of_le hfirst
  obtain ⟨m, rfl⟩ := Nat.exists_eq_add_of_le' hmonth
  obtain ⟨s, rfl⟩ := Nat.exists_eq_add_of_le' hday
  simp only [Nat.add_sub_cancel, Nat.add_sub_cancel_left] at h hday' hlast hmonth'
  obtain rfl := Option.some.inj h
  have hs : s < monthLength (firstYear + i) m := hday'
  have hr : blocksBefore (monthLength (firstYear + i)) m + s < yearAt firstYear i :=
    dayOfYear_lt (by omega) hs
  have hd := dayOfRange_lt (show i < years by omega) hr
  refine ⟨hd, ?_⟩
  obtain ⟨i', m', s', hname, -, -, hs', hr', hd'⟩ := gregorianName_spec hd
  obtain ⟨rfl, hdays⟩ := block_unique (yearAt firstYear) hr' hr hd'
  obtain ⟨rfl, rfl⟩ := block_unique (monthLength (firstYear + i')) hs' hs hdays
  exact hname

end Gregorian

/-- The Gregorian calendar of a range of years. -/
def gregorian (firstYear years firstWeekday : ℕ)
    (hdays : 0 < blocksBefore (yearAt firstYear) years)
    (hyears : firstYear + years ≤ 10000) : Calendar where
  last := blocksBefore (yearAt firstYear) years - 1
  name := gregorianName firstYear years
  find := gregorianFind firstYear years
  firstWeekday := firstWeekday
  find_name := fun d hd => gregorianFind_name (by omega)
  name_find := fun n d h => by
    obtain ⟨hd, hname⟩ := gregorianName_find h
    exact ⟨by omega, hname⟩
  name_short := fun d hd => by
    obtain ⟨i, m, s, hname, hi, hm, hs, -, -⟩ := gregorianName_spec
      (show d < blocksBefore (yearAt firstYear) years by omega)
    have hle := monthLength_le (firstYear + i) m
    rw [hname]
    exact ⟨show firstYear + i < 10000 by omega, show m + 1 < 100 by omega,
      show s + 1 < 100 by omega⟩

end BluesTrading.Foundations
