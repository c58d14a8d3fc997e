import BluesTrading.Numerals
import BluesTrading.TickCsv

namespace BluesTrading.TimeText

open BluesTrading.SourceText
open BluesTrading.TickCsv

/-! ### The two functions -/

/-- A number that zeros fill up to a width, which counts the sign. -/
def zeroFilled (width : ℕ) (n : ℤ) : Str :=
  if n < 0 then '-' :: (digits n.natAbs).leftpad (width - 1) '0'
  else (digits n.natAbs).leftpad width '0'

def format (hour minute second milliSecond : ℤ) : Str :=
  zeroFilled 2 hour ++ ':' :: (zeroFilled 2 minute ++ ':' ::
    (zeroFilled 2 second ++ '.' :: zeroFilled 3 milliSecond))

/-- A text and the zero at its end are written into a buffer; what does not fit has no defined
value. -/
def sprintf (bufferSize : ℕ) (text : Str) : Option Str :=
  if text.length < bufferSize then some text else none

/-- The parts are of type `int`, and an operation that meets one of them and an unsigned number
is unsigned. -/
def getTimeInMSStr (timeInMS : ℕ) : Option Str :=
  let milliSecond := castInt32 (timeInMS % 1000 : ℕ)
  let seconds := castUInt32 (timeInMS - milliSecond) / 1000
  let second := (castInt32 seconds).tmod 60
  let minutes := castUInt32 (seconds - second) / 60
  let minute := (castInt32 minutes).tmod 60
  let hour := castInt32 (castUInt32 (minutes - minute) / 60 : ℕ)
  sprintf 64 (format hour minute second milliSecond)

def getTimeStr (timeInMS : ℕ) : Str :=
  let ms := timeInMS % 1000
  let s := timeInMS / 1000 % 60
  let min := timeInMS / (60 * 1000) % 60
  let hour := timeInMS / (60 * 60 * 1000)
  format hour min s ms

/-! ### Clock times -/

@[ext] structure ClockTime where
  hour : ℕ
  minute : ℕ
  second : ℕ
  milliSecond : ℕ
  minute_lt : minute < 60
  second_lt : second < 60
  milliSecond_lt : milliSecond < 1000

namespace ClockTime

def total (time : ClockTime) : ℕ :=
  time.hour * 3600000 + time.minute * 60000 + time.second * 1000 + time.milliSecond

def ofTotal (timeInMS : ℕ) : ClockTime where
  hour := timeInMS / 3600000
  minute := timeInMS / 60000 % 60
  second := timeInMS / 1000 % 60
  milliSecond := timeInMS % 1000
  minute_lt := Nat.mod_lt _ (by decide)
  second_lt := Nat.mod_lt _ (by decide)
  milliSecond_lt := Nat.mod_lt _ (by decide)

/-- A number of milliseconds is the time of exactly one clock. -/
def equiv : ClockTime ≃ ℕ where
  toFun := total
  invFun := ofTotal
  left_inv time := by
    obtain ⟨hour, minute, second, milliSecond, hminute, hsecond, hmilliSecond⟩ := time
    ext <;> simp only [total, ofTotal] <;> omega
  right_inv timeInMS := by
    simp only [total, ofTotal]
    omega

def print (time : ClockTime) : Str :=
  format time.hour time.minute time.second time.milliSecond

end ClockTime

/-! ### Numbers that are filled up -/

section ZeroFilled

variable (width n : ℕ)

theorem zeroFilled_natCast : zeroFilled width n =
    List.replicate (width - (digits n).length) '0' ++ digits n := by
  rw [zeroFilled, if_neg (by omega), Int.natAbs_natCast, List.leftpad]

theorem isNumeral_zeroFilled : IsNumeral (zeroFilled width n) := by
  rw [zeroFilled_natCast]
  obtain ⟨hne, hdigits⟩ := isNumeral_digits n
  refine ⟨List.append_ne_nil_of_right_ne_nil _ hne, fun c hc => ?_⟩
  rcases List.mem_append.mp hc with hc | hc
  · rw [List.eq_of_mem_replicate hc]
    rfl
  · exact hdigits c hc

theorem digitsValue_replicate_zero : digitsValue (List.replicate n '0') = 0 := by
  induction n with
  | zero => rfl
  | succ n ih => rw [List.replicate_succ', digitsValue_append, ih]; rfl

theorem digitsValue_zeroFilled : digitsValue (zeroFilled width n) = n := by
  rw [zeroFilled_natCast, digitsValue_append, digitsValue_replicate_zero, digitsValue_digits,
    Nat.mul_zero, Nat.zero_add]

theorem atoi_zeroFilled_append {rest : Str} (hrest : ∀ c ∈ rest.head?, c.isDigit = false) :
    atoi (zeroFilled width n ++ rest) = n := by
  rw [atoi_append (isNumeral_zeroFilled width n) hrest, digitsValue_zeroFilled]

theorem atoi_zeroFilled : atoi (zeroFilled width n) = n := by
  rw [atoi_of_isNumeral (isNumeral_zeroFilled width n), digitsValue_zeroFilled]

variable {width n}

theorem zeroFilled_inj {width' m : ℕ} (h : zeroFilled width m = zeroFilled width' n) : m = n := by
  rw [← digitsValue_zeroFilled width m, h, digitsValue_zeroFilled]

theorem zeroFilled_append_inj {width' m : ℕ} {c : Char} (hc : c.isDigit = false) {rest rest' : Str}
    (h : zeroFilled width m ++ c :: rest = zeroFilled width' n ++ c :: rest') :
    m = n ∧ rest = rest' :=
  (numeral_append_inj hc (isNumeral_zeroFilled width m) (isNumeral_zeroFilled width' n) h).imp_left
    zeroFilled_inj

theorem length_zeroFilled {k : ℕ} (hk : 0 < k) (h : n < 10 ^ k) :
    (zeroFilled width n).length ≤ max width k := by
  have hlength : (digits n).length ≤ k := (Nat.length_toDigits_le_iff (by decide) hk).mpr h
  rw [zeroFilled_natCast, List.length_append, List.length_replicate]
  omega

end ZeroFilled

/-! ### What is printed and read -/

namespace ClockTime

variable (time : ClockTime)

theorem splitOnP_print : time.print.splitOnP (· ∈ [' ', ':']) =
    [zeroFilled 2 time.hour, zeroFilled 2 time.minute,
      zeroFilled 2 time.second ++ '.' :: zeroFilled 3 time.milliSecond] := by
  have hnumeral : ∀ width n : ℕ, ∀ c ∈ zeroFilled width n, decide (c ∈ [' ', ':']) = false :=
    fun width n => not_separator (isNumeral_zeroFilled width n) (by simp)
  have hlast : ∀ c ∈ zeroFilled 2 time.second ++ '.' :: zeroFilled 3 time.milliSecond,
      decide (c ∈ [' ', ':']) = false := by
    intro c hc
    rcases List.mem_append.mp hc with hc | hc
    · exact hnumeral 2 time.second c hc
    · rcases List.mem_cons.mp hc with rfl | hc
      · decide
      · exact hnumeral 3 time.milliSecond c hc
  rw [print, format,
    List.splitOnP_append_cons_of_forall_mem (hnumeral 2 time.hour) _ (by decide),
    List.splitOnP_append_cons_of_forall_mem (hnumeral 2 time.minute) _ (by decide),
    List.splitOnP_eq_singleton hlast]

/-- The milliseconds come after a point, where `atoi` stops. -/
theorem getTime_print (h : time.total < 2 ^ 32) :
    getTime time.print = some (time.total - time.milliSecond) := by
  have hread : time.total - time.milliSecond =
      time.hour * 3600 * 1000 + time.minute * 60 * 1000 + time.second * 1000 := by
    unfold total
    omega
  have hsecond : atoi (zeroFilled 2 time.second ++ '.' :: zeroFilled 3 time.milliSecond) =
      time.second := atoi_zeroFilled_append 2 time.second (by simp)
  rw [getTime, splitOnP_print]
  simp only [atoi_zeroFilled, hsecond]
  rw [hread]
  exact_mod_cast congrArg some (castUInt32_of_lt (hread ▸ (Nat.sub_le _ _).trans_lt h))

theorem print_injective : Function.Injective print := by
  intro time time' h
  obtain ⟨hhour, h⟩ := zeroFilled_append_inj (by decide) h
  obtain ⟨hminute, h⟩ := zeroFilled_append_inj (by decide) h
  obtain ⟨hsecond, h⟩ := zeroFilled_append_inj (by decide) h
  exact ClockTime.ext hhour hminute hsecond (zeroFilled_inj h)

end ClockTime

theorem getTimeStr_eq (timeInMS : ℕ) : getTimeStr timeInMS = (ClockTime.ofTotal timeInMS).print :=
  rfl

theorem getTimeStr_injective : Function.Injective getTimeStr := by
  intro timeInMS timeInMS' h
  rw [getTimeStr_eq, getTimeStr_eq] at h
  exact ClockTime.equiv.symm.injective (ClockTime.print_injective h)

/-! ### Signed and unsigned arithmetic -/

theorem castInt32_of_lt {n : ℕ} (h : n < 2 ^ 31) : castInt32 n = n :=
  Int.bmod_eq_of_le (by omega) (by omega)

theorem castInt32_tmod {n : ℕ} (h : n < 2 ^ 31) (k : ℕ) : (castInt32 n).tmod k = (n % k : ℕ) := by
  rw [castInt32_of_lt h]
  rfl

/-- A division that is exact after its remainder is taken off. -/
theorem castUInt32_sub_mod_div {n : ℕ} (h : n < 2 ^ 32) (k : ℕ) :
    castUInt32 ((n : ℤ) - (n % k : ℕ)) / k = n / k := by
  rw [← Nat.cast_sub (Nat.mod_le n k), castUInt32_of_lt ((Nat.sub_le n _).trans_lt h),
    ← Nat.div_eq_sub_mod_div]

theorem length_print {time : ClockTime} (h : time.hour < 10 ^ 10) : time.print.length < 64 := by
  have hminute := time.minute_lt
  have hsecond := time.second_lt
  have hmilliSecond := time.milliSecond_lt
  have hhourText := @length_zeroFilled 2 time.hour 10 (by decide) h
  have hminuteText := @length_zeroFilled 2 time.minute 2 (by decide) (by omega)
  have hsecondText := @length_zeroFilled 2 time.second 2 (by decide) (by omega)
  have hmilliSecondText := @length_zeroFilled 3 time.milliSecond 3 (by decide) (by omega)
  simp only [ClockTime.print, format, List.length_append, List.length_cons]
  omega

/-- None of the operations leaves the range of its type, and the text fits into the buffer. -/
theorem getTimeInMSStr_eq {timeInMS : ℕ} (h : timeInMS < 2 ^ 32) :
    getTimeInMSStr timeInMS = some (ClockTime.ofTotal timeInMS).print := by
  have hms : castInt32 (timeInMS % 1000 : ℕ) = (timeInMS % 1000 : ℕ) :=
    castInt32_of_lt ((Nat.mod_lt timeInMS (by decide)).trans (by decide))
  have hseconds : timeInMS / 1000 < 2 ^ 31 := by omega
  have hminutes : timeInMS / 1000 / 60 < 2 ^ 31 := (Nat.div_le_self _ _).trans_lt hseconds
  have hhours : timeInMS / 1000 / 60 / 60 < 2 ^ 31 := (Nat.div_le_self _ _).trans_lt hminutes
  have hmod : ∀ n : ℕ, n < 2 ^ 31 → (castInt32 n).tmod 60 = (n % 60 : ℕ) :=
    fun n hn => castInt32_tmod hn 60
  have hwide : ∀ n : ℕ, n < 2 ^ 31 → n < 2 ^ 32 := fun n hn => hn.trans (by decide)
  unfold getTimeInMSStr
  simp only [hms, castUInt32_sub_mod_div h, hmod _ hseconds,
    castUInt32_sub_mod_div (hwide _ hseconds), hmod _ hminutes,
    castUInt32_sub_mod_div (hwide _ hminutes), castInt32_of_lt hhours]
  simp only [Nat.div_div_eq_div_mul, Nat.reduceMul]
  have hlength : (ClockTime.ofTotal timeInMS).print.length < 64 :=
    length_print ((Nat.div_le_self timeInMS 3600000).trans_lt (h.trans (by decide)))
  simp only [ClockTime.print, ClockTime.ofTotal] at hlength ⊢
  rw [sprintf, if_pos hlength]

/-- For every time in 32 bits both functions print the same, and on the times of a day `getTime`
reads the whole seconds of what they print. -/
theorem getTimeInMSStr_eq_getTimeStr {timeInMS : ℕ} (h : timeInMS < 2 ^ 32) :
    getTimeInMSStr timeInMS = some (getTimeStr timeInMS) ∧
      (timeInMS < 86400000 →
        getTime (getTimeStr timeInMS) = some (timeInMS - timeInMS % 1000)) := by
  refine ⟨getTimeInMSStr_eq h, fun _ => ?_⟩
  have htotal : (ClockTime.ofTotal timeInMS).total = timeInMS :=
    ClockTime.equiv.apply_symm_apply timeInMS
  rw [getTimeStr_eq, ClockTime.getTime_print _ (htotal.trans_lt h), htotal]
  rfl

theorem getTimeInMSStr_eq_getTimeStr_lastOfDay :
    getTimeInMSStr 86399999 = some (getTimeStr 86399999) ∧
      (86399999 < 86400000 → getTime (getTimeStr 86399999) = some (86399999 - 86399999 % 1000)) :=
  getTimeInMSStr_eq_getTimeStr (by decide)

end BluesTrading.TimeText
