import BluesTrading.Numerals
import BluesTrading.TickCsv

namespace BluesTrading.TickCsvFile

open BluesTrading.OrderData
open BluesTrading.SourceText
open BluesTrading.TickArchive
open BluesTrading.TickCsv

variable {texts : Str → Option Str} {fileName header : Str} {data : List Str}
  {store : MarketDataStore}

/-! ### The lines one after the other -/

def price (line : Str) : ℚ := atof ((split line).getD 1 [])

def volume (line : Str) : ℤ := atoi ((split line).getD 2 [])

theorem castUInt64_castInt32_emod (n : ℤ) :
    ((castUInt64 (castInt32 n) : ℕ) : ℤ) % 2 ^ 32 = n % 2 ^ 32 := by
  have hwide : ((castUInt64 (castInt32 n) : ℕ) : ℤ) = castInt32 n % 2 ^ 64 :=
    Int.toNat_of_nonneg (Int.emod_nonneg _ (by decide))
  rw [hwide, Int.emod_emod_of_dvd _ (by decide)]
  exact Int.bmod_emod

theorem ExtractTick_totals {line : Str} (h : Readable line) (instIndex : ℕ) (totals : Totals) :
    ∃ tick totals', ExtractTick line instIndex totals = some (tick, totals') ∧
      (totals'.totVol : ℤ) % 2 ^ 32 = (totals.totVol + 100 * volume line) % 2 ^ 32 ∧
      (tick.totVol : ℤ) = (totals.totVol + 100 * volume line) % 2 ^ 32 ∧
      tick.turnover = totals.trunover ∧ totals'.trunover = totals.trunover ∧
      getTime ((split line).getD 0 []) = some tick.timeInMS := by
  obtain ⟨timeInMs, htime, hextract⟩ := ExtractTick_eq h instIndex totals
  have hstep : (((totals.totVol + castUInt64 (castInt32 (volume line * 100))) % 2 ^ 64 : ℕ) : ℤ) %
      2 ^ 32 = (totals.totVol + 100 * volume line) % 2 ^ 32 := by
    rw [Int.natCast_mod, Nat.cast_pow, Nat.cast_ofNat, Int.emod_emod_of_dvd _ (by decide),
      Nat.cast_add, Int.add_emod, castUInt64_castInt32_emod, ← Int.add_emod,
      Int.mul_comm (volume line)]
  refine ⟨_, _, hextract, hstep, ?_, rfl, rfl, htime⟩
  rw [← hstep]
  exact Int.natCast_mod _ _

/-- The ticks of readable lines.  The turnover stays what it is. -/
theorem extractTicks_spec {lines : List Str} (h : ∀ line ∈ lines, Readable line) (instIndex : ℕ)
    (totals : Totals) :
    ∃ ticks, extractTicks instIndex lines totals = some ticks ∧ ticks.length = lines.length ∧
      ∀ k line tick, lines[k]? = some line → ticks[k]? = some tick →
        (tick.totVol : ℤ) =
          (totals.totVol + 100 * ((lines.take (k + 1)).map volume).sum) % 2 ^ 32 ∧
        tick.turnover = totals.trunover ∧
        getTime ((split line).getD 0 []) = some tick.timeInMS := by
  induction lines generalizing totals with
  | nil => exact ⟨[], rfl, rfl, by simp⟩
  | cons first lines ih =>
      obtain ⟨tick, totals', hextract, htotal, htotVol, hturnover, hsame, htime⟩ :=
        ExtractTick_totals (h first List.mem_cons_self) instIndex totals
      obtain ⟨ticks, hticks, hlength, hspec⟩ :=
        ih (fun line hline => h line (List.mem_cons_of_mem first hline)) totals'
      have hall : extractTicks instIndex (first :: lines) totals = some (tick :: ticks) := by
        simp only [extractTicks, hextract, hticks, Option.bind_eq_bind, Option.bind_some,
          Option.pure_def]
      refine ⟨tick :: ticks, hall, congrArg Nat.succ hlength, fun k line later hline hlater => ?_⟩
      cases k with
      | zero =>
          obtain rfl := Option.some.inj hline
          obtain rfl := Option.some.inj hlater
          exact ⟨by simpa using htotVol, hturnover, htime⟩
      | succ k =>
          obtain ⟨hlaterVol, hlaterTurnover, hlaterTime⟩ := hspec k line later hline hlater
          refine ⟨hlaterVol.trans ?_, hlaterTurnover.trans hsame, hlaterTime⟩
          rw [Int.add_emod, htotal, ← Int.add_emod, List.take_succ_cons, List.map_cons,
            List.sum_cons, Int.mul_add, Int.add_assoc]

/-! ### The file -/

/-- A header, and lines that can be read, in a file with a name that is long enough. -/
structure WellFormed (texts : Str → Option Str) (fileName header : Str) (data : List Str) :
    Prop where
  text : ∃ text, texts fileName = some text ∧ lines text = header :: data
  nonempty : data ≠ []
  readable : ∀ line ∈ data, Readable line
  date : ∀ line ∈ data.head?, (getDate (line.take 10)).isSome
  name : 10 ≤ fileName.length

theorem loadFromRawFile_spec (h : WellFormed texts fileName header data)
    (store : MarketDataStore) :
    ∃ (store' : MarketDataStore) (ticks : List CTickData),
      loadFromRawFile texts fileName store = some store' ∧
      store'.tickDataVec = store.tickDataVec ++ ticks.map some ∧ ticks.length = data.length ∧
      (∀ line ∈ data.head?, getDate (line.take 10) = some store'.date) ∧
      ∀ k line tick, data[k]? = some line → ticks[k]? = some tick →
        (tick.totVol : ℤ) = 100 * ((data.take (k + 1)).map volume).sum % 2 ^ 32 ∧
        tick.turnover = 0 ∧ getTime ((split line).getD 0 []) = some tick.timeInMS := by
  obtain ⟨text, htext, hlines⟩ := h.text
  obtain ⟨first, rest, rfl⟩ := List.exists_cons_of_ne_nil h.nonempty
  obtain ⟨date, hdate⟩ := Option.isSome_iff_exists.mp (h.date first rfl)
  obtain ⟨part, hpart⟩ : ∃ part, nameIndex fileName = some part :=
    ⟨_, if_neg (not_lt.mpr h.name)⟩
  obtain ⟨ticks, hticks, hlength, hspec⟩ :=
    extractTicks_spec h.readable (castUInt32 (atoi part)) ⟨0, 0, 0⟩
  have hfirst : firstData text = first := by rw [firstData, hlines]
  simp only [extractTicks, Option.bind_eq_bind, Option.bind_eq_some_iff, Option.pure_def] at hticks
  obtain ⟨⟨tick, totals⟩, hextract, later, hlater, heq⟩ := hticks
  obtain rfl := Option.some.inj heq
  refine ⟨{ store with
      instIndex := castUInt32 (atoi part)
      date := date
      tickDataVec := store.tickDataVec ++ (tick :: later).map some }, tick :: later, ?_, rfl,
    hlength, ?_, fun k line tick' hline htick => ?_⟩
  · simp only [loadFromRawFile, htext, hfirst, hpart, hdate, hextract, hlines, hlater,
      List.drop_succ_cons, List.drop_zero, Option.bind_eq_bind, Option.bind_some, Option.pure_def]
  · rintro line hline
    obtain rfl := Option.some.inj hline
    exact hdate
  · simpa using hspec k line tick' hline htick

theorem ticks_unique {store' store'' : MarketDataStore} {ticks ticks' : List CTickData}
    (hload : loadFromRawFile texts fileName store = some store')
    (hload' : loadFromRawFile texts fileName store = some store'')
    (hticks : store'.tickDataVec = store.tickDataVec ++ ticks.map some)
    (hticks' : store''.tickDataVec = store.tickDataVec ++ ticks'.map some) : ticks = ticks' := by
  obtain rfl := Option.some.inj (hload.symm.trans hload')
  have hmap := List.append_cancel_left (hticks.symm.trans hticks')
  exact List.map_injective_iff.mpr (Option.some_injective _) hmap

/-! ### The totals -/

/-- Each tick has the volume and the turnover of the lines up to its own. -/
def RunningTotals (data : List Str) (ticks : List CTickData) : Prop :=
  ∀ k tick, ticks[k]? = some tick →
    (tick.totVol : ℤ) = 100 * ((data.take (k + 1)).map volume).sum ∧
    tick.turnover = ((data.take (k + 1)).map fun line => price line * 100 * volume line).sum

theorem forall_eq_zero_of_sums {f : Str → ℚ} {data : List Str}
    (h : ∀ k < data.length, ((data.take (k + 1)).map f).sum = 0) : ∀ line ∈ data, f line = 0 := by
  induction data with
  | nil => simp
  | cons first data ih =>
      have hfirst : f first = 0 := by simpa using h 0 (by simp)
      refine List.forall_mem_cons.mpr ⟨hfirst, ih fun k hk => ?_⟩
      simpa [hfirst] using h (k + 1) (by simpa using hk)

theorem exists_line {ticks : List CTickData} (hlength : ticks.length = data.length) {k : ℕ}
    {tick : CTickData} (htick : ticks[k]? = some tick) : ∃ line, data[k]? = some line :=
  ⟨_, List.getElem?_eq_getElem (hlength ▸ (List.getElem?_eq_some_iff.mp htick).1)⟩

theorem turnover_eq_zero_of_runningTotals {store' : MarketDataStore} {ticks : List CTickData}
    (h : WellFormed texts fileName header data)
    (hload : loadFromRawFile texts fileName store = some store')
    (hticks : store'.tickDataVec = store.tickDataVec ++ ticks.map some)
    (htotals : RunningTotals data ticks) : ∀ line ∈ data, price line * volume line = 0 := by
  obtain ⟨store'', ticks', hload', hticks', hlength, -, hspec⟩ := loadFromRawFile_spec h store
  obtain rfl := ticks_unique hload hload' hticks hticks'
  have hzero : ∀ k < data.length,
      ((data.take (k + 1)).map fun line => price line * 100 * volume line).sum = 0 := by
    intro k hk
    have htick := List.getElem?_eq_getElem (hk.trans_eq hlength.symm)
    obtain ⟨line, hline⟩ := exists_line hlength htick
    rw [← (htotals k _ htick).2, (hspec k line _ hline htick).2.1]
  intro line hmem
  have hproduct := forall_eq_zero_of_sums hzero line hmem
  rw [mul_right_comm] at hproduct
  exact (mul_eq_zero.mp hproduct).resolve_right (by norm_num)

/-- The totals are right just if no line has a turnover. -/
theorem loadFromRawFile_totals_iff (h : WellFormed texts fileName header data)
    (hsums : ∀ k, 0 ≤ 100 * ((data.take k).map volume).sum ∧
      100 * ((data.take k).map volume).sum < 2 ^ 32) (store : MarketDataStore) :
    (∃ (store' : MarketDataStore) (ticks : List CTickData),
        loadFromRawFile texts fileName store = some store' ∧
        store'.tickDataVec = store.tickDataVec ++ ticks.map some ∧
        ticks.length = data.length ∧ RunningTotals data ticks) ↔
      ∀ line ∈ data, price line * volume line = 0 := by
  constructor
  · rintro ⟨store', ticks, hload, hticks, -, htotals⟩
    exact turnover_eq_zero_of_runningTotals h hload hticks htotals
  · intro hzero
    obtain ⟨store', ticks, hload, hticks, hlength, -, hspec⟩ := loadFromRawFile_spec h store
    refine ⟨store', ticks, hload, hticks, hlength, fun k tick htick => ?_⟩
    obtain ⟨line, hline⟩ := exists_line hlength htick
    obtain ⟨htotVol, hturnover, -⟩ := hspec k line tick hline htick
    refine ⟨htotVol.trans ?_, hturnover.trans (List.sum_eq_zero fun x hx => ?_).symm⟩
    · exact Int.emod_eq_of_lt (hsums (k + 1)).1 (hsums (k + 1)).2
    · obtain ⟨line, hmem, rfl⟩ := List.mem_map.mp hx
      rw [mul_right_comm, hzero line (List.mem_of_mem_take hmem), zero_mul]

def sampleTexts (text : Str) : Str → Option Str :=
  fun _ => some ("time,price,volume\n".toList ++ text ++ ['\n'])

def sampleName : Str := "600000.csv".toList

def sampleStore : MarketDataStore := ⟨0, 0, 20, [], false⟩

def quietLine : Str :=
  "2013-10-10 09:17:13,10.5,0,0,11,12,0,0,0,4,5,0,0,0,10,9,8,0,0,1,2,3,0,0".toList

def freeLines : List Str :=
  ["2013-10-10 09:17:13,0,3,0,11,12,13,14,15,1,2,3,4,5,10,9,8,7,6,6,7,8,9,10".toList,
    "2013-10-10 09:17:16,0,2,0,11,12,13,14,15,1,2,3,4,5,10,9,8,7,6,6,7,8,9,10".toList]

theorem wellFormed_sampleTexts {text : Str}
    (hlines : lines ("time,price,volume\n".toList ++ text ++ ['\n']) =
      "time,price,volume".toList :: data)
    (hnonempty : data ≠ []) (hreadable : ∀ line ∈ data, Readable line)
    (hdate : ∀ line ∈ data.head?, (getDate (line.take 10)).isSome) :
    WellFormed (sampleTexts text) sampleName "time,price,volume".toList data where
  text := ⟨_, rfl, hlines⟩
  nonempty := hnonempty
  readable := hreadable
  date := hdate
  name := by decide

theorem wellFormed_freeLines :
    WellFormed (sampleTexts (['\n'].intercalate freeLines)) sampleName
      "time,price,volume".toList freeLines := by
  refine wellFormed_sampleTexts (by decide +kernel) (List.cons_ne_nil _ _) ?_ ?_
  · rintro line (_ | ⟨_, _ | ⟨_, ⟨⟩⟩⟩) <;> exact ⟨by decide +kernel, by decide +kernel⟩
  · rintro line hline
    obtain rfl := Option.some.inj hline
    decide +kernel

theorem wellFormed_fullLine :
    WellFormed (sampleTexts fullLine) sampleName "time,price,volume".toList [fullLine] := by
  refine wellFormed_sampleTexts (by decide +kernel) (List.cons_ne_nil _ _)
    (List.forall_mem_singleton.mpr readable_fullLine) ?_
  rintro line hline
  obtain rfl := Option.some.inj hline
  decide +kernel

/-- The second tick has the volume of both lines. -/
theorem loadFromRawFile_totals_iff_freeLines :
    100 * ((freeLines.take 1).map volume).sum = 300 ∧ 100 * (freeLines.map volume).sum = 500 ∧
    ∃ (store' : MarketDataStore) (ticks : List CTickData),
      loadFromRawFile (sampleTexts (['\n'].intercalate freeLines)) sampleName sampleStore =
        some store' ∧
      store'.tickDataVec = ticks.map some ∧ ticks.length = 2 ∧ RunningTotals freeLines ticks := by
  have hvolumes : freeLines.map volume = [3, 2] := by decide +kernel
  have hprices : freeLines.map price = [0, 0] := by decide +kernel
  refine ⟨by simp [List.map_take, hvolumes], by simp [hvolumes],
    (loadFromRawFile_totals_iff wellFormed_freeLines (fun k => ?_) sampleStore).mpr ?_⟩
  · rw [List.map_take, hvolumes]
    rcases k with _ | _ | k <;> simp
  · intro line hline
    have hprice : price line ∈ freeLines.map price := List.mem_map_of_mem hline
    rw [hprices] at hprice
    rw [show price line = 0 by simpa using hprice, zero_mul]

/-- Three hundred at 10.5 make 3150, and the tick says 0. -/
theorem not_runningTotals_fullLine :
    ¬ ∃ (store' : MarketDataStore) (ticks : List CTickData),
      loadFromRawFile (sampleTexts fullLine) sampleName sampleStore = some store' ∧
      store'.tickDataVec = ticks.map some ∧ ticks.length = 1 ∧ RunningTotals [fullLine] ticks := by
  rintro ⟨store', ticks, hload, hticks, -, htotals⟩
  have hzero := turnover_eq_zero_of_runningTotals wellFormed_fullLine hload hticks htotals fullLine
    (List.mem_singleton_self _)
  have hvolume : volume fullLine = 3 := by decide +kernel
  have hprice : price fullLine = 21 / 2 := by decide +kernel
  rw [hvolume, hprice] at hzero
  norm_num at hzero

/-! ### Dates and times -/

/-- What the first field of a line says. -/
structure Timestamp where
  year : ℕ
  month : ℕ
  day : ℕ
  hour : ℕ
  minute : ℕ
  second : ℕ

namespace Timestamp

structure Valid (stamp : Timestamp) : Prop where
  year : stamp.year < 10000
  month : 1 ≤ stamp.month ∧ stamp.month ≤ 12
  day : 1 ≤ stamp.day ∧ stamp.day ≤ 31
  hour : stamp.hour < 24
  minute : stamp.minute < 60
  second : stamp.second < 60

def printDate (stamp : Timestamp) : Str :=
  fourDigits stamp.year ++ '-' :: (twoDigits stamp.month ++ '-' :: twoDigits stamp.day)

def print (stamp : Timestamp) : Str :=
  stamp.printDate ++ ' ' ::
    (twoDigits stamp.hour ++ ':' :: (twoDigits stamp.minute ++ ':' :: twoDigits stamp.second))

def timeOfDay (stamp : Timestamp) : ℕ :=
  stamp.hour * 3600000 + stamp.minute * 60000 + stamp.second * 1000

def date (stamp : Timestamp) : ℕ := stamp.year * 10000 + stamp.month * 100 + stamp.day

variable {stamp : Timestamp}

theorem splitOnP_printDate (h : stamp.Valid) :
    stamp.printDate.splitOnP (· ∈ ['-', ' ']) =
      [fourDigits stamp.year, twoDigits stamp.month, twoDigits stamp.day] := by
  have hseparators : ∀ c ∈ ['-', ' '], c.isDigit = false := by simp
  have hday := h.day
  have hmonth := h.month
  rw [printDate, List.splitOnP_append_cons_of_forall_mem
      (not_separator (isNumeral_fourDigits h.year) hseparators) _ (by decide),
    List.splitOnP_append_cons_of_forall_mem
      (not_separator (isNumeral_twoDigits (by omega)) hseparators) _ (by decide),
    List.splitOnP_eq_singleton
      (not_separator (isNumeral_twoDigits (by omega)) hseparators)]

theorem splitOnP_print (h : stamp.Valid) :
    stamp.print.splitOnP (· ∈ [' ', ':']) =
      [stamp.printDate, twoDigits stamp.hour, twoDigits stamp.minute, twoDigits stamp.second] := by
  have hseparators : ∀ c ∈ [' ', ':'], c.isDigit = false := by simp
  have hday := h.day
  have hmonth := h.month
  have hhour := h.hour
  have hminute := h.minute
  have hsecond := h.second
  have hdate : ∀ c ∈ stamp.printDate, decide (c ∈ [' ', ':']) = false := by
    intro c hc
    simp only [printDate, List.mem_append, List.mem_cons] at hc
    rcases hc with hc | rfl | hc | rfl | hc
    · exact not_separator (isNumeral_fourDigits h.year) hseparators c hc
    · decide
    · exact not_separator (isNumeral_twoDigits (by omega)) hseparators c hc
    · decide
    · exact not_separator (isNumeral_twoDigits (by omega)) hseparators c hc
  rw [print, List.splitOnP_append_cons_of_forall_mem hdate _ (by decide),
    List.splitOnP_append_cons_of_forall_mem
      (not_separator (isNumeral_twoDigits (by omega)) hseparators) _ (by decide),
    List.splitOnP_append_cons_of_forall_mem
      (not_separator (isNumeral_twoDigits (by omega)) hseparators) _ (by decide),
    List.splitOnP_eq_singleton
      (not_separator (isNumeral_twoDigits (by omega)) hseparators)]

theorem atoi_twoDigits {n : ℕ} (h : n < 100) : atoi (twoDigits n) = n := by
  rw [atoi_of_isNumeral (isNumeral_twoDigits h), digitsValue_twoDigits h]

theorem getDate_printDate (h : stamp.Valid) : getDate stamp.printDate = some stamp.date := by
  have hyear := h.year
  have hday := h.day
  have hmonth := h.month
  rw [getDate, splitOnP_printDate h]
  simp only [atoi_of_isNumeral (isNumeral_fourDigits hyear), digitsValue_fourDigits hyear,
    atoi_twoDigits (show stamp.month < 100 by omega),
    atoi_twoDigits (show stamp.day < 100 by omega)]
  have hfits : stamp.date < 2 ^ 32 := by
    unfold date
    omega
  exact_mod_cast congrArg some (castUInt32_of_lt hfits)

theorem getTimeFromDateTime_print (h : stamp.Valid) :
    getTimeFromDateTime stamp.print = some stamp.timeOfDay := by
  have hhour := h.hour
  have hminute := h.minute
  have hsecond := h.second
  rw [getTimeFromDateTime, splitOnP_print h]
  simp only [atoi_twoDigits (show stamp.hour < 100 by omega),
    atoi_twoDigits (show stamp.minute < 100 by omega),
    atoi_twoDigits (show stamp.second < 100 by omega)]
  have hfits : stamp.timeOfDay < 2 ^ 32 := by
    unfold timeOfDay
    omega
  rw [← castUInt32_of_lt hfits, timeOfDay]
  push_cast
  ring_nf

/-- The parser that is called takes the year for the hour. -/
theorem getTime_print (h : stamp.Valid) :
    getTime stamp.print =
      some ((stamp.year * 3600000 + stamp.hour * 60000 + stamp.minute * 1000) % 2 ^ 32) := by
  have hhour := h.hour
  have hminute := h.minute
  have hyear : atoi stamp.printDate = stamp.year := by
    rw [printDate, atoi_append (isNumeral_fourDigits h.year) (by simp),
      digitsValue_fourDigits h.year]
  rw [getTime, splitOnP_print h]
  simp only [hyear, atoi_twoDigits (show stamp.hour < 100 by omega),
    atoi_twoDigits (show stamp.minute < 100 by omega)]
  rw [← castUInt32_natCast]
  push_cast
  ring_nf

theorem thousands_mod_eq_iff {a b : ℕ} (ha : a < 42949672) (hb : b < 4294967) :
    a * 1000 % 2 ^ 32 = b * 1000 ↔ a = b := by
  constructor
  · intro h
    have hcongr : a * 1000 ≡ b * 1000 [MOD 2 ^ 32] := by
      rw [Nat.ModEq, h, Nat.mod_eq_of_lt (by omega)]
    -- The factor 125 of a thousand is odd, so that only its factor 8 is lost.
    have hcancel : a ≡ b [MOD 2 ^ 29] := by
      simpa using Nat.ModEq.cancel_right_div_gcd (by decide) hcongr
    exact hcancel.eq_of_lt_of_lt (by omega) (by omega)
  · rintro rfl
    exact Nat.mod_eq_of_lt (by omega)

theorem getTime_eq_timeOfDay_iff (h : stamp.Valid) :
    getTime stamp.print = some stamp.timeOfDay ↔
      3600 * stamp.year + 60 * stamp.hour + stamp.minute =
        3600 * stamp.hour + 60 * stamp.minute + stamp.second := by
  have hyear := h.year
  have hhour := h.hour
  have hminute := h.minute
  have hsecond := h.second
  have hread : stamp.year * 3600000 + stamp.hour * 60000 + stamp.minute * 1000 =
      (3600 * stamp.year + 60 * stamp.hour + stamp.minute) * 1000 := by ring
  have hmeant : stamp.timeOfDay =
      (3600 * stamp.hour + 60 * stamp.minute + stamp.second) * 1000 := by
    rw [timeOfDay]
    ring
  rw [getTime_print h, hread, hmeant, Option.some_inj]
  exact thousands_mod_eq_iff (by omega) (by omega)

end Timestamp

section Times

variable {stamp : Str → Timestamp}

/-- Every line begins with the date and the time that it has. -/
structure Stamped (texts : Str → Option Str) (fileName header : Str) (data : List Str)
    (stamp : Str → Timestamp) : Prop where
  text : ∃ text, texts fileName = some text ∧ lines text = header :: data
  nonempty : data ≠ []
  fields : ∀ line ∈ data, 24 ≤ (split line).length
  name : 10 ≤ fileName.length
  valid : ∀ line ∈ data, (stamp line).Valid
  print : ∀ line ∈ data, (split line).getD 0 [] = (stamp line).print

theorem getDate_take (h : Stamped texts fileName header data stamp) {line : Str}
    (hline : line ∈ data) : getDate (line.take 10) = some (stamp line).date := by
  have hprefix := head_splitOnP_prefix (· == ',') line
  rw [← split, h.print line hline] at hprefix
  obtain ⟨rest, hrest⟩ := hprefix
  have hlength : (stamp line).printDate.length = 10 := rfl
  have htake : line.take 10 = (stamp line).printDate := by
    conv_lhs => rw [← hrest, Timestamp.print, List.append_assoc, ← hlength]
    exact List.take_left
  rw [htake, Timestamp.getDate_printDate (h.valid line hline)]

theorem Stamped.wellFormed (h : Stamped texts fileName header data stamp) :
    WellFormed texts fileName header data where
  text := h.text
  nonempty := h.nonempty
  readable := by
    intro line hline
    refine ⟨h.fields line hline, ?_⟩
    rw [h.print line hline, Timestamp.getTime_print (h.valid line hline)]
    rfl
  date := by
    intro line hline
    rw [getDate_take h (List.mem_of_mem_head? hline)]
    rfl
  name := h.name

/-- The ticks have the times of their lines, and are ordered like them; the store has the date of
the first one. -/
structure TimesRight (stamp : Str → Timestamp) (data : List Str) (date : ℕ)
    (ticks : List CTickData) : Prop where
  time : ∀ (k : ℕ) line tick, data[k]? = some line → ticks[k]? = some tick →
    tick.timeInMS = (stamp line).timeOfDay
  ordered : ∀ (k j : ℕ) line before tick earlier, data[k]? = some line → ticks[k]? = some tick →
    data[j]? = some before → ticks[j]? = some earlier →
    (earlier.timeInMS ≤ tick.timeInMS ↔ (stamp before).timeOfDay ≤ (stamp line).timeOfDay)
  date : ∀ line ∈ data.head?, date = (stamp line).date

def YearFits (stamp : Timestamp) : Prop :=
  3600 * stamp.year + 60 * stamp.hour + stamp.minute =
    3600 * stamp.hour + 60 * stamp.minute + stamp.second

theorem yearFits_of_timesRight {store' : MarketDataStore} {ticks : List CTickData} {date : ℕ}
    (h : Stamped texts fileName header data stamp)
    (hload : loadFromRawFile texts fileName store = some store')
    (hticks : store'.tickDataVec = store.tickDataVec ++ ticks.map some)
    (htimes : TimesRight stamp data date ticks) : ∀ line ∈ data, YearFits (stamp line) := by
  obtain ⟨store'', ticks', hload', hticks', hlength, -, hspec⟩ :=
    loadFromRawFile_spec h.wellFormed store
  obtain rfl := ticks_unique hload hload' hticks hticks'
  intro line hmem
  obtain ⟨k, hk, rfl⟩ := List.mem_iff_getElem.mp hmem
  have hline := List.getElem?_eq_getElem hk
  have htick := List.getElem?_eq_getElem (hk.trans_eq hlength.symm)
  have htime := (hspec k _ _ hline htick).2.2
  rw [h.print _ hmem, htimes.time k _ _ hline htick] at htime
  exact (Timestamp.getTime_eq_timeOfDay_iff (h.valid _ hmem)).mp htime

/-- The times are right just if the year fits on every line, as it never does from the year 24
on. -/
theorem loadFromRawFile_times_iff (h : Stamped texts fileName header data stamp)
    (store : MarketDataStore) :
    (∃ (store' : MarketDataStore) (ticks : List CTickData),
        loadFromRawFile texts fileName store = some store' ∧
        store'.tickDataVec = store.tickDataVec ++ ticks.map some ∧
        ticks.length = data.length ∧ TimesRight stamp data store'.date ticks) ↔
      ∀ line ∈ data, YearFits (stamp line) := by
  constructor
  · rintro ⟨store', ticks, hload, hticks, -, htimes⟩
    exact yearFits_of_timesRight h hload hticks htimes
  · intro hyears
    obtain ⟨store', ticks, hload, hticks, hlength, hdate, hspec⟩ :=
      loadFromRawFile_spec h.wellFormed store
    have htime : ∀ (k : ℕ) line tick, data[k]? = some line → ticks[k]? = some tick →
        tick.timeInMS = (stamp line).timeOfDay := by
      intro k line tick hline htick
      have hmem := List.mem_of_getElem? hline
      have hread := (hspec k line tick hline htick).2.2
      rw [h.print line hmem, (Timestamp.getTime_eq_timeOfDay_iff (h.valid line hmem)).mpr
        (hyears line hmem)] at hread
      exact (Option.some.inj hread).symm
    refine ⟨store', ticks, hload, hticks, hlength, htime, ?_, fun line hline => ?_⟩
    · intro k j line before tick earlier hline htick hbefore hearlier
      rw [htime k line tick hline htick, htime j before earlier hbefore hearlier]
    · have hread := hdate line hline
      rw [getDate_take h (List.mem_of_mem_head? hline)] at hread
      exact (Option.some.inj hread).symm

def fifthLine : Str :=
  "0005-05-05 05:05:05,10.5,0,0,11,12,0,0,0,4,5,0,0,0,10,9,8,0,0,1,2,3,0,0".toList

def sixthLine : Str :=
  "0006-06-06 06:06:06,10.5,0,0,11,12,0,0,0,4,5,0,0,0,10,9,8,0,0,1,2,3,0,0".toList

def fifthOrSixth (line : Str) : Timestamp :=
  if line = fifthLine then ⟨5, 5, 5, 5, 5, 5⟩ else ⟨6, 6, 6, 6, 6, 6⟩

theorem stamped_sampleTexts {text : Str}
    (hlines : lines ("time,price,volume\n".toList ++ text ++ ['\n']) =
      "time,price,volume".toList :: data)
    (hnonempty : data ≠ []) (hfields : ∀ line ∈ data, 24 ≤ (split line).length)
    (hvalid : ∀ line ∈ data, (stamp line).Valid)
    (hprint : ∀ line ∈ data, (split line).getD 0 [] = (stamp line).print) :
    Stamped (sampleTexts text) sampleName "time,price,volume".toList data stamp where
  text := ⟨_, rfl, hlines⟩
  nonempty := hnonempty
  fields := hfields
  name := by decide
  valid := hvalid
  print := hprint

theorem stamped_fifthAndSixth :
    Stamped (sampleTexts (fifthLine ++ '\n' :: sixthLine)) sampleName "time,price,volume".toList
      [fifthLine, sixthLine] fifthOrSixth := by
  refine stamped_sampleTexts (by decide +kernel) (List.cons_ne_nil _ _) (by decide +kernel) ?_
    (by decide +kernel)
  rintro line (_ | ⟨_, _ | ⟨_, ⟨⟩⟩⟩) <;>
    exact ⟨by decide +kernel, by decide +kernel, by decide +kernel, by decide +kernel,
      by decide +kernel, by decide +kernel⟩

/-- The later line has the later tick. -/
theorem loadFromRawFile_times_iff_fifthAndSixth :
    (fifthOrSixth fifthLine).timeOfDay < (fifthOrSixth sixthLine).timeOfDay ∧
    ∃ (store' : MarketDataStore) (ticks : List CTickData),
      loadFromRawFile (sampleTexts (fifthLine ++ '\n' :: sixthLine)) sampleName sampleStore =
        some store' ∧
      store'.tickDataVec = ticks.map some ∧ ticks.length = 2 ∧
      TimesRight fifthOrSixth [fifthLine, sixthLine] store'.date ticks := by
  have hyears : ∀ line ∈ [fifthLine, sixthLine], YearFits (fifthOrSixth line) := by
    unfold YearFits
    decide +kernel
  exact ⟨by decide +kernel,
    (loadFromRawFile_times_iff stamped_fifthAndSixth sampleStore).mpr hyears⟩

def octoberTenth : Timestamp := ⟨2013, 10, 10, 9, 17, 13⟩

theorem stamped_fullLine :
    Stamped (sampleTexts fullLine) sampleName "time,price,volume".toList [fullLine]
      fun _ => octoberTenth := by
  refine stamped_sampleTexts (by decide +kernel) (List.cons_ne_nil _ _)
    (List.forall_mem_singleton.mpr readable_fullLine.fields) (fun _ _ => ?_) (by decide +kernel)
  exact ⟨by decide, by decide, by decide, by decide, by decide, by decide⟩

/-- `2013-10-10 09:17:13` is read as 2013 hours, 9 minutes and 17 seconds. -/
theorem not_timesRight_fullLine :
    ¬ ∃ (store' : MarketDataStore) (ticks : List CTickData),
      loadFromRawFile (sampleTexts fullLine) sampleName sampleStore = some store' ∧
      store'.tickDataVec = ticks.map some ∧ ticks.length = 1 ∧
      TimesRight (fun _ => octoberTenth) [fullLine] store'.date ticks := by
  rintro ⟨store', ticks, hload, hticks, -, htimes⟩
  have hyear := yearFits_of_timesRight stamped_fullLine hload hticks htimes fullLine
    (List.mem_singleton_self _)
  exact absurd hyear (by unfold YearFits; decide)

end Times

end BluesTrading.TickCsvFile
