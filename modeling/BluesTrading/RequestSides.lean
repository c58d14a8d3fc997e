import BluesTrading.CacheCompleteness
import BluesTrading.Numerals

namespace BluesTrading.RequestSides

open BluesTrading.Foundations
open BluesTrading.InstrumentInfo
open BluesTrading.SourceText
open BluesTrading.TickCache
open BluesTrading.TradingCalendar

/-! ### The loops over the dates -/

section Loops

variable (cal : Calendar)

/-- The weekdays that a loop comes to.  One that runs past the last day of the calendar is left
by an exception, which is when the fuel is used up. -/
def visitDays (goesOn : ℕ → Bool) : (fuel date : ℕ) → Option (List ℕ)
  | 0, _ => none
  | fuel + 1, date =>
      if goesOn date then
        (visitDays goesOn fuel (date + 1)).map fun later =>
          if isWeekend cal date then later else date :: later
      else some []

def fetchDays (start finish : ℕ) : Option (List ℕ) :=
  visitDays cal (fun date => date != finish) (cal.last + 1 - start) start

def replayDays (start finish : ℕ) : Option (List ℕ) :=
  visitDays cal (fun date => date < finish) (cal.last + 1 - start) start

end Loops

def fetchDay (cal : Calendar) (db : Database) (max_levels : ℕ) (sqlTable : Str)
    (instruments : List Str) (state : DataCache × Bool) (day : ℕ) : Option (DataCache × Bool) :=
  (getNumFromDate cal day).bind fun dateint =>
    getDataFromMSSql db state.2 dateint max_levels sqlTable instruments state.1

theorem loadDates_eq_foldlM (cal : Calendar) (db : Database) (max_levels : ℕ) (sqlTable : Str)
    (instruments : List Str) (finish fuel date : ℕ) (connected : Bool) (cache : DataCache) :
    loadDates cal db max_levels sqlTable instruments finish fuel date connected cache =
      (visitDays cal (fun date => date != finish) fuel date).bind fun days =>
        (days.foldlM (fetchDay cal db max_levels sqlTable instruments) (cache, connected)).map
          Prod.fst := by
  induction fuel generalizing date connected cache with
  | zero => rfl
  | succ fuel ih =>
      rw [loadDates, visitDays]
      by_cases hend : date = finish
      · rw [if_pos hend, if_neg (by simpa using hend)]
        rfl
      · have hguard : (date != finish) = true := by simpa using hend
        simp only [if_neg hend, hguard, if_true, Option.bind_map, Function.comp_def]
        cases isWeekend cal date with
        | true => exact ih (date + 1) connected cache
        | false =>
            simp only [Bool.false_eq_true, if_false, List.foldlM_cons, fetchDay, ih]
            cases getNumFromDate cal date with
            | none => simp
            | some dateint =>
                simp only [Option.bind_some, Option.bind_eq_bind, Option.map_bind]
                exact Option.bind_comm _ _

section Agreement

variable {cal : Calendar} {start finish fuel date : ℕ}

theorem visitDays_eq_weekdays {goesOn : ℕ → Bool}
    (hguard : ∀ day, date ≤ day → day ≤ finish → (goesOn day ↔ day < finish))
    (hle : date ≤ finish) (hfuel : finish < date + fuel) :
    visitDays cal goesOn fuel date = some (weekdays cal date finish) := by
  induction fuel generalizing date with
  | zero => omega
  | succ fuel ih =>
      rw [visitDays]
      by_cases hgoes : goesOn date = true
      · have hlt := (hguard date le_rfl hle).mp hgoes
        rw [if_pos hgoes, ih (fun day hday => hguard day (by omega)) hlt (by omega),
          Option.map_some, weekdays_cons cal hlt]
        cases isWeekend cal date <;> simp
      · have hge : ¬ date < finish := fun hlt => hgoes ((hguard date le_rfl hle).mpr hlt)
        obtain rfl : date = finish := by omega
        rw [if_neg hgoes, weekdays_self]

theorem visitDays_ne_eq_none (hlt : finish < date) :
    visitDays cal (fun day => day != finish) fuel date = none := by
  induction fuel generalizing date with
  | zero => rfl
  | succ fuel ih =>
      rw [visitDays, if_pos (by simpa using hlt.ne'), ih (by omega), Option.map_none]

theorem weekdays_eq_nil (hle : finish ≤ start) : weekdays cal start finish = [] := by
  rw [weekdays, Nat.sub_eq_zero_of_le hle]
  rfl

theorem replayDays_eq (hstart : start ≤ cal.last) (hfinish : finish ≤ cal.last) :
    replayDays cal start finish = some (weekdays cal start finish) := by
  unfold replayDays
  rcases Nat.le_total start finish with hle | hle
  · exact visitDays_eq_weekdays (fun day _ _ => by simp) hle (by omega)
  · obtain ⟨fuel, hfuel⟩ := Nat.exists_eq_succ_of_ne_zero (show cal.last + 1 - start ≠ 0 by omega)
    rw [hfuel, visitDays, if_neg (by simpa using hle), weekdays_eq_nil hle]

theorem le_of_fetchDays {days : List ℕ} (h : fetchDays cal start finish = some days) :
    start ≤ finish := by
  by_contra hlt
  rw [fetchDays, visitDays_ne_eq_none (not_le.mp hlt)] at h
  cases h

/-- Both loops come to the same days, the weekdays from the start on and before the end, just if
the end is not before the start. -/
theorem fetchDays_iff_replayDays {startDate endDate : ℕ}
    (hstart : getDateFromNum cal startDate = some start)
    (hfinish : getDateFromNum cal endDate = some finish) :
    (fetchDays cal start finish = replayDays cal start finish ∧
        fetchDays cal start finish = some (weekdays cal start finish)) ↔ start ≤ finish := by
  have hlast := getDateFromNum_le hstart
  have hlast' := getDateFromNum_le hfinish
  constructor
  · rintro ⟨-, hfetch⟩
    exact le_of_fetchDays hfetch
  · intro hle
    have hfetch : fetchDays cal start finish = some (weekdays cal start finish) :=
      visitDays_eq_weekdays (fun day _ hday => by simp; omega) hle (by omega)
    exact ⟨hfetch.trans (replayDays_eq hlast hlast').symm, hfetch⟩

theorem fetchDays_iff_replayDays_week :
    fetchDays years2014 2 9 = replayDays years2014 2 9 ∧
      fetchDays years2014 2 9 = some (weekdays years2014 2 9) := by
  have hstart : getDateFromNum years2014 20140103 = some 2 := by decide +kernel
  have hfinish : getDateFromNum years2014 20140110 = some 9 := by decide +kernel
  exact (fetchDays_iff_replayDays hstart hfinish).mpr (by decide)

theorem not_fetchDays_reversed :
    getDateFromNum years2014 20140103 = some 2 ∧ getDateFromNum years2014 20140102 = some 1 ∧
      replayDays years2014 2 1 = some [] ∧ fetchDays years2014 2 1 ≠ replayDays years2014 2 1 := by
  have hreplay : replayDays years2014 2 1 = some [] := by
    rw [replayDays_eq (by decide +kernel) (by decide +kernel), weekdays_eq_nil (by decide)]
  refine ⟨by decide +kernel, by decide +kernel, hreplay, fun heq => ?_⟩
  exact absurd (le_of_fetchDays (heq.trans hreplay)) (by decide)

end Agreement

/-! ### The number of levels -/

section Levels

variable (cal : Calendar)

/-- The number of levels as `prepareMarketDataReplayer` and `processOneDay` read it.  An entry that
the vector does not have has no defined value, and a text that is no number raises an exception. -/
def lookupLevels (target : DataSrcInfo) : Option ℕ :=
  (target.datasrcInfo[2]?).bind lexicalCastUInt32

def prepareMarketDataReplayer (target : DataSrcInfo) : Option (ℕ × List ℕ) := do
  let start ← getDateFromNum cal target.startDate
  let finish ← getDateFromNum cal target.endDate
  let maxLevels ← lookupLevels target
  let days ← replayDays cal start finish
  let dates ← days.mapM (getNumFromDate cal)
  return (maxLevels, dates)

/-- The path of a cache file.  Without one, the cache is asked again and again. -/
def addMarketDataStoreToMarketReplay (cache : DataCache) (maxLevels : ℕ) (instrument : Str)
    (date : ℕ) : Option Str :=
  let cache_path := cache.getDataCache (getInstrumentIndex instrument) date maxLevels
  if cache_path = [] then none else some cache_path

/-- The paths for a date.  The number of levels is read again, but the files are looked up with
that of the fixture. -/
def processOneDay (cache : DataCache) (maxLevels : ℕ) (singleDataSrcInfo : DataSrcInfo)
    (date : ℕ) : Option (List Str) :=
  (lookupLevels singleDataSrcInfo).bind fun _ =>
    singleDataSrcInfo.instruments.mapM fun instrument =>
      addMarketDataStoreToMarketReplay cache maxLevels instrument date

/-- The fixture looks the data up under the number of levels under which it is cached, whatever the
valid dates are. -/
structure LevelsAgree (datarequest : DataSrcInfo) : Prop where
  prepare : ∀ start finish, getDateFromNum cal datarequest.startDate = some start →
    getDateFromNum cal datarequest.endDate = some finish →
    (prepareMarketDataReplayer cal datarequest).map Prod.fst = some datarequest.maxLevels
  processOneDay : lookupLevels datarequest = some datarequest.maxLevels

variable {cal} {datarequest : DataSrcInfo} {start finish : ℕ}

theorem isSome_lookupLevels_iff :
    (lookupLevels datarequest).isSome ↔ ∃ s, datarequest.datasrcInfo[2]? = some s ∧
      SignedNumeral s ∧ digitsValue (splitSign s).2 < 2 ^ 32 := by
  unfold lookupLevels
  cases datarequest.datasrcInfo[2]? with
  | none => simp
  | some s =>
      rw [Option.bind_some, isSome_lexicalCastUInt32_iff]
      simp

theorem lookupLevels_eq_maxLevels {levels : ℕ} (h : lookupLevels datarequest = some levels) :
    levels = datarequest.maxLevels := by
  obtain ⟨s, hs, hcast⟩ := Option.bind_eq_some_iff.mp h
  have hlength : 2 < datarequest.datasrcInfo.length := (List.getElem?_eq_some_iff.mp hs).1
  rw [DataSrcInfo.maxLevels, if_pos hlength, List.getD_eq_getElem?_getD, hs]
  exact (lexicalCastUInt32_eq_atoi hcast).symm

theorem mapM_eq_some_map {α β : Type} {f : α → Option β} {g : α → β} {l : List α}
    (h : ∀ a ∈ l, f a = some (g a)) : l.mapM f = some (l.map g) := by
  induction l with
  | nil => rfl
  | cons a l ih =>
      rw [List.mapM_cons, h a List.mem_cons_self,
        ih fun b hb => h b (List.mem_cons_of_mem a hb)]
      rfl

theorem prepareMarketDataReplayer_eq
    (hstart : getDateFromNum cal datarequest.startDate = some start)
    (hfinish : getDateFromNum cal datarequest.endDate = some finish) :
    prepareMarketDataReplayer cal datarequest = (lookupLevels datarequest).map fun maxLevels =>
      (maxLevels, (weekdays cal start finish).map (dateNumber cal)) := by
  have hdates : (weekdays cal start finish).mapM (getNumFromDate cal) =
      some ((weekdays cal start finish).map (dateNumber cal)) :=
    mapM_eq_some_map fun day hday =>
      getNumFromDate_of_le (le_last_of_mem_weekdays (getDateFromNum_le hfinish) hday)
  simp only [prepareMarketDataReplayer, hstart, hfinish,
    replayDays_eq (getDateFromNum_le hstart) (getDateFromNum_le hfinish), hdates,
    Option.bind_eq_bind, Option.bind_some, Option.pure_def]
  exact Option.map_eq_bind.symm

/-- The two sides agree on the number of levels just if there is a third entry, which is a number
of 32 bits with or without a sign. -/
theorem levelsAgree_iff (cal : Calendar) (datarequest : DataSrcInfo) :
    LevelsAgree cal datarequest ↔ ∃ s, datarequest.datasrcInfo[2]? = some s ∧
      SignedNumeral s ∧ digitsValue (splitSign s).2 < 2 ^ 32 := by
  rw [← isSome_lookupLevels_iff]
  constructor
  · intro hagree
    exact Option.isSome_of_eq_some hagree.processOneDay
  · intro hsome
    obtain ⟨levels, hlevels⟩ := Option.isSome_iff_exists.mp hsome
    obtain rfl := lookupLevels_eq_maxLevels hlevels
    refine ⟨fun start finish hstart hfinish => ?_, hlevels⟩
    rw [prepareMarketDataReplayer_eq hstart hfinish, hlevels]
    rfl

def shippedRequest : DataSrcInfo :=
  ⟨["ag".toList], ["dl_level2".toList, "VystSH20".toList], 20140102, 20140103, 1⟩

/-- The cache takes ten levels for the missing entry, and the fixture reads past the end. -/
theorem not_levelsAgree_shipped :
    (addDataCacheRequest years2014 CacheCompleteness.emptyDatabase shippedRequest
        CacheCompleteness.emptyCache).isSome ∧
      shippedRequest.maxLevels = 10 ∧
      prepareMarketDataReplayer years2014 shippedRequest = none ∧
      ¬ LevelsAgree years2014 shippedRequest := by
  refine ⟨by decide +kernel, rfl, by decide +kernel, fun hagree => ?_⟩
  cases hagree.processOneDay

end Levels

end BluesTrading.RequestSides
