import BluesTrading.InstrumentInfo
import BluesTrading.TickQuery
import BluesTrading.TradingCalendar
import BluesTrading.Foundations.OrderedMap

/-!
The cache of tick files.  A request opens one database connection, and for every
weekday of its range the ticks of the instruments without a cache file are queried
over it.  The connection is closed at the end of the first of these days.
-/

namespace BluesTrading.TickCache

open Foundations
open InstrumentInfo
open MarketDataReplayer
open SourceText
open TickQuery
open TradingCalendar

structure DataSrcInfo where
  instruments : List Str
  datasrcInfo : List Str
  startDate : ℕ
  endDate : ℕ
  datasrcType : ℕ
  deriving DecidableEq

/-- The database behind the connection: which logins it accepts, and the rows that
a query returns, unless it raises an exception. -/
structure Database where
  rlogon : Str → Bool
  select : (sqlTable inst : Str) → (date maxLevels : ℕ) → Option (List (Row maxLevels))

/-- The paths of the cache files by instrument, date and number of levels, and the
files that have been written, the last one first. -/
structure DataCache where
  cacheStatus : OrderedMap ℕ (OrderedMap ℕ (OrderedMap ℕ Str))
  localCachePath : Str
  files : List (Str × MarketDataStore)

def appendPath (path name : Str) : Str :=
  if path = [] ∨ path.getLast? = some '/' then path ++ name else path ++ '/' :: name

/-- The third data-source entry as an unsigned number, or ten levels without it. -/
def DataSrcInfo.maxLevels (datarequest : DataSrcInfo) : ℕ :=
  if datarequest.datasrcInfo.length > 2 then
    (atoi (datarequest.datasrcInfo.getD 2 []) % 2 ^ 32).toNat
  else 10

namespace DataCache

def getInstrumentDir (cache : DataCache) (inst : ℕ) : Str :=
  appendPath cache.localCachePath (digits inst)

def getInstumentDataPath (cache : DataCache) (inst date maxLevels : ℕ) : Str :=
  appendPath (cache.getInstrumentDir inst)
    (digits inst ++ '_' :: digits date ++ '_' :: digits maxLevels ++ ['.', 'b', 'i', 'n'])

def getDataCache (cache : DataCache) (inst date maxLevels : ℕ) : Str :=
  (((cache.cacheStatus.find? inst).bind fun dates => dates.find? date).bind fun levels =>
    levels.find? maxLevels).getD []

def addCacheFile (cache : DataCache) (inst date maxLevels : ℕ) (path : Str)
    (store : MarketDataStore) : DataCache :=
  let dates := (cache.cacheStatus.find? inst).getD OrderedMap.empty
  let levels := (dates.find? date).getD OrderedMap.empty
  { cache with
    cacheStatus := cache.cacheStatus.insert inst (dates.insert date (levels.insert maxLevels path))
    files := (path, store) :: cache.files }

end DataCache

section Fetch

variable (db : Database) (connected : Bool) (date max_levels : ℕ) (sqlTable : Str)

/-- Open a stream for a query and read its rows.  A connection that has been logged off
raises an exception. -/
def Database.query (inst : Str) : Option (List (Row max_levels)) :=
  if connected then db.select sqlTable inst date max_levels else none

/-- The loop over the instruments of one date, with whether it was left by an exception.
There is no result when a null pointer is dereferenced. -/
def loadInstruments : List Str → DataCache → Option (DataCache × Bool)
  | [], cache => some (cache, false)
  | inst :: instruments, cache =>
      let inst_index := getInstrumentIndex inst
      if cache.getDataCache inst_index date max_levels = [] then
        let cache_file_name := cache.getInstumentDataPath inst_index date max_levels
        match db.query connected date max_levels sqlTable inst with
        | none => some (cache, true)
        | some rows =>
            (storeRows inst_index date rows).bind fun storeforday =>
              loadInstruments instruments
                (cache.addCacheFile inst_index date max_levels cache_file_name storeforday)
      else loadInstruments instruments cache

/-- One date.  The connection is logged off after the last instrument; an exception
is caught and leaves it as it is. -/
def getDataFromMSSql (instruments : List Str) (cache : DataCache) : Option (DataCache × Bool) :=
  (loadInstruments db connected date max_levels sqlTable instruments cache).map
    fun (cache, raised) => (cache, if raised then connected else false)

end Fetch

section Request

variable (cal : Calendar) (db : Database)

/-- The loop over the dates.  It is left with an exception when it runs past the last
day of the calendar, which is when the fuel is used up. -/
def loadDates (max_levels : ℕ) (sqlTable : Str) (instruments : List Str) (finish : ℕ) :
    (fuel date : ℕ) → (connected : Bool) → DataCache → Option DataCache
  | 0, _, _, _ => none
  | fuel + 1, date, connected, cache =>
      if date = finish then some cache
      else if isWeekend cal date then
        loadDates max_levels sqlTable instruments finish fuel (date + 1) connected cache
      else
        (getNumFromDate cal date).bind fun dateint =>
          (getDataFromMSSql db connected dateint max_levels sqlTable instruments cache).bind
            fun (cache, connected) =>
              loadDates max_levels sqlTable instruments finish fuel (date + 1) connected cache

def addDataCacheRquetMSSql (datarequest : DataSrcInfo) (cache : DataCache) : Option DataCache := do
  let mssql_dsn ← datarequest.datasrcInfo[0]?
  let mssql_table ← datarequest.datasrcInfo[1]?
  let connected := db.rlogon (['D', 'S', 'N', '='] ++ mssql_dsn)
  let start ← getDateFromNum cal datarequest.startDate
  let finish ← getDateFromNum cal datarequest.endDate
  loadDates cal db datarequest.maxLevels mssql_table datarequest.instruments finish
    (cal.last + 1 - start) start connected cache

def addDataCacheRequest (datarequest : DataSrcInfo) (cache : DataCache) : Option DataCache :=
  match datarequest.datasrcType with
  | 1 => addDataCacheRquetMSSql cal db datarequest cache
  | _ => some cache

end Request

/-! ### The entries of the cache -/

theorem appendPath_ne_nil {path name : Str} (h : name ≠ []) : appendPath path name ≠ [] := by
  unfold appendPath
  split_ifs <;> simp [h]

theorem getInstumentDataPath_ne_nil (cache : DataCache) (inst date maxLevels : ℕ) :
    cache.getInstumentDataPath inst date maxLevels ≠ [] :=
  appendPath_ne_nil (by simp)

theorem getDataCache_addCacheFile (cache : DataCache) (inst date maxLevels : ℕ) (path : Str)
    (store : MarketDataStore) (inst' date' maxLevels' : ℕ) :
    (cache.addCacheFile inst date maxLevels path store).getDataCache inst' date' maxLevels' =
      if inst' = inst ∧ date' = date ∧ maxLevels' = maxLevels then path
      else cache.getDataCache inst' date' maxLevels' := by
  unfold DataCache.getDataCache DataCache.addCacheFile
  by_cases hinst : inst' = inst
  · subst hinst
    simp only [OrderedMap.find?_insert_self, Option.bind_some]
    by_cases hdate : date' = date
    · subst hdate
      simp only [OrderedMap.find?_insert_self, Option.bind_some, OrderedMap.find?_insert, true_and]
      split_ifs with hlevels
      · rfl
      · cases cache.cacheStatus.find? inst' with
        | none => rfl
        | some dates => cases hdates : dates.find? date' <;> simp [hdates]
    · rw [OrderedMap.find?_insert_of_ne _ _ hdate, if_neg (by simp [hdate])]
      cases cache.cacheStatus.find? inst' <;> simp
  · rw [OrderedMap.find?_insert_of_ne _ _ hinst, if_neg (by simp [hinst])]

theorem getDataCache_addCacheFile_of_ne (cache : DataCache) (inst maxLevels : ℕ) (path : Str)
    (store : MarketDataStore) {date date' : ℕ} (h : date' ≠ date) (inst' maxLevels' : ℕ) :
    (cache.addCacheFile inst date maxLevels path store).getDataCache inst' date' maxLevels' =
      cache.getDataCache inst' date' maxLevels' := by
  rw [getDataCache_addCacheFile, if_neg (by simp [h])]

end BluesTrading.TickCache
