import BluesTrading.TickCache

namespace BluesTrading.CacheCompleteness

open Foundations
open InstrumentInfo
open SourceText
open TickCache
open TickQuery
open TradingCalendar

section Instruments

variable {db : Database} {date max_levels : ℕ} {sqlTable : Str} {instruments : List Str}
  {cache cache' : DataCache} {raised : Bool}

theorem loadInstruments_live
    (hselect : ∀ inst ∈ instruments, (db.select sqlTable inst date max_levels).isSome)
    (h : loadInstruments db true date max_levels sqlTable instruments cache =
      some (cache', raised)) :
    raised = false ∧
      (∀ inst_index, cache.getDataCache inst_index date max_levels ≠ [] →
        cache'.getDataCache inst_index date max_levels ≠ []) ∧
      (∀ inst ∈ instruments, cache'.getDataCache (getInstrumentIndex inst) date max_levels ≠ []) ∧
      ∀ inst_index date' levels, date' ≠ date →
        cache'.getDataCache inst_index date' levels =
          cache.getDataCache inst_index date' levels := by
  induction instruments generalizing cache with
  | nil =>
      obtain ⟨rfl, rfl⟩ := Prod.mk.inj (Option.some.inj h)
      exact ⟨rfl, fun _ hcached => hcached, fun _ hinst => absurd hinst List.not_mem_nil,
        fun _ _ _ _ => rfl⟩
  | cons inst instruments ih =>
      have hselect' := fun other hother => hselect other (List.mem_cons_of_mem _ hother)
      rw [loadInstruments] at h
      by_cases hcached : cache.getDataCache (getInstrumentIndex inst) date max_levels = []
      · obtain ⟨rows, hrows⟩ := Option.isSome_iff_exists.mp (hselect inst List.mem_cons_self)
        simp only [hcached, if_true, Database.query, hrows] at h
        obtain ⟨storeforday, -, h⟩ := Option.bind_eq_some_iff.mp h
        obtain ⟨hraised, hkeep, hall, hother⟩ := ih hselect' h
        have hadded := getInstumentDataPath_ne_nil cache (getInstrumentIndex inst) date max_levels
        refine ⟨hraised, fun inst_index hbefore => hkeep _ ?_, ?_, ?_⟩
        · rw [getDataCache_addCacheFile]
          split_ifs
          · exact hadded
          · exact hbefore
        · rintro other (_ | ⟨_, hmem⟩)
          · refine hkeep _ ?_
            rwa [getDataCache_addCacheFile, if_pos ⟨rfl, rfl, rfl⟩]
          · exact hall other hmem
        · intro inst_index date' levels hdate
          rw [hother _ _ _ hdate, getDataCache_addCacheFile_of_ne _ _ _ _ _ hdate]
      · simp only [hcached, if_false] at h
        obtain ⟨hraised, hkeep, hall, hother⟩ := ih hselect' h
        refine ⟨hraised, hkeep, ?_, hother⟩
        rintro other (_ | ⟨_, hmem⟩)
        · exact hkeep _ hcached
        · exact hall other hmem

theorem loadInstruments_closed
    (h : loadInstruments db false date max_levels sqlTable instruments cache =
      some (cache', raised)) : cache' = cache := by
  induction instruments generalizing cache with
  | nil => exact (Prod.mk.inj (Option.some.inj h)).1.symm
  | cons inst instruments ih =>
      rw [loadInstruments] at h
      by_cases hcached : cache.getDataCache (getInstrumentIndex inst) date max_levels = []
      · simp only [hcached, if_true, Database.query, Bool.false_eq_true, if_false] at h
        exact (Prod.mk.inj (Option.some.inj h)).1.symm
      · simp only [hcached, if_false] at h
        exact ih h

theorem getDataFromMSSql_live {connected : Bool}
    (hselect : ∀ inst ∈ instruments, (db.select sqlTable inst date max_levels).isSome)
    (h : getDataFromMSSql db true date max_levels sqlTable instruments cache =
      some (cache', connected)) :
    connected = false ∧
      (∀ inst ∈ instruments, cache'.getDataCache (getInstrumentIndex inst) date max_levels ≠ []) ∧
      ∀ inst_index date' levels, date' ≠ date →
        cache'.getDataCache inst_index date' levels =
          cache.getDataCache inst_index date' levels := by
  obtain ⟨⟨loaded, raised⟩, hloaded, hresult⟩ := Option.map_eq_some_iff.mp h
  obtain ⟨rfl, rfl⟩ := Prod.mk.inj hresult
  obtain ⟨rfl, -, hall, hother⟩ := loadInstruments_live hselect hloaded
  exact ⟨rfl, hall, hother⟩

theorem getDataFromMSSql_closed {connected : Bool}
    (h : getDataFromMSSql db false date max_levels sqlTable instruments cache =
      some (cache', connected)) : cache' = cache ∧ connected = false := by
  obtain ⟨⟨loaded, raised⟩, hloaded, hresult⟩ := Option.map_eq_some_iff.mp h
  obtain ⟨rfl, rfl⟩ := Prod.mk.inj hresult
  exact ⟨loadInstruments_closed hloaded, ite_self _⟩

theorem isSome_getDataFromMSSql (connected : Bool) (cache : DataCache)
    (hrows : ∀ inst rows, db.select sqlTable inst date max_levels = some rows →
      rows.length ≤ 1) :
    (getDataFromMSSql db connected date max_levels sqlTable instruments cache).isSome := by
  rw [getDataFromMSSql, Option.isSome_map]
  induction instruments generalizing cache with
  | nil => rfl
  | cons inst instruments ih =>
      rw [loadInstruments]
      split_ifs with hcached
      · cases hquery : db.query connected date max_levels sqlTable inst with
        | none => rfl
        | some rows =>
            have hselect : db.select sqlTable inst date max_levels = some rows := by
              rw [Database.query] at hquery
              split_ifs at hquery
              exact hquery
            have hstore := (isSome_storeRows_iff (getInstrumentIndex inst) date rows).mpr
              (hrows inst rows hselect)
            obtain ⟨storeforday, hstore⟩ := Option.isSome_iff_exists.mp hstore
            simp only [hstore, Option.bind_some]
            exact ih _
      · exact ih _

end Instruments

section Dates

variable {cal : Calendar} {db : Database} {max_levels finish fuel date : ℕ} {sqlTable : Str}
  {instruments : List Str} {cache cache' : DataCache}

/-- Once the connection is closed it stays closed, and the remaining dates add nothing. -/
theorem loadDates_closed
    (h : loadDates cal db max_levels sqlTable instruments finish fuel date false cache =
      some cache') : cache' = cache := by
  induction fuel generalizing date cache with
  | zero => cases h
  | succ fuel ih =>
      rw [loadDates] at h
      split_ifs at h with hend hweekend
      · exact (Option.some.inj h).symm
      · exact ih h
      · obtain ⟨dateint, -, hrest⟩ := Option.bind_eq_some_iff.mp h
        obtain ⟨⟨next, connected⟩, hday, hrest⟩ := Option.bind_eq_some_iff.mp hrest
        obtain ⟨rfl, rfl⟩ := getDataFromMSSql_closed hday
        exact ih hrest

theorem loadDates_live (hle : date ≤ finish)
    (hselect : ∀ inst ∈ instruments, ∀ day ∈ weekdays cal date finish,
      (db.select sqlTable inst (dateNumber cal day) max_levels).isSome)
    (h : loadDates cal db max_levels sqlTable instruments finish fuel date true cache =
      some cache') :
    weekdays cal date finish = [] ∧ cache' = cache ∨
      ∃ day rest, weekdays cal date finish = day :: rest ∧
        (∀ inst ∈ instruments,
          cache'.getDataCache (getInstrumentIndex inst) (dateNumber cal day) max_levels ≠ []) ∧
        ∀ inst_index date' levels, date' ≠ dateNumber cal day →
          cache'.getDataCache inst_index date' levels =
            cache.getDataCache inst_index date' levels := by
  induction fuel generalizing date with
  | zero => cases h
  | succ fuel ih =>
      rw [loadDates] at h
      split_ifs at h with hend hweekend
      · subst hend
        exact .inl ⟨weekdays_self cal date, (Option.some.inj h).symm⟩
      · have hcons := weekdays_cons cal (lt_of_le_of_ne hle hend)
        rw [hweekend, if_pos rfl, List.nil_append] at hcons
        rw [hcons] at hselect ⊢
        exact ih (lt_of_le_of_ne hle hend) hselect h
      · have hcons := weekdays_cons cal (lt_of_le_of_ne hle hend)
        rw [if_neg hweekend, List.singleton_append] at hcons
        rw [hcons] at hselect ⊢
        obtain ⟨dateint, hdateint, hrest⟩ := Option.bind_eq_some_iff.mp h
        obtain ⟨-, rfl⟩ := eq_dateNumber_of_getNumFromDate hdateint
        obtain ⟨⟨next, connected⟩, hday, hrest⟩ := Option.bind_eq_some_iff.mp hrest
        obtain ⟨rfl, hall, hother⟩ := getDataFromMSSql_live
          (fun inst hinst => hselect inst hinst date List.mem_cons_self) hday
        obtain rfl := loadDates_closed hrest
        exact .inr ⟨date, _, rfl, hall, hother⟩

theorem isSome_loadDates (connected : Bool) (cache : DataCache) (hle : date ≤ finish)
    (hlast : finish ≤ cal.last) (hfuel : finish < date + fuel)
    (hrows : ∀ inst date rows, db.select sqlTable inst date max_levels = some rows →
      rows.length ≤ 1) :
    (loadDates cal db max_levels sqlTable instruments finish fuel date connected
      cache).isSome := by
  induction fuel generalizing date connected cache with
  | zero => omega
  | succ fuel ih =>
      rw [loadDates]
      split_ifs with hend hweekend
      · rfl
      · exact ih connected cache (by omega) (by omega)
      · rw [getNumFromDate_of_le (hle.trans hlast), Option.bind_some]
        have hday : (getDataFromMSSql db connected (dateNumber cal date) max_levels sqlTable
            instruments cache).isSome :=
          isSome_getDataFromMSSql connected cache fun inst => hrows inst (dateNumber cal date)
        obtain ⟨⟨next, connected'⟩, hday⟩ := Option.isSome_iff_exists.mp hday
        rw [hday, Option.bind_some]
        exact ih connected' next (by omega) (by omega)

end Dates

/-- A request returns if it names a source and a table and no query gives a second row. -/
theorem isSome_addDataCacheRquetMSSql (cal : Calendar) (db : Database)
    (datarequest : DataSrcInfo) (cache : DataCache) {start finish : ℕ}
    (hstart : getDateFromNum cal datarequest.startDate = some start)
    (hfinish : getDateFromNum cal datarequest.endDate = some finish) (hle : start ≤ finish)
    (hinfo : 2 ≤ datarequest.datasrcInfo.length)
    (hrows : ∀ sqlTable inst date rows,
      db.select sqlTable inst date datarequest.maxLevels = some rows → rows.length ≤ 1) :
    (addDataCacheRquetMSSql cal db datarequest cache).isSome := by
  have hlast := getDateFromNum_le hfinish
  have hdsn : 0 < datarequest.datasrcInfo.length := by omega
  have htable : 1 < datarequest.datasrcInfo.length := by omega
  simp only [addDataCacheRquetMSSql, List.getElem?_eq_getElem hdsn,
    List.getElem?_eq_getElem htable, hstart, hfinish, Option.bind_eq_bind, Option.bind_some]
  exact isSome_loadDates _ cache hle hlast (by omega) (hrows _)

def Complete (cal : Calendar) (datarequest : DataSrcInfo) (start finish : ℕ)
    (cache : DataCache) : Prop :=
  ∀ inst ∈ datarequest.instruments, ∀ day ∈ weekdays cal start finish,
    cache.getDataCache (getInstrumentIndex inst) (dateNumber cal day) datarequest.maxLevels ≠ []

/-- A request is complete if and only if the cache already had every weekday of its range
but the first. -/
theorem complete_iff (cal : Calendar) (db : Database) (datarequest : DataSrcInfo)
    {start finish : ℕ} {cache cache' : DataCache}
    (hstart : getDateFromNum cal datarequest.startDate = some start)
    (hfinish : getDateFromNum cal datarequest.endDate = some finish) (hle : start ≤ finish)
    (hlogon : ∀ loginstring, db.rlogon loginstring = true)
    (hselect : ∀ sqlTable inst date, (db.select sqlTable inst date datarequest.maxLevels).isSome)
    (hreturn : addDataCacheRquetMSSql cal db datarequest cache = some cache') :
    Complete cal datarequest start finish cache' ↔
      ∀ inst ∈ datarequest.instruments, ∀ day ∈ (weekdays cal start finish).tail,
        cache.getDataCache (getInstrumentIndex inst) (dateNumber cal day)
          datarequest.maxLevels ≠ [] := by
  obtain ⟨mssql_dsn, -, h⟩ := Option.bind_eq_some_iff.mp hreturn
  obtain ⟨mssql_table, -, h⟩ := Option.bind_eq_some_iff.mp h
  obtain ⟨start', hstart', h⟩ := Option.bind_eq_some_iff.mp h
  obtain rfl := Option.some.inj (hstart.symm.trans hstart')
  obtain ⟨finish', hfinish', h⟩ := Option.bind_eq_some_iff.mp h
  obtain rfl := Option.some.inj (hfinish.symm.trans hfinish')
  rw [hlogon] at h
  have hlast := getDateFromNum_le hfinish
  unfold Complete
  rcases loadDates_live hle (fun inst _ day _ => hselect mssql_table inst _) h with
    ⟨hnone, rfl⟩ | ⟨day, rest, hdays, hfirst, hother⟩
  · simp [hnone]
  · have hsorted := weekdays_sorted cal start finish
    have hlater : ∀ d ∈ rest, dateNumber cal d ≠ dateNumber cal day := by
      intro d hd heq
      rw [hdays] at hsorted
      have hlt := (List.pairwise_cons.mp hsorted).1 d hd
      have hd' := le_last_of_mem_weekdays hlast (hdays ▸ List.mem_cons_of_mem day hd)
      have hday := le_last_of_mem_weekdays hlast (hdays ▸ List.mem_cons_self)
      have hsame := dateNumber_inj hd' hday heq
      omega
    rw [hdays, List.tail_cons]
    constructor
    · intro hcomplete inst hinst d hd
      have hcached := hcomplete inst hinst d (List.mem_cons_of_mem _ hd)
      rwa [hother _ _ _ (hlater d hd)] at hcached
    · rintro hbefore inst hinst d (_ | ⟨_, hd⟩)
      · exact hfirst inst hinst
      · rw [hother _ _ _ (hlater d hd)]
        exact hbefore inst hinst d hd

def emptyDatabase : Database := ⟨fun _ => true, fun _ _ _ _ => some []⟩

theorem emptyDatabase_rows (sqlTable inst : Str) (date maxLevels : ℕ) (rows : List (Row maxLevels))
    (h : emptyDatabase.select sqlTable inst date maxLevels = some rows) : rows.length ≤ 1 := by
  obtain rfl := Option.some.inj h
  exact Nat.zero_le 1

def emptyCache : DataCache := ⟨OrderedMap.empty, ['c'], []⟩

def goldRequest (endDate : ℕ) : DataSrcInfo :=
  ⟨[['a', 'u']], [['d', 's', 'n'], ['t', 'i', 'c', 'k', 's'], ['1']], 20140102, endDate, 1⟩

def cachedFriday : DataCache :=
  emptyCache.addCacheFile 5220000 20140103 1 ['f'] ⟨5220000, 20140103, 1, []⟩

/-- The first of two weekdays is loaded, the second was there. -/
theorem complete_iff_cachedFriday :
    weekdays years2014 1 3 = [1, 2] ∧
    ∃ cache', addDataCacheRquetMSSql years2014 emptyDatabase (goldRequest 20140104) cachedFriday =
        some cache' ∧ Complete years2014 (goldRequest 20140104) 1 3 cache' := by
  have hstart : getDateFromNum years2014 20140102 = some 1 := by decide +kernel
  have hfinish : getDateFromNum years2014 20140104 = some 3 := by decide +kernel
  have hreturn := isSome_addDataCacheRquetMSSql years2014 emptyDatabase (goldRequest 20140104)
    cachedFriday hstart hfinish (by decide) (by decide)
    fun sqlTable inst date => emptyDatabase_rows sqlTable inst date 1
  obtain ⟨cache', hreturn⟩ := Option.isSome_iff_exists.mp hreturn
  have hdays : weekdays years2014 1 3 = [1, 2] := by decide +kernel
  refine ⟨hdays, cache', hreturn, (complete_iff years2014 emptyDatabase (goldRequest 20140104)
    hstart hfinish (by decide) (fun _ => rfl) (fun _ _ _ => rfl) hreturn).mpr ?_⟩
  have hcached : cachedFriday.getDataCache 5220000 20140103 1 ≠ [] := by decide +kernel
  rw [hdays]
  rintro inst (_ | ⟨_, ⟨⟩⟩) day (_ | ⟨_, ⟨⟩⟩)
  exact hcached

theorem not_complete_twoDays :
    ∃ cache', addDataCacheRquetMSSql years2014 emptyDatabase (goldRequest 20140104) emptyCache =
        some cache' ∧ ¬ Complete years2014 (goldRequest 20140104) 1 3 cache' := by
  have hreturn : (addDataCacheRquetMSSql years2014 emptyDatabase (goldRequest 20140104)
      emptyCache).isSome := by decide +kernel
  have hmissing : (addDataCacheRquetMSSql years2014 emptyDatabase (goldRequest 20140104)
      emptyCache).map (fun cache => cache.getDataCache 5220000 20140103 1) = some [] := by
    decide +kernel
  obtain ⟨cache', hreturn⟩ := Option.isSome_iff_exists.mp hreturn
  refine ⟨cache', hreturn, fun hcomplete => ?_⟩
  have hcached := hcomplete ['a', 'u'] (by decide) 2 (by decide +kernel)
  rw [hreturn] at hmissing
  exact hcached (Option.some.inj hmissing)

end BluesTrading.CacheCompleteness
