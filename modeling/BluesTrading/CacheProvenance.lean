import BluesTrading.Numerals
import BluesTrading.TickCache
import BluesTrading.Foundations.Runs

namespace BluesTrading.CacheProvenance

open Foundations
open InstrumentInfo
open MarketDataReplayer
open SourceText
open TickCache
open TickQuery
open TradingCalendar

/-- A query for an instrument, a date and a number of levels, whose rows were written to
the file at a path. -/
structure Fetch where
  path : Str
  inst : Str
  date : ℕ
  maxLevels : ℕ
  db : Database
  sqlTable : Str
  rows : List (Row maxLevels)
  store : MarketDataStore
  selected : db.select sqlTable inst date maxLevels = some rows
  stored : storeRows (getInstrumentIndex inst) date rows = some store

structure History where
  cache : DataCache
  fetches : List Fetch

def History.record (h : History) (fetch : Fetch) : History :=
  ⟨h.cache.addCacheFile (getInstrumentIndex fetch.inst) fetch.date fetch.maxLevels fetch.path
      fetch.store, fetch :: h.fetches⟩

/-- A part of a request ends, an exception leaves it, or a null pointer is dereferenced. -/
inductive Outcome
  | finished
  | raised
  | crashed
  deriving DecidableEq

theorem select_of_query {db : Database} {connected : Bool} {date max_levels : ℕ}
    {sqlTable inst : Str} {rows : List (Row max_levels)}
    (h : db.query connected date max_levels sqlTable inst = some rows) :
    db.select sqlTable inst date max_levels = some rows := by
  rw [Database.query] at h
  split_ifs at h
  exact h

section Fetch

variable (db : Database) (connected : Bool) (date max_levels : ℕ) (sqlTable : Str)

def fetchInstrument (inst : Str) (h : History) : History × Outcome :=
  let inst_index := getInstrumentIndex inst
  if h.cache.getDataCache inst_index date max_levels = [] then
    let path := h.cache.getInstumentDataPath inst_index date max_levels
    match hrows : db.query connected date max_levels sqlTable inst with
    | none => (h, .raised)
    | some rows =>
        match hstore : storeRows inst_index date rows with
        | none => (h, .crashed)
        | some store =>
            (h.record ⟨path, inst, date, max_levels, db, sqlTable, rows, store,
              select_of_query hrows, hstore⟩, .finished)
  else (h, .finished)

def fetchInstruments : List Str → History → History × Outcome
  | [], h => (h, .finished)
  | inst :: instruments, h =>
      match fetchInstrument db connected date max_levels sqlTable inst h with
      | (h, .finished) => fetchInstruments instruments h
      | stopped => stopped

end Fetch

section Request

variable (cal : Calendar) (db : Database)

def fetchDates (max_levels : ℕ) (sqlTable : Str) (instruments : List Str) (finish : ℕ) :
    (fuel date : ℕ) → (connected : Bool) → History → History × Outcome
  | 0, _, _, h => (h, .raised)
  | fuel + 1, date, connected, h =>
      if date = finish then (h, .finished)
      else if isWeekend cal date then
        fetchDates max_levels sqlTable instruments finish fuel (date + 1) connected h
      else
        match getNumFromDate cal date with
        | none => (h, .raised)
        | some dateint =>
            match fetchInstruments db connected dateint max_levels sqlTable instruments h with
            | (h, .finished) =>
                fetchDates max_levels sqlTable instruments finish fuel (date + 1) false h
            | (h, .raised) =>
                fetchDates max_levels sqlTable instruments finish fuel (date + 1) connected h
            | (h, .crashed) => (h, .crashed)

def fetchRequestMSSql (datarequest : DataSrcInfo) (h : History) : History × Outcome :=
  ((datarequest.datasrcInfo[0]?).bind fun mssql_dsn =>
    (datarequest.datasrcInfo[1]?).bind fun mssql_table =>
      (getDateFromNum cal datarequest.startDate).bind fun start =>
        (getDateFromNum cal datarequest.endDate).map fun finish =>
          fetchDates cal db datarequest.maxLevels mssql_table datarequest.instruments finish
            (cal.last + 1 - start) start
            (db.rlogon (['D', 'S', 'N', '='] ++ mssql_dsn)) h).getD (h, .raised)

def fetchRequest (datarequest : DataSrcInfo) (h : History) : History × Outcome :=
  match datarequest.datasrcType with
  | 1 => fetchRequestMSSql cal db datarequest h
  | _ => (h, .finished)

/-- A request leaves the cache as it was when it ended or was left by an exception. -/
def requestStep (h : History) (request : Database × DataSrcInfo) : Option History :=
  match fetchRequest cal request.1 request.2 h with
  | (_, .crashed) => none
  | (h, _) => some h

end Request

/-! ### The history is a record of the requests -/

section Record

variable (db : Database) (connected : Bool) (date max_levels : ℕ) (sqlTable : Str)

theorem fetchInstrument_cases (inst : Str) (h : History) :
    let cached := h.cache.getDataCache (getInstrumentIndex inst) date max_levels
    let query := db.query connected date max_levels sqlTable inst
    let result := fetchInstrument db connected date max_levels sqlTable inst h
    (cached ≠ [] ∧ result = (h, .finished)) ∨
      (cached = [] ∧ query = none ∧ result = (h, .raised)) ∨
      (cached = [] ∧ ∃ rows, query = some rows ∧
        storeRows (getInstrumentIndex inst) date rows = none ∧ result = (h, .crashed)) ∨
      (cached = [] ∧ ∃ rows store hselected hstored, query = some rows ∧
        result = (h.record ⟨h.cache.getInstumentDataPath (getInstrumentIndex inst) date max_levels,
          inst, date, max_levels, db, sqlTable, rows, store, hselected, hstored⟩, .finished)) := by
  intro cached query result
  obtain ⟨r, hresult⟩ : ∃ r, result = r := ⟨_, rfl⟩
  rw [hresult]
  simp only [result, fetchInstrument] at hresult
  split_ifs at hresult with hcached
  · refine .inr ?_
    split at hresult
    next hrows => exact .inl ⟨hcached, hrows, hresult.symm⟩
    next rows hrows =>
      refine .inr ?_
      split at hresult
      next hstore => exact .inl ⟨hcached, rows, hrows, hstore, hresult.symm⟩
      next store hstore =>
        exact .inr ⟨hcached, rows, store, select_of_query hrows, hstore, hrows, hresult.symm⟩
  · exact .inl ⟨hcached, hresult.symm⟩

theorem loadInstruments_eq (instruments : List Str) (h : History) :
    loadInstruments db connected date max_levels sqlTable instruments h.cache =
      match fetchInstruments db connected date max_levels sqlTable instruments h with
      | (_, .crashed) => none
      | (h, outcome) => some (h.cache, outcome == .raised) := by
  induction instruments generalizing h with
  | nil => rfl
  | cons inst instruments ih =>
      rw [loadInstruments, fetchInstruments]
      rcases fetchInstrument_cases db connected date max_levels sqlTable inst h with
        ⟨hcached, hresult⟩ | ⟨hcached, hquery, hresult⟩ | ⟨hcached, rows, hquery, hstore, hresult⟩ |
        ⟨hcached, rows, store, hselected, hstored, hquery, hresult⟩
      · rw [if_neg hcached, hresult]
        exact ih h
      · rw [if_pos hcached, hquery, hresult]
        rfl
      · rw [if_pos hcached, hquery, hresult]
        simp only [hstore, Option.bind_none]
      · rw [if_pos hcached, hquery, hresult]
        simp only [hstored, Option.bind_some]
        exact ih (h.record ⟨_, inst, _, _, _, _, _, _, hselected, hstored⟩)

theorem getDataFromMSSql_eq (instruments : List Str) (h : History) :
    getDataFromMSSql db connected date max_levels sqlTable instruments h.cache =
      match fetchInstruments db connected date max_levels sqlTable instruments h with
      | (_, .crashed) => none
      | (h, .raised) => some (h.cache, connected)
      | (h, .finished) => some (h.cache, false) := by
  rw [getDataFromMSSql, loadInstruments_eq]
  rcases fetchInstruments db connected date max_levels sqlTable instruments h with ⟨h', _ | _ | _⟩
  · rfl
  · rfl
  · rfl

variable (cal : Calendar)

theorem loadDates_eq (finish : ℕ) (instruments : List Str) (fuel day : ℕ) (connected : Bool)
    (h : History) :
    loadDates cal db max_levels sqlTable instruments finish fuel day connected h.cache =
      match fetchDates cal db max_levels sqlTable instruments finish fuel day connected h with
      | (h, .finished) => some h.cache
      | _ => none := by
  induction fuel generalizing day connected h with
  | zero => rfl
  | succ fuel ih =>
      rw [loadDates, fetchDates]
      split_ifs with hend hweekend
      · rfl
      · exact ih _ _ h
      · cases hdateint : getNumFromDate cal day with
        | none => rfl
        | some dateint =>
            rw [Option.bind_some, getDataFromMSSql_eq]
            dsimp only
            rcases fetchInstruments db connected dateint max_levels sqlTable instruments h with
              ⟨h', _ | _ | _⟩
            · exact ih _ _ h'
            · exact ih _ _ h'
            · rfl

theorem addDataCacheRquetMSSql_eq (datarequest : DataSrcInfo) (h : History) :
    addDataCacheRquetMSSql cal db datarequest h.cache =
      match fetchRequestMSSql cal db datarequest h with
      | (h, .finished) => some h.cache
      | _ => none := by
  unfold addDataCacheRquetMSSql fetchRequestMSSql
  cases datarequest.datasrcInfo[0]? with
  | none => rfl
  | some mssql_dsn =>
      cases datarequest.datasrcInfo[1]? with
      | none => rfl
      | some mssql_table =>
          cases getDateFromNum cal datarequest.startDate with
          | none => rfl
          | some start =>
              cases getDateFromNum cal datarequest.endDate with
              | none => rfl
              | some finish => exact loadDates_eq _ _ _ _ _ _ _ _ _ h

theorem addDataCacheRequest_eq (datarequest : DataSrcInfo) (h : History) :
    addDataCacheRequest cal db datarequest h.cache =
      match fetchRequest cal db datarequest h with
      | (h, .finished) => some h.cache
      | _ => none := by
  unfold addDataCacheRequest fetchRequest
  rcases datarequest.datasrcType with _ | _ | other
  · rfl
  · exact addDataCacheRquetMSSql_eq db cal datarequest h
  · rfl

end Record

/-! ### A request is a series of queries -/

/-- A query fills an entry that was empty with the path of its own file. -/
inductive Fills (instruments : List Str) : History → History → Prop
  | record (h : History) (fetch : Fetch) (hinst : fetch.inst ∈ instruments)
      (hempty : h.cache.getDataCache (getInstrumentIndex fetch.inst) fetch.date
        fetch.maxLevels = [])
      (hpath : fetch.path = h.cache.getInstumentDataPath (getInstrumentIndex fetch.inst)
        fetch.date fetch.maxLevels) :
      Fills instruments h (h.record fetch)

section Series

open Relation

variable (cal : Calendar) (db : Database) (connected : Bool) (date max_levels : ℕ)
  (sqlTable : Str) {instruments : List Str}

theorem fills_fetchInstrument {inst : Str} (hinst : inst ∈ instruments) (h : History) :
    ReflTransGen (Fills instruments) h
      (fetchInstrument db connected date max_levels sqlTable inst h).1 := by
  rcases fetchInstrument_cases db connected date max_levels sqlTable inst h with
    ⟨-, hresult⟩ | ⟨-, -, hresult⟩ | ⟨-, rows, -, -, hresult⟩ |
    ⟨hempty, rows, store, hselected, hstored, -, hresult⟩
  · rw [hresult]
  · rw [hresult]
  · rw [hresult]
  · rw [hresult]
    exact .single (.record h _ hinst hempty rfl)

theorem fills_fetchInstruments {part : List Str} (hpart : ∀ inst ∈ part, inst ∈ instruments)
    (h : History) :
    ReflTransGen (Fills instruments) h
      (fetchInstruments db connected date max_levels sqlTable part h).1 := by
  induction part generalizing h with
  | nil => exact .refl
  | cons inst part ih =>
      have hfirst := fills_fetchInstrument db connected date max_levels sqlTable
        (hpart inst List.mem_cons_self) h
      rw [fetchInstruments]
      split
      next h' hresult =>
        rw [hresult] at hfirst
        exact hfirst.trans (ih (fun other hother => hpart other (.tail _ hother)) h')
      next => exact hfirst

theorem fills_fetchDates (finish fuel day : ℕ) (connected : Bool) (h : History) :
    ReflTransGen (Fills instruments) h
      (fetchDates cal db max_levels sqlTable instruments finish fuel day connected h).1 := by
  induction fuel generalizing day connected h with
  | zero => exact .refl
  | succ fuel ih =>
      rw [fetchDates]
      split_ifs
      · exact .refl
      · exact ih _ _ h
      · cases getNumFromDate cal day with
        | none => exact .refl
        | some dateint =>
            have hday := fills_fetchInstruments db connected dateint max_levels sqlTable
              (fun inst (hinst : inst ∈ instruments) => hinst) h
            dsimp only
            rcases hresult : fetchInstruments db connected dateint max_levels sqlTable
              instruments h with ⟨h', _ | _ | _⟩
            · rw [hresult] at hday
              exact hday.trans (ih _ _ h')
            · rw [hresult] at hday
              exact hday.trans (ih _ _ h')
            · rwa [hresult] at hday

theorem fills_fetchRequest (datarequest : DataSrcInfo) (h : History) :
    ReflTransGen (Fills datarequest.instruments) h (fetchRequest cal db datarequest h).1 := by
  rw [fetchRequest]
  split
  · unfold fetchRequestMSSql
    cases datarequest.datasrcInfo[0]? with
    | none => exact .refl
    | some mssql_dsn =>
        cases datarequest.datasrcInfo[1]? with
        | none => exact .refl
        | some mssql_table =>
            cases getDateFromNum cal datarequest.startDate with
            | none => exact .refl
            | some start =>
                cases getDateFromNum cal datarequest.endDate with
                | none => exact .refl
                | some finish => exact fills_fetchDates _ _ _ _ _ _ _ _ h
  · exact .refl

theorem fills_of_requestStep {h h' : History} {request : Database × DataSrcInfo}
    (hstep : requestStep cal h request = some h') :
    ReflTransGen (Fills request.2.instruments) h h' := by
  have hfills := fills_fetchRequest cal request.1 request.2 h
  unfold requestStep at hstep
  split at hstep
  next => cases hstep
  next h'' outcome _ hresult =>
    obtain rfl := Option.some.inj hstep
    rwa [hresult] at hfills

end Series

/-! ### Paths and indices -/

theorem mem_instrumentIndexTable {name : Str} (hname : getInstrumentIndex name ≠ 0) :
    (name, getInstrumentIndex name) ∈ instrumentIndexTable := by
  unfold getInstrumentIndex at hname ⊢
  cases hlookup : instrumentIndexTable.lookup name with
  | none => simp [hlookup] at hname
  | some index =>
      obtain ⟨before, after, htable, -⟩ := List.lookup_eq_some_iff.mp hlookup
      simp [htable]

theorem eq_of_getInstrumentIndex_eq {inst inst' : Str} (hne : getInstrumentIndex inst ≠ 0)
    (h : getInstrumentIndex inst = getInstrumentIndex inst') : inst = inst' := by
  have hnames : ∀ p ∈ instrumentIndexTable, ∀ q ∈ instrumentIndexTable, p.2 = q.2 → p.1 = q.1 := by
    decide +kernel
  exact hnames _ (mem_instrumentIndexTable hne) _ (mem_instrumentIndexTable (h ▸ hne)) h

theorem getInstrumentIndex_lt (name : Str) : getInstrumentIndex name < 2 ^ 32 := by
  have htable : ∀ p ∈ instrumentIndexTable, p.2 < 2 ^ 32 := by decide
  by_cases hname : getInstrumentIndex name = 0
  · rw [hname]
    decide
  · exact htable _ (mem_instrumentIndexTable hname)

theorem appendPath_eq (path name : Str) : appendPath path name = appendPath path [] ++ name := by
  unfold appendPath
  split_ifs <;> simp

theorem appendPath_digits (path name : Str) (n : ℕ) :
    appendPath (path ++ digits n) name = path ++ (digits n ++ '/' :: name) := by
  have hne : digits n ≠ [] := (isNumeral_digits n).1
  have hlast : (digits n).getLast? ≠ some '/' :=
    fun h => absurd ((isNumeral_digits n).2 _ (List.mem_of_getLast? h)) (by decide)
  unfold appendPath
  rw [if_neg (by simp [hne, hlast]), List.append_assoc]

/-- Different instruments, dates or numbers of levels have different files. -/
theorem getInstumentDataPath_inj (cache : DataCache) {inst inst' date date' levels levels' : ℕ}
    (h : cache.getInstumentDataPath inst date levels =
      cache.getInstumentDataPath inst' date' levels') :
    inst = inst' ∧ date = date' ∧ levels = levels' := by
  simp only [DataCache.getInstumentDataPath, DataCache.getInstrumentDir,
    appendPath_eq cache.localCachePath (digits _), appendPath_digits, List.append_assoc,
    List.cons_append] at h
  obtain ⟨hinst, h⟩ := digits_append_inj (by decide) (List.append_cancel_left h)
  obtain ⟨-, h⟩ := digits_append_inj (by decide) h
  obtain ⟨hdate, h⟩ := digits_append_inj (by decide) h
  exact ⟨hinst, hdate, digits_inj (List.append_cancel_right h)⟩

/-! ### What the record says about the cache -/

structure Recorded (h : History) : Prop where
  path : ∀ fetch ∈ h.fetches, fetch.path =
    h.cache.getInstumentDataPath (getInstrumentIndex fetch.inst) fetch.date fetch.maxLevels
  entry : ∀ fetch ∈ h.fetches,
    h.cache.getDataCache (getInstrumentIndex fetch.inst) fetch.date fetch.maxLevels = fetch.path
  content : ∀ fetch ∈ h.fetches, h.cache.files.lookup fetch.path = some fetch.store
  fetched : ∀ inst date levels, h.cache.getDataCache inst date levels ≠ [] →
    ∃ fetch ∈ h.fetches, getInstrumentIndex fetch.inst = inst ∧ fetch.date = date ∧
      fetch.maxLevels = levels
  nodup : (h.fetches.map Fetch.path).Nodup

def start (localCachePath : Str) : History := ⟨⟨OrderedMap.empty, localCachePath, []⟩, []⟩

theorem recorded_start (localCachePath : Str) : Recorded (start localCachePath) where
  path := by simp [start]
  entry := by simp [start]
  content := by simp [start]
  fetched := by simp [start, DataCache.getDataCache]
  nodup := by simp [start]

theorem Fills.recorded {instruments : List Str} {h h' : History} (hfills : Fills instruments h h')
    (hrec : Recorded h) : Recorded h' := by
  cases hfills with
  | record fetch _ hempty hpath =>
  have hkey : ∀ old ∈ h.fetches,
      ¬ (getInstrumentIndex old.inst = getInstrumentIndex fetch.inst ∧ old.date = fetch.date ∧
        old.maxLevels = fetch.maxLevels) := by
    rintro old hold ⟨hinst, hdate, hlevels⟩
    have hentry := hrec.entry old hold
    rw [hinst, hdate, hlevels, hempty, hrec.path old hold] at hentry
    exact getInstumentDataPath_ne_nil _ _ _ _ hentry.symm
  have hne : ∀ old ∈ h.fetches, old.path ≠ fetch.path := by
    intro old hold heq
    rw [hrec.path old hold, hpath] at heq
    exact hkey old hold (getInstumentDataPath_inj _ heq)
  constructor
  · rintro old (_ | ⟨_, hold⟩)
    · exact hpath
    · exact hrec.path old hold
  · rintro old (_ | ⟨_, hold⟩)
    · exact (getDataCache_addCacheFile ..).trans (if_pos ⟨rfl, rfl, rfl⟩)
    · exact (getDataCache_addCacheFile ..).trans
        ((if_neg (hkey old hold)).trans (hrec.entry old hold))
  · rintro old (_ | ⟨_, hold⟩)
    · exact List.lookup_cons_self
    · have hlookup := hrec.content old hold
      have hother : (old.path == fetch.path) = false := by simpa using hne old hold
      simpa only [History.record, DataCache.addCacheFile, List.lookup_cons, hother] using hlookup
  · intro inst date levels hentry
    rw [History.record, getDataCache_addCacheFile] at hentry
    split_ifs at hentry with hsame
    · obtain ⟨rfl, rfl, rfl⟩ := hsame
      exact ⟨fetch, List.mem_cons_self, rfl, rfl, rfl⟩
    · obtain ⟨old, hold, hold'⟩ := hrec.fetched inst date levels hentry
      exact ⟨old, List.mem_cons_of_mem _ hold, hold'⟩
  · refine List.nodup_cons.mpr ⟨fun hmem => ?_, hrec.nodup⟩
    obtain ⟨old, hold, heq⟩ := List.mem_map.mp hmem
    exact hne old hold heq

/-! ### Whose data is served -/

/-- The path for a name is empty, or that of a file which holds rows that were queried for
the same name, date and number of levels. -/
def Sound (h : History) : Prop :=
  ∀ name date levels,
    h.cache.getDataCache (getInstrumentIndex name) date levels = [] ∨
      ∃ fetch ∈ h.fetches, fetch.inst = name ∧ fetch.date = date ∧ fetch.maxLevels = levels ∧
        h.cache.getDataCache (getInstrumentIndex name) date levels = fetch.path ∧
        h.cache.files.lookup fetch.path = some fetch.store

/-- All names outside the table share one index, and so one file for a date and a number of
levels. -/
theorem Recorded.sound_iff {h : History} (hrec : Recorded h) :
    Sound h ↔ ∀ fetch ∈ h.fetches, getInstrumentIndex fetch.inst ≠ 0 := by
  constructor
  · intro hsound fetch hfetch hzero
    obtain ⟨name, hname, hunknown⟩ : ∃ name, fetch.inst ≠ name ∧ getInstrumentIndex name = 0 := by
      by_cases hx : fetch.inst = ['x']
      · exact ⟨['z'], by simp [hx], by decide⟩
      · exact ⟨['x'], hx, by decide⟩
    have hentry := hrec.entry fetch hfetch
    rw [hzero, ← hunknown] at hentry
    rcases hsound name fetch.date fetch.maxLevels with hempty | ⟨other, hother, rfl, -, -, hpath, -⟩
    · rw [hentry, hrec.path fetch hfetch] at hempty
      exact getInstumentDataPath_ne_nil _ _ _ _ hempty
    · rw [hentry] at hpath
      obtain rfl := List.inj_on_of_nodup_map hrec.nodup hfetch hother hpath
      exact hname rfl
  · intro hknown name date levels
    by_cases hempty : h.cache.getDataCache (getInstrumentIndex name) date levels = []
    · exact .inl hempty
    · obtain ⟨fetch, hfetch, hinst, rfl, rfl⟩ := hrec.fetched _ _ _ hempty
      have hname := eq_of_getInstrumentIndex_eq (hknown fetch hfetch) hinst
      exact .inr ⟨fetch, hfetch, hname, rfl, rfl, hinst ▸ hrec.entry fetch hfetch,
        hrec.content fetch hfetch⟩

section Requests

open Relation

variable {cal : Calendar} {h h' : History}

theorem recorded_requestStep {request : Database × DataSrcInfo}
    (hstep : requestStep cal h request = some h') (hrec : Recorded h) : Recorded h' := by
  have hseries := fills_of_requestStep cal hstep
  clear hstep
  induction hseries with
  | refl => exact hrec
  | tail _ hfills ih => exact hfills.recorded ih

theorem mem_instruments_of_requestStep {request : Database × DataSrcInfo}
    (hstep : requestStep cal h request = some h') {fetch : Fetch} (hfetch : fetch ∈ h'.fetches) :
    fetch ∈ h.fetches ∨ fetch.inst ∈ request.2.instruments := by
  have hseries := fills_of_requestStep cal hstep
  clear hstep
  induction hseries with
  | refl => exact .inl hfetch
  | tail _ hfills ih =>
      cases hfills with
      | record new hinst =>
          rcases List.mem_cons.mp hfetch with rfl | hfetch
          · exact .inr hinst
          · exact ih hfetch

theorem exists_request_of_fetched {requests : List (Database × DataSrcInfo)}
    (hrun : Run (requestStep cal) (fun _ _ => True) h requests h') {fetch : Fetch}
    (hfetch : fetch ∈ h'.fetches) :
    fetch ∈ h.fetches ∨ ∃ request ∈ requests, fetch.inst ∈ request.2.instruments := by
  induction hrun with
  | nil => exact .inl hfetch
  | @cons _ _ _ request _ _ hstep _ ih =>
      rcases ih hfetch with hearlier | ⟨later, hlater, hinst⟩
      · rcases mem_instruments_of_requestStep hstep hearlier with hbefore | hinst
        · exact .inl hbefore
        · exact .inr ⟨request, List.mem_cons_self, hinst⟩
      · exact .inr ⟨later, List.mem_cons_of_mem _ hlater, hinst⟩

/-- Whatever is requested, the cache serves each instrument its own data exactly as long as
no rows have been queried for a name outside the table, as when all names that are requested
are in the table. -/
theorem sound_iff_queriesKnown (cal : Calendar) (localCachePath : Str)
    {requests : List (Database × DataSrcInfo)} {h : History}
    (hrun : Run (requestStep cal) (fun _ _ => True) (start localCachePath) requests h) :
    (Sound h ↔ ∀ fetch ∈ h.fetches, getInstrumentIndex fetch.inst ≠ 0) ∧
      ((∀ request ∈ requests, ∀ inst ∈ request.2.instruments, getInstrumentIndex inst ≠ 0) →
        Sound h) := by
  have hrec : Recorded h := hrun.invariant
    (fun _ _ _ _ hstep hrec => recorded_requestStep hstep hrec) (recorded_start localCachePath)
  refine ⟨hrec.sound_iff, fun hrequests => hrec.sound_iff.mpr fun fetch hfetch => ?_⟩
  rcases exists_request_of_fetched hrun hfetch with hstart | ⟨request, hrequest, hinst⟩
  · cases hstart
  · exact hrequests request hrequest fetch.inst hinst

end Requests

/-- Requests that all end are a run, and leave the cache of its history. -/
theorem exists_run_of_addDataCacheRequest (cal : Calendar)
    {requests : List (Database × DataSrcInfo)} (h : History) {cache : DataCache}
    (hrequests : requests.foldlM (fun cache request =>
      addDataCacheRequest cal request.1 request.2 cache) h.cache = some cache) :
    ∃ h', Run (requestStep cal) (fun _ _ => True) h requests h' ∧ h'.cache = cache := by
  induction requests generalizing h with
  | nil =>
      obtain rfl := Option.some.inj hrequests
      exact ⟨h, .nil h, rfl⟩
  | cons request requests ih =>
      rw [List.foldlM_cons, addDataCacheRequest_eq] at hrequests
      rcases hfetch : fetchRequest cal request.1 request.2 h with ⟨next, _ | _ | _⟩
      · rw [hfetch] at hrequests
        obtain ⟨h', hrun, hcache⟩ := ih next hrequests
        refine ⟨h', .cons trivial ?_ hrun, hcache⟩
        rw [requestStep, hfetch]
      · rw [hfetch] at hrequests
        cases hrequests
      · rw [hfetch] at hrequests
        cases hrequests

def emptyDatabase : Database := ⟨fun _ => true, fun _ _ _ _ => some []⟩

/-- A request for one instrument on one day. -/
def requestFor (inst : Str) : Database × DataSrcInfo :=
  (emptyDatabase, ⟨[inst], [['d'], ['t'], ['5']], 20140103, 20140104, 1⟩)

theorem sound_iff_queriesKnown_listed :
    ∃ h, Run (requestStep years2014) (fun _ _ => True) (start ['c']) [requestFor ['a']] h ∧
      h.fetches.map Fetch.inst = [['a']] ∧ Sound h := by
  have hfetched : (Run.execute (requestStep years2014) (fun _ _ => True) (start ['c'])
      [requestFor ['a']]).map (fun h => h.fetches.map Fetch.inst) = some [['a']] := by
    decide +kernel
  obtain ⟨h, hrun, hinsts⟩ := Run.exists_of_execute_map hfetched
  have hknown : ∀ request ∈ [requestFor ['a']], ∀ inst ∈ request.2.instruments,
      getInstrumentIndex inst ≠ 0 := by decide
  exact ⟨h, hrun, hinsts, (sound_iff_queriesKnown years2014 ['c'] hrun).2 hknown⟩

/-- Rows that were queried for `x` are served as those of `z`. -/
theorem not_sound_unlisted :
    ∃ h, Run (requestStep years2014) (fun _ _ => True) (start ['c']) [requestFor ['x']] h ∧
      (∀ fetch ∈ h.fetches, fetch.inst = ['x']) ∧
      h.cache.getDataCache (getInstrumentIndex ['z']) 20140103 5 ≠ [] ∧ ¬ Sound h := by
  have hserved : (Run.execute (requestStep years2014) (fun _ _ => True) (start ['c'])
      [requestFor ['x']]).map (fun h => (h.fetches.map Fetch.inst,
        h.cache.getDataCache (getInstrumentIndex ['z']) 20140103 5)) =
      some ([['x']], "c/0/0_20140103_5.bin".toList) := by decide +kernel
  obtain ⟨h, hrun, hresult⟩ := Run.exists_of_execute_map hserved
  obtain ⟨hinsts, hpath⟩ := Prod.mk.inj hresult
  have hfetched : ∀ fetch ∈ h.fetches, fetch.inst = ['x'] := fun fetch hfetch => by
    simpa [hinsts] using List.mem_map_of_mem (f := Fetch.inst) hfetch
  have hne : h.cache.getDataCache (getInstrumentIndex ['z']) 20140103 5 ≠ [] := by
    rw [hpath]
    decide
  refine ⟨h, hrun, hfetched, hne, fun hsound => ?_⟩
  rcases hsound ['z'] 20140103 5 with hempty | ⟨fetch, hfetch, hinst, -⟩
  · exact hne hempty
  · rw [hfetched fetch hfetch] at hinst
    cases hinst

end BluesTrading.CacheProvenance
