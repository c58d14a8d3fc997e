import BluesTrading.CacheProvenance
import BluesTrading.Foundations.KeyedWrites

namespace BluesTrading.CacheScan

open Foundations
open InstrumentInfo
open MarketDataReplayer
open SourceText
open TickCache

/-! ### The directory -/

structure FileEntry where
  name : Str
  isRegularFile : Bool
  deriving DecidableEq

/-- An entry of the cache directory, with its own entries if it is a directory. -/
inductive DirectoryEntry
  | directory (name : Str) (files : List FileEntry)
  | other (name : Str)
  deriving DecidableEq

/-- What the path of the cache names. -/
inductive FileStatus
  | notFound
  | directory (entries : List DirectoryEntry)
  | regularFile
  | other

/-- The end of a file name, from its last dot on. -/
def extension (name : Str) : Str :=
  if name = ['.'] ∨ name = ['.', '.'] then []
  else if '.' ∈ name then '.' :: name.rtakeWhile (· != '.')
  else []

def stem (name : Str) : Str :=
  if name = ['.'] ∨ name = ['.', '.'] then name
  else if '.' ∈ name then (name.rdropWhile (· != '.')).dropLast
  else name

/-! ### The scan -/

def setCacheStatus (cache : DataCache) (inst date maxLevels : ℕ) (path : Str) : DataCache :=
  let dates := (cache.cacheStatus.find? inst).getD OrderedMap.empty
  let levels := (dates.find? date).getD OrderedMap.empty
  let dates := dates.insert date (levels.insert maxLevels path)
  { cache with cacheStatus := cache.cacheStatus.insert inst dates }

def checkCacheFile (checkpath : Str) (cache : DataCache) (x : FileEntry) : Option DataCache :=
  if x.isRegularFile ∧ extension x.name = ['.', 'b', 'i', 'n'] then do
    let filename_parts := (stem x.name).splitOnP (· == '_')
    let date ← (filename_parts[1]?).bind lexicalCastUInt32
    let inst ← (filename_parts[0]?).bind lexicalCastUInt32
    let maxLevels ← (filename_parts[2]?).bind lexicalCastUInt32
    return setCacheStatus cache inst date maxLevels (appendPath checkpath x.name)
  else some cache

def checkCacheForInst (checkpath : Str) (files : List FileEntry) (cache : DataCache) :
    Option DataCache :=
  files.foldlM (checkCacheFile checkpath) cache

def checkEntry (dirName : Str) (cache : DataCache) : DirectoryEntry → Option DataCache
  | .directory instrumentname files =>
      (lexicalCastUInt32 instrumentname).bind fun instIndex =>
        if instIndex > 10000 then
          checkCacheForInst (appendPath dirName instrumentname) files cache
        else some cache
  | .other _ => some cache

/-- A directory that does not exist is created. -/
def initDataCache (dirName : Str) (status : FileStatus) (cache : DataCache) : Option DataCache :=
  let cache := { cache with localCachePath := dirName }
  match status with
  | .directory entries => entries.foldlM (checkEntry dirName) cache
  | _ => some cache

def newCache : DataCache := ⟨OrderedMap.empty, [], []⟩

theorem getDataCache_setCacheStatus (cache : DataCache) (inst date maxLevels : ℕ) (path : Str)
    (inst' date' maxLevels' : ℕ) :
    (setCacheStatus cache inst date maxLevels path).getDataCache inst' date' maxLevels' =
      if inst' = inst ∧ date' = date ∧ maxLevels' = maxLevels then path
      else cache.getDataCache inst' date' maxLevels' :=
  getDataCache_addCacheFile cache inst date maxLevels path ⟨0, 0, 0, []⟩ inst' date' maxLevels'

/-! ### The names of the files -/

structure CacheKey where
  inst : ℕ
  date : ℕ
  maxLevels : ℕ
  deriving DecidableEq

namespace CacheKey

structure IsUInt32 (key : CacheKey) : Prop where
  inst : key.inst < 2 ^ 32
  date : key.date < 2 ^ 32
  maxLevels : key.maxLevels < 2 ^ 32

def stem (key : CacheKey) : Str :=
  digits key.inst ++ '_' :: digits key.date ++ '_' :: digits key.maxLevels

def fileName (key : CacheKey) : Str := key.stem ++ ['.', 'b', 'i', 'n']

def path (dirName : Str) (key : CacheKey) : Str :=
  appendPath (appendPath dirName (digits key.inst)) key.fileName

end CacheKey

/-- What a cache answers. -/
def view (cache : DataCache) (key : CacheKey) : Str :=
  cache.getDataCache key.inst key.date key.maxLevels

theorem append_bin_not_dots (s : Str) :
    ¬ (s ++ ['.', 'b', 'i', 'n'] = ['.'] ∨ s ++ ['.', 'b', 'i', 'n'] = ['.', '.']) := by
  have hlength : 4 ≤ (s ++ ['.', 'b', 'i', 'n']).length := by simp
  rintro (hdot | hdots)
  · rw [hdot] at hlength
    exact absurd hlength (by decide)
  · rw [hdots] at hlength
    exact absurd hlength (by decide)

theorem extension_append_bin (s : Str) :
    extension (s ++ ['.', 'b', 'i', 'n']) = ['.', 'b', 'i', 'n'] := by
  rw [extension, if_neg (append_bin_not_dots s), if_pos (by simp)]
  simp [List.rtakeWhile]

theorem stem_append_bin (s : Str) : stem (s ++ ['.', 'b', 'i', 'n']) = s := by
  rw [stem, if_neg (append_bin_not_dots s), if_pos (by simp)]
  simp [List.rdropWhile]

namespace CacheKey

variable {key key' : CacheKey}

theorem splitOnP_stem (key : CacheKey) : key.stem.splitOnP (· == '_') =
    [digits key.inst, digits key.date, digits key.maxLevels] := by
  have hdigits : ∀ n, ∀ c ∈ digits n, (c == '_') = false := fun n c hc =>
    beq_eq_false_iff_ne.mpr fun heq => absurd ((isNumeral_digits n).2 c hc) (heq ▸ by decide)
  rw [stem, List.append_assoc, List.cons_append,
    List.splitOnP_append_cons_of_forall_mem (hdigits _) _ (by decide),
    List.splitOnP_append_cons_of_forall_mem (hdigits _) _ (by decide),
    List.splitOnP_eq_singleton (hdigits _)]

theorem fileName_inj (h : key.fileName = key'.fileName) : key = key' := by
  have hparts := congrArg (List.splitOnP (· == '_')) (List.append_cancel_right h)
  rw [splitOnP_stem, splitOnP_stem] at hparts
  injection hparts with hinst hparts
  injection hparts with hdate hparts
  injection hparts with hmaxLevels
  obtain ⟨inst, date, maxLevels⟩ := key
  obtain ⟨inst', date', maxLevels'⟩ := key'
  obtain rfl := digits_inj hinst
  obtain rfl := digits_inj hdate
  obtain rfl := digits_inj hmaxLevels
  rfl

theorem path_inj {dirName name : Str} {inst : ℕ}
    (h : appendPath (appendPath dirName (digits inst)) name = key.path dirName) :
    inst = key.inst ∧ name = key.fileName := by
  rw [path, CacheProvenance.appendPath_eq dirName (digits inst),
    CacheProvenance.appendPath_eq dirName (digits key.inst), CacheProvenance.appendPath_digits,
    CacheProvenance.appendPath_digits] at h
  exact digits_append_inj (by decide) (List.append_cancel_left h)

end CacheKey

theorem lexicalCastUInt32_digits {n : ℕ} (h : n < 2 ^ 32) :
    lexicalCastUInt32 (digits n) = some n := by
  have hvalue := digitsValue_digits n
  rw [lexicalCastUInt32_of_isNumeral (isNumeral_digits n) (by rwa [hvalue]), hvalue]

theorem checkCacheFile_fileName {key : CacheKey} (h : key.IsUInt32) (checkpath : Str)
    (cache : DataCache) : checkCacheFile checkpath cache ⟨key.fileName, true⟩ =
      some (setCacheStatus cache key.inst key.date key.maxLevels
        (appendPath checkpath key.fileName)) := by
  rw [checkCacheFile, if_pos ⟨rfl, extension_append_bin _⟩]
  simp only [CacheKey.fileName, stem_append_bin, CacheKey.splitOnP_stem, List.getElem?_cons_zero,
    List.getElem?_cons_succ, Option.bind_some, lexicalCastUInt32_digits h.inst,
    lexicalCastUInt32_digits h.date, lexicalCastUInt32_digits h.maxLevels, Option.bind_eq_bind,
    Option.pure_def]

theorem writesOn_setCacheStatus (dirName : Str) (key : CacheKey) (cache : DataCache) :
    WritesOn view (CacheKey.path dirName) {key} cache
      (setCacheStatus cache key.inst key.date key.maxLevels (key.path dirName)) := by
  intro key'
  rw [view, getDataCache_setCacheStatus]
  constructor
  · rintro rfl
    exact if_pos ⟨rfl, rfl, rfl⟩
  · intro hne
    refine if_neg fun ⟨hinst, hdate, hmaxLevels⟩ => hne ?_
    obtain ⟨inst, date, maxLevels⟩ := key'
    subst hinst hdate hmaxLevels
    rfl

/-! ### What the scan finds -/

/-- The paths of the files in the directories. -/
def filePaths (dirName : Str) (entries : List DirectoryEntry) : List Str :=
  entries.flatMap fun
    | .directory name files => files.map fun x => appendPath (appendPath dirName name) x.name
    | .other _ => []

/-- The cache directory holds these files in the directories of the instruments, and nothing else.
The directory of an instrument may be empty. -/
structure HoldsFiles (dirName : Str) (paths : List Str) (entries : List DirectoryEntry) : Prop where
  directories : ∀ x ∈ entries, ∃ inst < 2 ^ 32, ∃ files, x = .directory (digits inst) files
  regular : ∀ name files, .directory name files ∈ entries → ∀ x ∈ files, x.isRegularFile = true
  mem_filePaths_iff : ∀ path, path ∈ filePaths dirName entries ↔ path ∈ paths

def DirectoryEntry.keys : DirectoryEntry → Set CacheKey
  | .directory name files => {key | digits key.inst = name ∧ ∃ x ∈ files, x.name = key.fileName}
  | .other _ => ∅

section Scan

variable {dirName : Str} {paths : List Str} {keys : Set CacheKey} {entries : List DirectoryEntry}
  {files : List FileEntry} {inst : ℕ}

theorem exists_checkCacheForInst
    (hfiles : ∀ x ∈ files, ∃ key : CacheKey, key.IsUInt32 ∧ key.inst = inst ∧
      x = ⟨key.fileName, true⟩) (cache : DataCache) :
    ∃ cache', checkCacheForInst (appendPath dirName (digits inst)) files cache = some cache' ∧
      WritesOn view (CacheKey.path dirName) (DirectoryEntry.directory (digits inst) files).keys
        cache cache' := by
  have hfile : ∀ x ∈ files, ∀ cache, ∃ cache',
      checkCacheFile (appendPath dirName (digits inst)) cache x = some cache' ∧
        WritesOn view (CacheKey.path dirName)
          {key | digits key.inst = digits inst ∧ x.name = key.fileName} cache cache' := by
    intro x hx cache
    obtain ⟨key, hkey, rfl, rfl⟩ := hfiles x hx
    refine ⟨_, checkCacheFile_fileName hkey _ cache, ?_⟩
    refine (writesOn_setCacheStatus dirName key cache).congr_keys fun key' => ?_
    constructor
    · rintro rfl
      exact ⟨rfl, rfl⟩
    · rintro ⟨-, hname⟩
      exact (CacheKey.fileName_inj hname).symm
  obtain ⟨cache', hscan, hwrites⟩ := WritesOn.exists_foldlM hfile cache
  refine ⟨cache', hscan, hwrites.congr_keys fun key => ?_⟩
  constructor
  · rintro ⟨x, hx, hinst, hname⟩
    exact ⟨hinst, x, hx, hname⟩
  · rintro ⟨hinst, x, hx, hname⟩
    exact ⟨x, hx, hinst, hname⟩

namespace HoldsFiles

theorem exists_key (h : HoldsFiles dirName paths entries)
    (hpaths : ∀ path, path ∈ paths ↔ ∃ key ∈ keys, key.path dirName = path)
    (hdir : .directory (digits inst) files ∈ entries) {x : FileEntry} (hx : x ∈ files) :
    ∃ key ∈ keys, key.inst = inst ∧ x = ⟨key.fileName, true⟩ := by
  have hmem : appendPath (appendPath dirName (digits inst)) x.name ∈ filePaths dirName entries :=
    List.mem_flatMap.mpr ⟨_, hdir, List.mem_map_of_mem hx⟩
  obtain ⟨key, hkey, hpath⟩ := (hpaths _).mp ((h.mem_filePaths_iff _).mp hmem)
  obtain ⟨rfl, hname⟩ := CacheKey.path_inj hpath.symm
  obtain ⟨name, isRegularFile⟩ := x
  obtain rfl : isRegularFile = true := h.regular _ files hdir _ hx
  obtain rfl : name = key.fileName := hname
  exact ⟨key, hkey, rfl, rfl⟩

theorem mem_keys_iff (h : HoldsFiles dirName paths entries)
    (hpaths : ∀ path, path ∈ paths ↔ ∃ key ∈ keys, key.path dirName = path) (key : CacheKey) :
    (∃ x ∈ entries, key ∈ x.keys) ↔ key ∈ keys := by
  constructor
  · rintro ⟨x, hx, hkey⟩
    obtain ⟨inst, -, files, rfl⟩ := h.directories x hx
    obtain ⟨-, file, hfile, hname⟩ := hkey
    obtain ⟨other, hother, -, rfl⟩ := h.exists_key hpaths hx hfile
    exact CacheKey.fileName_inj hname ▸ hother
  · intro hkey
    have hmem := (h.mem_filePaths_iff _).mpr ((hpaths _).mpr ⟨key, hkey, rfl⟩)
    obtain ⟨x, hx, hpath⟩ := List.mem_flatMap.mp hmem
    obtain ⟨inst, -, files, rfl⟩ := h.directories x hx
    obtain ⟨file, hfile, heq⟩ := List.mem_map.mp hpath
    obtain ⟨hinst, hname⟩ := CacheKey.path_inj heq
    exact ⟨_, hx, congrArg digits hinst.symm, file, hfile, hname⟩

theorem exists_checkEntry (h : HoldsFiles dirName paths entries)
    (hpaths : ∀ path, path ∈ paths ↔ ∃ key ∈ keys, key.path dirName = path)
    (hkeys : ∀ key ∈ keys, key.IsUInt32 ∧ 10000 < key.inst)
    {x : DirectoryEntry} (hx : x ∈ entries) (cache : DataCache) :
    ∃ cache', checkEntry dirName cache x = some cache' ∧
      WritesOn view (CacheKey.path dirName) x.keys cache cache' := by
  obtain ⟨inst, hinst, files, rfl⟩ := h.directories x hx
  rw [checkEntry, lexicalCastUInt32_digits hinst, Option.bind_some]
  split_ifs with hlarge
  · exact exists_checkCacheForInst (fun file hfile =>
      (h.exists_key hpaths hx hfile).imp fun key hkey => ⟨(hkeys key hkey.1).1, hkey.2⟩) cache
  · -- Such a directory has no files.
    refine ⟨cache, rfl, (WritesOn.refl _ _ cache).congr_keys fun key => ?_⟩
    refine iff_of_false id fun ⟨_, file, hfile, _⟩ => hlarge ?_
    obtain ⟨other, hother, rfl, -⟩ := h.exists_key hpaths hx hfile
    exact (hkeys other hother).2

/-- The scan finds the keys of all files, in whatever order they are listed. -/
theorem exists_initDataCache (h : HoldsFiles dirName paths entries)
    (hpaths : ∀ path, path ∈ paths ↔ ∃ key ∈ keys, key.path dirName = path)
    (hkeys : ∀ key ∈ keys, key.IsUInt32 ∧ 10000 < key.inst) :
    ∃ cache, initDataCache dirName (.directory entries) newCache = some cache ∧
      WritesOn view (CacheKey.path dirName) keys newCache cache := by
  obtain ⟨cache, hscan, hwrites⟩ := WritesOn.exists_foldlM
    (fun x hx => h.exists_checkEntry hpaths hkeys hx) { newCache with localCachePath := dirName }
  exact ⟨cache, hscan, hwrites.congr_keys (h.mem_keys_iff hpaths)⟩

end HoldsFiles

end Scan

/-! ### What a cache has written -/

/-- A call for the ticks of one date. -/
structure FetchCall where
  db : Database
  connected : Bool
  date : ℕ
  maxLevels : ℕ
  sqlTable : Str
  instruments : List Str
  date_lt : date < 2 ^ 32
  maxLevels_lt : maxLevels < 2 ^ 32

def fetchStep (cache : DataCache) (call : FetchCall) : Option DataCache :=
  (getDataFromMSSql call.db call.connected call.date call.maxLevels call.sqlTable call.instruments
    cache).map Prod.fst

/-- The cache has been empty, and has written the files of these keys. -/
structure Wrote (dirName : Str) (keys : Set CacheKey) (cache : DataCache) : Prop where
  localCachePath : cache.localCachePath = dirName
  status : WritesOn view (CacheKey.path dirName) keys newCache cache
  files : ∀ path, path ∈ cache.files.map Prod.fst ↔ ∃ key ∈ keys, key.path dirName = path
  isUInt32 : ∀ key ∈ keys, key.IsUInt32

namespace Wrote

variable {dirName : Str} {keys : Set CacheKey} {cache : DataCache}

theorem of_start (dirName : Str) : Wrote dirName ∅ { newCache with localCachePath := dirName } where
  localCachePath := rfl
  status := WritesOn.refl view _ newCache
  files := by simp [newCache]
  isUInt32 := by simp

theorem addCacheFile (h : Wrote dirName keys cache) {key : CacheKey} (hkey : key.IsUInt32)
    (store : MarketDataStore) :
    Wrote dirName (keys ∪ {key}) (cache.addCacheFile key.inst key.date key.maxLevels
      (cache.getInstumentDataPath key.inst key.date key.maxLevels) store) := by
  obtain rfl := h.localCachePath
  have hwrites := writesOn_setCacheStatus cache.localCachePath key cache
  refine ⟨rfl, h.status.trans hwrites, fun path => ?_, ?_⟩
  · rw [DataCache.addCacheFile, List.map_cons, List.mem_cons, h.files]
    constructor
    · rintro (rfl | ⟨other, hother, rfl⟩)
      · exact ⟨key, .inr rfl, rfl⟩
      · exact ⟨other, .inl hother, rfl⟩
    · rintro ⟨other, hother | rfl, rfl⟩
      · exact .inr ⟨other, hother, rfl⟩
      · exact .inl rfl
  · rintro other (hother | rfl)
    · exact h.isUInt32 other hother
    · exact hkey

theorem loadInstruments {db : Database} {connected : Bool} {date max_levels : ℕ} {sqlTable : Str}
    (hdate : date < 2 ^ 32) (hlevels : max_levels < 2 ^ 32) {instruments : List Str}
    (h : Wrote dirName keys cache) {cache' : DataCache} {raised : Bool}
    (hload : TickCache.loadInstruments db connected date max_levels sqlTable instruments cache =
      some (cache', raised)) : ∃ keys', Wrote dirName keys' cache' := by
  induction instruments generalizing keys cache with
  | nil =>
      obtain ⟨rfl, -⟩ := Prod.mk.inj (Option.some.inj hload)
      exact ⟨keys, h⟩
  | cons inst instruments ih =>
      rw [TickCache.loadInstruments] at hload
      split_ifs at hload with hempty
      · split at hload
        next =>
          obtain ⟨rfl, -⟩ := Prod.mk.inj (Option.some.inj hload)
          exact ⟨keys, h⟩
        next rows hrows =>
          obtain ⟨store, -, hload⟩ := Option.bind_eq_some_iff.mp hload
          let key : CacheKey := ⟨getInstrumentIndex inst, date, max_levels⟩
          have hkey : key.IsUInt32 :=
            ⟨CacheProvenance.getInstrumentIndex_lt inst, hdate, hlevels⟩
          exact ih (h.addCacheFile hkey store) hload
      · exact ih h hload

theorem fetchStep {call : FetchCall} {cache' : DataCache} (h : Wrote dirName keys cache)
    (hstep : CacheScan.fetchStep cache call = some cache') :
    ∃ keys', Wrote dirName keys' cache' := by
  obtain ⟨⟨result, connected⟩, hfetch, rfl⟩ := Option.map_eq_some_iff.mp hstep
  obtain ⟨⟨written, raised⟩, hload, heq⟩ := Option.map_eq_some_iff.mp hfetch
  obtain ⟨rfl, -⟩ := Prod.mk.inj heq
  exact h.loadInstruments call.date_lt call.maxLevels_lt hload

end Wrote

/-- A cache that scans the directory of another one answers as that one does, if all files are
those of instruments with an index above 10000. -/
theorem getDataCache_initDataCache {dirName : Str} {status : FileStatus}
    {start cache : DataCache} {calls : List FetchCall} {entries : List DirectoryEntry}
    (hstatus : status = .notFound ∨ status = .directory [])
    (hstart : initDataCache dirName status newCache = some start)
    (hrun : Run fetchStep (fun _ _ => True) start calls cache)
    (hindex : ∀ key : CacheKey, key.path dirName ∈ cache.files.map Prod.fst → 10000 < key.inst)
    (hentries : HoldsFiles dirName (cache.files.map Prod.fst) entries) :
    ∃ fresh, initDataCache dirName (.directory entries) newCache = some fresh ∧
      ∀ inst date maxLevels, fresh.getDataCache inst date maxLevels =
        cache.getDataCache inst date maxLevels := by
  obtain rfl : { newCache with localCachePath := dirName } = start := by
    rcases hstatus with rfl | rfl
    · exact Option.some.inj hstart
    · exact Option.some.inj hstart
  obtain ⟨keys, hwrote⟩ := hrun.invariant (I := fun cache => ∃ keys, Wrote dirName keys cache)
    (fun _ _ _ _ hstep ⟨_, hwrote⟩ => hwrote.fetchStep hstep) ⟨∅, .of_start dirName⟩
  have hkeys : ∀ key ∈ keys, key.IsUInt32 ∧ 10000 < key.inst := fun key hkey =>
    ⟨hwrote.isUInt32 key hkey, hindex key ((hwrote.files _).mpr ⟨key, hkey, rfl⟩)⟩
  obtain ⟨fresh, hscan, hwrites⟩ := hentries.exists_initDataCache hwrote.files hkeys
  refine ⟨fresh, hscan, fun inst date maxLevels => ?_⟩
  exact hwrites.view_eq hwrote.status (fun _ => rfl) ⟨inst, date, maxLevels⟩

def listedCall : FetchCall :=
  ⟨CacheProvenance.emptyDatabase, true, 20140103, 5, ['t'], [['a']], by decide, by decide⟩

def listedKey : CacheKey := ⟨10200000, 20140103, 5⟩

def listedEntries : List DirectoryEntry :=
  [.directory (digits 5200000) [], .directory (digits 10200000) [⟨listedKey.fileName, true⟩]]

theorem getDataCache_initDataCache_listed :
    ∃ cache fresh,
      Run fetchStep (fun _ _ => True) ⟨OrderedMap.empty, ['c'], []⟩ [listedCall] cache ∧
      initDataCache ['c'] (.directory listedEntries) newCache = some fresh ∧
      cache.getDataCache 10200000 20140103 5 ≠ [] ∧
      ∀ inst date maxLevels, fresh.getDataCache inst date maxLevels =
        cache.getDataCache inst date maxLevels := by
  have hwritten : (Run.execute fetchStep (fun _ _ => True) ⟨OrderedMap.empty, ['c'], []⟩
      [listedCall]).map
        (fun cache => (cache.files.map Prod.fst, cache.getDataCache 10200000 20140103 5)) =
      some ([listedKey.path ['c']], listedKey.path ['c']) := by decide +kernel
  obtain ⟨cache, hrun, hresult⟩ := Run.exists_of_execute_map hwritten
  obtain ⟨hfiles, hcached⟩ := Prod.mk.inj hresult
  have hindex : ∀ key : CacheKey, key.path ['c'] ∈ cache.files.map Prod.fst → 10000 < key.inst := by
    intro key hkey
    rw [hfiles, List.mem_singleton] at hkey
    rw [← (CacheKey.path_inj hkey.symm).1]
    decide
  have hentries : HoldsFiles ['c'] (cache.files.map Prod.fst) listedEntries := by
    rw [hfiles]
    constructor
    case directories =>
      rintro x (_ | ⟨_, _ | ⟨_, ⟨⟩⟩⟩)
      · exact ⟨5200000, by decide, _, rfl⟩
      · exact ⟨10200000, by decide, _, rfl⟩
    case regular =>
      rintro name files (_ | ⟨_, _ | ⟨_, ⟨⟩⟩⟩) x hx
      · cases hx
      · obtain rfl := List.mem_singleton.mp hx
        rfl
    case mem_filePaths_iff =>
      intro path
      exact Iff.rfl
  obtain ⟨fresh, hscan, hsame⟩ := getDataCache_initDataCache (.inl rfl) rfl hrun hindex hentries
  exact ⟨cache, fresh, hrun, hscan, by rw [hcached]; decide, hsame⟩

end BluesTrading.CacheScan
