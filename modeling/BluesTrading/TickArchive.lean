import BluesTrading.Foundations.TokenCodec
import BluesTrading.OrderData
import BluesTrading.SourceText

/-!
The files of ticks.  A file holds the archive of one store.  The first version of
the format holds the ticks as one vector; a store that is read from such a file is
written back in the current version.
-/

namespace BluesTrading.TickArchive

open Foundations
open OrderData
open SourceText

/-! ### Archives -/

inductive Token
  | classVersion (version : ℕ)
  | itemVersion (version : ℕ)
  | collectionSize (n : ℕ)
  | size (n : ℕ)
  | uint32 (n : ℕ)
  | uint16 (n : ℕ)
  | double (x : ℚ)
  deriving DecidableEq

abbrev Archive := List Token

def uint32 : TokenCodec Token ℕ :=
  .ofToken .uint32 (fun | .uint32 n => some n | _ => none) fun _ => rfl

def uint16 : TokenCodec Token ℕ :=
  .ofToken .uint16 (fun | .uint16 n => some n | _ => none) fun _ => rfl

def double : TokenCodec Token ℚ :=
  .ofToken .double (fun | .double x => some x | _ => none) fun _ => rfl

def size : TokenCodec Token ℕ :=
  .ofToken .size (fun | .size n => some n | _ => none) fun _ => rfl

/-- A vector has the version of its items after their number. -/
def collectionSize : TokenCodec Token ℕ :=
  ((TokenCodec.ofToken .collectionSize (fun | .collectionSize n => some n | _ => none)
      fun _ => rfl).prod
    (.ofToken .itemVersion (fun | .itemVersion n => some n | _ => none) fun _ => rfl)).imap
      Prod.fst (fun n => (n, 0)) fun _ => rfl

def vector {α : Type} (serialize : TokenCodec Token α) : TokenCodec Token (List α) :=
  .counted collectionSize serialize

def Depth.serialize : TokenCodec Token Depth :=
  (double.prod uint32).imap (fun (price, size) => ⟨price, size⟩)
    (fun depth => (depth.price, depth.size)) fun _ => rfl

def CTickData.serialize : TokenCodec Token CTickData :=
  (uint32.prod <| uint32.prod <| uint32.prod <| uint32.prod <| double.prod <| double.prod <|
    uint16.prod <| uint16.prod <| vector Depth.serialize).imap
      (fun (instIndex, timeInMS, totVol, openinterest, lastPrice, turnover, bidLevels, askLevels,
          depths) =>
        ⟨instIndex, timeInMS, totVol, openinterest, lastPrice, turnover, bidLevels, askLevels,
          depths⟩)
      (fun tick => (tick.instIndex, tick.timeInMS, tick.totVol, tick.openinterest,
        tick.lastPrice, tick.turnover, tick.bidLevels, tick.askLevels, tick.depths))
      fun _ => rfl

/-! ### Stores -/

/-- The ticks are behind pointers, which may be null. -/
structure MarketDataStore where
  instIndex : ℕ
  date : ℕ
  maxLevels : ℕ
  tickDataVec : List (Option CTickData)
  isNeedUpdateStore : Bool
  deriving DecidableEq

def header : TokenCodec Token (ℕ × ℕ × ℕ) := uint32.prod (uint32.prod uint32)

namespace MarketDataStore

/-- There is no archive when a null pointer is dereferenced. -/
def save (store : MarketDataStore) : Option Archive :=
  (store.tickDataVec.mapM id).map fun ticks =>
    header.encode (store.instIndex, store.date, store.maxLevels) ++
      size.encode store.tickDataVec.length ++ ticks.flatMap CTickData.serialize.encode

/-- The loop over the ticks from `i` on.  The counter is an `int`; it has no defined
value after its largest one. -/
def loadTicks (ticksize i : ℕ) (store : MarketDataStore) (ar : Archive) :
    Option (MarketDataStore × Archive) :=
  if i = ticksize then some (store, ar)
  else
    (CTickData.serialize.decode ar).bind fun (tick, ar) =>
      if i + 1 < 2 ^ 31 then
        loadTicks ticksize (i + 1)
          { store with tickDataVec := store.tickDataVec ++ [some tick] } ar
      else none
  termination_by 2 ^ 31 - i

def load (version : ℕ) (store : MarketDataStore) (ar : Archive) :
    Option (MarketDataStore × Archive) :=
  match version with
  | 0 =>
      (header.decode ar).bind fun ((instIndex, date, maxLevels), ar) =>
        ((vector CTickData.serialize).decode ar).map fun (oldVector, ar) =>
          (⟨instIndex, date, maxLevels, store.tickDataVec ++ oldVector.map some, true⟩, ar)
  | 1 =>
      (header.decode ar).bind fun ((instIndex, date, maxLevels), ar) =>
        (size.decode ar).bind fun (ticksize, ar) =>
          loadTicks ticksize 0 ⟨instIndex, date, maxLevels, store.tickDataVec,
            store.isNeedUpdateStore⟩ ar
  | _ => some (store, ar)

def classVersion : ℕ := 1

def toArchive (store : MarketDataStore) : Option Archive :=
  store.save.map (.classVersion classVersion :: ·)

/-- A version that is not known yet raises an exception. -/
def fromArchive (store : MarketDataStore) : Archive → Option MarketDataStore
  | .classVersion version :: ar =>
      if version ≤ classVersion then (load version store ar).map Prod.fst else none
  | _ => none

end MarketDataStore

/-! ### Files -/

abbrev Files := Str → Option Archive

section Construct

-- The reader of raw files, whatever it does.
variable (loadFromRawFile : Str → MarketDataStore → Option MarketDataStore)

/-- The last three characters.  In a shorter name their position wraps round, which
raises an exception. -/
def nameEnd (fileName : Str) : Option Str :=
  if fileName.length < 3 then none else some (fileName.drop (fileName.length - 3))

def loadFromBinFile (files : Files) (filename : Str) (store : MarketDataStore) :
    Option MarketDataStore :=
  (files filename).bind store.fromArchive

def saveToBinFile (files : Files) (filename : Str) (store : MarketDataStore) : Option Files :=
  store.toArchive.map fun ar => Function.update files filename (some ar)

def loadDataFromFile (files : Files) (fileName : Str) (store : MarketDataStore) :
    Option MarketDataStore :=
  (nameEnd fileName).bind fun suffix =>
    if suffix = ['c', 's', 'v'] then loadFromRawFile fileName store
    else loadFromBinFile files fileName store

/-- The construction of a store in memory that may hold anything. -/
def construct (files : Files) (filename : Str) (memory : MarketDataStore) :
    Option (MarketDataStore × Files) :=
  (loadDataFromFile loadFromRawFile files filename
      { memory with tickDataVec := [], isNeedUpdateStore := false }).bind fun store =>
    if store.isNeedUpdateStore then
      (saveToBinFile files filename store).map fun files => (store, files)
    else some (store, files)

end Construct

/-! ### What is read back -/

namespace MarketDataStore

theorem loadTicks_encode {ticksize i : ℕ} (hi : i < 2 ^ 31) (ticks : List CTickData)
    (hticksize : i + ticks.length = ticksize) (store : MarketDataStore) (rest : Archive) :
    loadTicks ticksize i store (ticks.flatMap CTickData.serialize.encode ++ rest) =
      if ticksize < 2 ^ 31 then
        some ({ store with tickDataVec := store.tickDataVec ++ ticks.map some }, rest)
      else none := by
  induction ticks generalizing i store with
  | nil =>
      obtain rfl : i = ticksize := hticksize
      rw [loadTicks, if_pos rfl, if_pos hi]
      simp
  | cons tick ticks ih =>
      rw [List.length_cons] at hticksize
      have hne : i ≠ ticksize := by omega
      rw [loadTicks, if_neg hne, List.flatMap_cons, List.append_assoc,
        TokenCodec.decode_encode, Option.bind_some]
      dsimp only
      by_cases hnext : i + 1 < 2 ^ 31
      · rw [if_pos hnext, ih hnext (by omega)]
        simp
      · have hlarge : ¬ ticksize < 2 ^ 31 := by omega
        rw [if_neg hnext, if_neg hlarge]

theorem mapM_id_map_some {α : Type} (as : List α) : (as.map some).mapM id = some as := by
  induction as with
  | nil => rfl
  | cons a as ih => rw [List.map_cons, List.mapM_cons, ih]; rfl

variable {store : MarketDataStore} {ticks : List CTickData}

theorem exists_ticks (hstore : ∀ tick ∈ store.tickDataVec, tick.isSome) :
    ∃ ticks : List CTickData, ticks.map some = store.tickDataVec :=
  ⟨store.tickDataVec.pmap Option.get hstore, by simp [List.map_pmap]⟩

theorem toArchive_eq (hticks : ticks.map some = store.tickDataVec) :
    store.toArchive = some (.classVersion classVersion ::
      (header.encode (store.instIndex, store.date, store.maxLevels) ++
        (size.encode ticks.length ++ (ticks.flatMap CTickData.serialize.encode ++ [])))) := by
  rw [toArchive, save, ← hticks, mapM_id_map_some, Option.map_some, Option.map_some,
    List.length_map, List.append_nil, List.append_assoc]

theorem load_classVersion (store : MarketDataStore) (ar : Archive) :
    load classVersion store ar =
      (header.decode ar).bind fun ((instIndex, date, maxLevels), ar) =>
        (size.decode ar).bind fun (ticksize, ar) =>
          loadTicks ticksize 0 ⟨instIndex, date, maxLevels, store.tickDataVec,
            store.isNeedUpdateStore⟩ ar :=
  rfl

/-- A store that is saved is read back, unless its ticks are too many for an `int`. -/
theorem fromArchive_toArchive (hticks : ticks.map some = store.tickDataVec)
    {empty : MarketDataStore} (hempty : empty.tickDataVec = []) :
    (store.toArchive.bind empty.fromArchive) =
      if ticks.length < 2 ^ 31 then
        some { store with isNeedUpdateStore := empty.isNeedUpdateStore }
      else none := by
  have hzero : 0 < 2 ^ 31 := Nat.two_pow_pos 31
  rw [toArchive_eq hticks, Option.bind_some, fromArchive, if_pos le_rfl, load_classVersion,
    TokenCodec.decode_encode, Option.bind_some]
  dsimp only
  rw [TokenCodec.decode_encode, Option.bind_some]
  dsimp only
  rw [loadTicks_encode hzero ticks (Nat.zero_add _), hempty, List.nil_append, hticks,
    apply_ite (Option.map Prod.fst), Option.map_some, Option.map_none]

end MarketDataStore

/-! ### The archives of the first version -/

/-- The header and then the ticks as a vector. -/
def archiveOfVersionZero (instIndex date maxLevels : ℕ) (ticks : List CTickData) : Archive :=
  .classVersion 0 :: (header.encode (instIndex, date, maxLevels) ++
    ((vector CTickData.serialize).encode ticks ++ []))

theorem fromArchive_archiveOfVersionZero (store : MarketDataStore) (instIndex date maxLevels : ℕ)
    (ticks : List CTickData) :
    store.fromArchive (archiveOfVersionZero instIndex date maxLevels ticks) =
      some ⟨instIndex, date, maxLevels, store.tickDataVec ++ ticks.map some, true⟩ := by
  rw [archiveOfVersionZero, MarketDataStore.fromArchive, if_pos (Nat.zero_le _),
    MarketDataStore.load, TokenCodec.decode_encode, Option.bind_some]
  dsimp only
  rw [TokenCodec.decode_encode, Option.map_some, Option.map_some]

/-! ### Construction from a file -/

theorem exists_nameEnd {filename : Str} (hcsv : ¬ ['c', 's', 'v'] <:+ filename)
    (hlength : 3 ≤ filename.length) :
    ∃ suffix, nameEnd filename = some suffix ∧ suffix ≠ ['c', 's', 'v'] := by
  refine ⟨_, if_neg (not_lt.mpr hlength), fun heq => hcsv ?_⟩
  rw [← heq]
  exact List.drop_suffix _ _

section Migration

variable (loadFromRawFile : Str → MarketDataStore → Option MarketDataStore) {files : Files}
  {filename : Str}

theorem loadDataFromFile_eq (hcsv : ¬ ['c', 's', 'v'] <:+ filename) (store : MarketDataStore) :
    loadDataFromFile loadFromRawFile files filename store =
      if 3 ≤ filename.length then (files filename).bind store.fromArchive else none := by
  unfold loadDataFromFile
  by_cases hlength : 3 ≤ filename.length
  · obtain ⟨suffix, hsuffix, hne⟩ := exists_nameEnd hcsv hlength
    rw [hsuffix, Option.bind_some, if_neg hne, if_pos hlength, loadFromBinFile]
  · have hnone : nameEnd filename = none := if_pos (not_le.mp hlength)
    rw [hnone, if_neg hlength, Option.bind_none]

theorem construct_eq_none (hcsv : ¬ ['c', 's', 'v'] <:+ filename)
    (hlength : ¬ 3 ≤ filename.length) (memory : MarketDataStore) :
    construct loadFromRawFile files filename memory = none := by
  rw [construct, loadDataFromFile_eq loadFromRawFile hcsv, if_neg hlength, Option.bind_none]

variable {instIndex date maxLevels : ℕ} {ticks : List CTickData}

theorem construct_versionZero (hcsv : ¬ ['c', 's', 'v'] <:+ filename)
    (hlength : 3 ≤ filename.length)
    (hfile : files filename = some (archiveOfVersionZero instIndex date maxLevels ticks))
    (memory : MarketDataStore) :
    ∃ ar, (⟨instIndex, date, maxLevels, ticks.map some, true⟩ : MarketDataStore).toArchive =
        some ar ∧
      construct loadFromRawFile files filename memory =
        some (⟨instIndex, date, maxLevels, ticks.map some, true⟩,
          Function.update files filename (some ar)) := by
  have hticks : ticks.map some =
      (⟨instIndex, date, maxLevels, ticks.map some, true⟩ : MarketDataStore).tickDataVec := rfl
  refine ⟨_, MarketDataStore.toArchive_eq hticks, ?_⟩
  rw [construct, loadDataFromFile_eq loadFromRawFile hcsv, if_pos hlength, hfile, Option.bind_some,
    fromArchive_archiveOfVersionZero, Option.bind_some, List.nil_append, if_pos rfl,
    saveToBinFile, MarketDataStore.toArchive_eq hticks, Option.map_some, Option.map_some]

theorem construct_saved (hcsv : ¬ ['c', 's', 'v'] <:+ filename) (hlength : 3 ≤ filename.length)
    {store : MarketDataStore} (hticks : ticks.map some = store.tickDataVec)
    (hfile : files filename = store.toArchive) (memory : MarketDataStore) :
    construct loadFromRawFile files filename memory =
      if ticks.length < 2 ^ 31 then some ({ store with isNeedUpdateStore := false }, files)
      else none := by
  rw [construct, loadDataFromFile_eq loadFromRawFile hcsv, if_pos hlength, hfile,
    MarketDataStore.fromArchive_toArchive hticks rfl]
  by_cases hcount : ticks.length < 2 ^ 31
  · rw [if_pos hcount, if_pos hcount]
    rfl
  · rw [if_neg hcount, if_neg hcount, Option.bind_none]

/-! ### Round trip and migration -/

/-- What `save` writes is read back into an empty store. -/
def Reloads (store empty : MarketDataStore) : Prop :=
  ∃ ar, store.toArchive = some ar ∧
    empty.fromArchive ar = some { store with isNeedUpdateStore := empty.isNeedUpdateStore }

/-- A file of the first version is read, and rewritten so that it is read again with the
same result and without another change. -/
def Migrates (files : Files) (filename : Str) (instIndex date maxLevels : ℕ)
    (ticks : List CTickData) : Prop :=
  ∀ memory memory', ∃ store files',
    construct loadFromRawFile files filename memory = some (store, files') ∧
      store.instIndex = instIndex ∧ store.date = date ∧ store.maxLevels = maxLevels ∧
      store.tickDataVec = ticks.map some ∧
      files' filename ≠ files filename ∧
      (∀ other, other ≠ filename → files' other = files other) ∧
      construct loadFromRawFile files' filename memory' =
        some ({ store with isNeedUpdateStore := false }, files')

def emptyStore : MarketDataStore := ⟨0, 0, 0, [], false⟩

theorem reloads_iff {store empty : MarketDataStore}
    (hstore : ∀ tick ∈ store.tickDataVec, tick.isSome) (hempty : empty.tickDataVec = []) :
    Reloads store empty ↔ store.tickDataVec.length < 2 ^ 31 := by
  obtain ⟨ticks, hticks⟩ := MarketDataStore.exists_ticks hstore
  have hread := MarketDataStore.fromArchive_toArchive hticks hempty
  have hlength : store.tickDataVec.length = ticks.length := by rw [← hticks, List.length_map]
  have hsaved : Reloads store empty ↔
      (store.toArchive.bind empty.fromArchive) =
        some { store with isNeedUpdateStore := empty.isNeedUpdateStore } :=
    Option.bind_eq_some_iff.symm
  rw [hsaved, hread, hlength]
  by_cases hcount : ticks.length < 2 ^ 31
  · rw [if_pos hcount]
    exact iff_of_true rfl hcount
  · rw [if_neg hcount]
    exact iff_of_false (by simp) hcount

theorem construct_twice (hcsv : ¬ ['c', 's', 'v'] <:+ filename) (hlength : 3 ≤ filename.length)
    (hfile : files filename = some (archiveOfVersionZero instIndex date maxLevels ticks))
    (memory memory' : MarketDataStore) :
    ∃ files', construct loadFromRawFile files filename memory =
        some (⟨instIndex, date, maxLevels, ticks.map some, true⟩, files') ∧
      files' filename ≠ files filename ∧
      (∀ other, other ≠ filename → files' other = files other) ∧
      construct loadFromRawFile files' filename memory' =
        if ticks.length < 2 ^ 31 then
          some (⟨instIndex, date, maxLevels, ticks.map some, false⟩, files')
        else none := by
  obtain ⟨ar, har, hfirst⟩ :=
    construct_versionZero loadFromRawFile hcsv hlength hfile memory
  have hfile' : Function.update files filename (some ar) filename =
      (⟨instIndex, date, maxLevels, ticks.map some, true⟩ : MarketDataStore).toArchive := by
    rw [har, Function.update_self]
  refine ⟨_, hfirst, ?_, fun other hother => Function.update_of_ne hother _ _,
    construct_saved loadFromRawFile hcsv hlength rfl hfile' memory'⟩
  rw [hfile', hfile, MarketDataStore.toArchive_eq rfl, archiveOfVersionZero]
  simp [MarketDataStore.classVersion]

theorem migrates_iff (hcsv : ¬ ['c', 's', 'v'] <:+ filename)
    (hfile : files filename = some (archiveOfVersionZero instIndex date maxLevels ticks)) :
    Migrates loadFromRawFile files filename instIndex date maxLevels ticks ↔
      3 ≤ filename.length ∧ ticks.length < 2 ^ 31 := by
  constructor
  · intro h
    obtain ⟨store, files', hconstruct, -, -, -, -, -, -, hagain⟩ := h emptyStore emptyStore
    have hlength : 3 ≤ filename.length := by
      by_contra hshort
      rw [construct_eq_none loadFromRawFile hcsv hshort] at hconstruct
      cases hconstruct
    refine ⟨hlength, ?_⟩
    obtain ⟨files'', hfirst, -, -, hsecond⟩ :=
      construct_twice loadFromRawFile hcsv hlength hfile emptyStore emptyStore
    obtain ⟨-, rfl⟩ := Prod.mk.inj (Option.some.inj (hconstruct.symm.trans hfirst))
    by_contra hcount
    rw [hsecond, if_neg hcount] at hagain
    cases hagain
  · rintro ⟨hlength, hcount⟩ memory memory'
    obtain ⟨files', hfirst, hrewritten, hothers, hsecond⟩ :=
      construct_twice loadFromRawFile hcsv hlength hfile memory memory'
    exact ⟨_, files', hfirst, rfl, rfl, rfl, rfl, hrewritten, hothers,
      hsecond.trans (if_pos hcount)⟩

/-- A saved store is read back if and only if an `int` can count its ticks; a file of the
first version is migrated if and only if, besides, its name has three characters. -/
theorem reloads_and_migrates_iff {store empty : MarketDataStore}
    (hstore : ∀ tick ∈ store.tickDataVec, tick.isSome) (hempty : empty.tickDataVec = [])
    (hcsv : ¬ ['c', 's', 'v'] <:+ filename)
    (hfile : files filename = some (archiveOfVersionZero instIndex date maxLevels ticks)) :
    (Reloads store empty ↔ store.tickDataVec.length < 2 ^ 31) ∧
      (Migrates loadFromRawFile files filename instIndex date maxLevels ticks ↔
        3 ≤ filename.length ∧ ticks.length < 2 ^ 31) :=
  ⟨reloads_iff hstore hempty, migrates_iff loadFromRawFile hcsv hfile⟩

end Migration

/-- A tick before there are quotes, one with a bid and an ask, and one with two of each. -/
def openingTicks : List CTickData :=
  [{ instIndex := 7, timeInMS := 34200000 },
    { instIndex := 7, timeInMS := 34200500, totVol := 100, openinterest := 40, lastPrice := 12,
      turnover := 1200, bidLevels := 1, askLevels := 1, depths := [⟨12, 3⟩, ⟨13, 5⟩] },
    { instIndex := 7, timeInMS := 34201000, totVol := 120, openinterest := 44, lastPrice := 25 / 2,
      turnover := 1450, bidLevels := 2, askLevels := 2,
      depths := [⟨12, 3⟩, ⟨23 / 2, 8⟩, ⟨13, 1⟩, ⟨27 / 2, 6⟩] }]

def openingStore : MarketDataStore := ⟨7, 20140102, 2, openingTicks.map some, true⟩

def oldFile (filename : Str) : Files :=
  Function.update (fun _ => none) filename (some (archiveOfVersionZero 7 20140102 2 openingTicks))

theorem oldFile_self (filename : Str) :
    oldFile filename filename = some (archiveOfVersionZero 7 20140102 2 openingTicks) :=
  Function.update_self _ _ _

theorem reloads_and_migrates_opening :
    Reloads openingStore emptyStore ∧
      Migrates (fun _ store => some store) (oldFile ['7', '.', 'b', 'i', 'n'])
        ['7', '.', 'b', 'i', 'n'] 7 20140102 2 openingTicks := by
  have hstore : ∀ tick ∈ openingStore.tickDataVec, tick.isSome := by
    simp [openingStore, openingTicks]
  have hempty : emptyStore.tickDataVec = [] := rfl
  have hcsv : ¬ ['c', 's', 'v'] <:+ ['7', '.', 'b', 'i', 'n'] := by decide
  obtain ⟨hreloads, hmigrates⟩ := reloads_and_migrates_iff (fun _ store => some store)
    hstore hempty hcsv (oldFile_self ['7', '.', 'b', 'i', 'n'])
  exact ⟨hreloads.mpr (by simp [openingStore, openingTicks]),
    hmigrates.mpr (by simp [openingTicks])⟩

/-- A file name of two characters raises an exception. -/
theorem not_migrates_shortName :
    ¬ ['c', 's', 'v'] <:+ ['d', '1'] ∧
      (∀ memory, construct (fun _ store => some store) (oldFile ['d', '1']) ['d', '1'] memory =
        none) ∧
      ¬ Migrates (fun _ store => some store) (oldFile ['d', '1']) ['d', '1'] 7 20140102 2
        openingTicks := by
  have hnone : ∀ memory,
      construct (fun _ store => some store) (oldFile ['d', '1']) ['d', '1'] memory = none :=
    fun _ => rfl
  refine ⟨by decide, hnone, fun h => ?_⟩
  obtain ⟨store, files', hconstruct, -⟩ := h emptyStore emptyStore
  rw [hnone] at hconstruct
  cases hconstruct

end BluesTrading.TickArchive
