import BluesTrading.MarketDataReplayer

namespace BluesTrading.TickQuery

open OrderData
open MarketDataReplayer

structure OtlDatetime where
  hour : ℕ
  minute : ℕ
  second : ℕ
  fraction : ℕ
  hour_lt : hour < 24
  minute_lt : minute < 60
  second_lt : second < 60
  fraction_lt : fraction < 1000
  deriving DecidableEq

/-- A row of the result, with as many levels on each side as the query selects. -/
structure Row (maxLevels : ℕ) where
  fulltime : OtlDatetime
  totVol : ℕ
  openinterest : ℕ
  lastPrice : ℚ
  turnover : ℚ
  bids : List Depth
  asks : List Depth
  bids_length : bids.length = maxLevels
  asks_length : asks.length = maxLevels
  deriving DecidableEq

/-- The tick objects by address, the object that `tick` refers to, the owning pointer
`tick_p` and the pointers in the store.  A null pointer is `none`. -/
structure Loader where
  ticks : List CTickData
  tick : ℕ
  tickP : Option ℕ
  tickDataVec : List (Option ℕ)
  deriving DecidableEq

def pushDepths (tick : CTickData) : List Depth → ℕ → CTickData × ℕ
  | [], valid => (tick, valid)
  | depth :: rest, valid =>
      if depth.size > 0 then
        pushDepths { tick with depths := tick.depths ++ [depth] } rest (valid + 1)
      else pushDepths tick rest valid

def readRow {maxLevels : ℕ} (row : Row maxLevels) (tick : CTickData) : CTickData :=
  let fulltime := row.fulltime
  let tick := { tick with
    depths := []
    totVol := row.totVol
    openinterest := row.openinterest
    lastPrice := row.lastPrice
    turnover := row.turnover
    timeInMS := (fulltime.hour * 3600 * 1000 + fulltime.minute * 60 * 1000 +
      fulltime.second * 1000 + fulltime.fraction) % 2 ^ 32 }
  let (tick, valid_biddepth) := pushDepths tick row.bids 0
  let tick := { tick with bidLevels := valid_biddepth % 2 ^ 16 }
  let (tick, valid_askdepth) := pushDepths tick row.asks 0
  { tick with askLevels := valid_askdepth % 2 ^ 16 }

namespace Loader

variable {maxLevels : ℕ}

/-- The state before the loop: one object, owned by `tick_p`. -/
def create (inst_index : ℕ) : Loader := ⟨[{ instIndex := inst_index }], 0, some 0, []⟩

/-- One turn of the loop.  Moving from `tick_p` leaves it null. -/
def readNext (loader : Loader) (row : Row maxLevels) : Loader :=
  { loader with
    ticks := loader.ticks.modify loader.tick (readRow row)
    tickP := none
    tickDataVec := loader.tickDataVec ++ [loader.tickP] }

def readRows (inst_index : ℕ) (rows : List (Row maxLevels)) : Loader :=
  rows.foldl readNext (create inst_index)

def deref (loader : Loader) (p : Option ℕ) : Option CTickData :=
  p.bind fun address => loader.ticks[address]?

/-- Sort the pointers by the times of their ticks.  With two pointers or more each of
them is compared, and so dereferenced. -/
def sort (loader : Loader) : Option Loader :=
  if loader.tickDataVec.length < 2 then some loader
  else do
    let times ← loader.tickDataVec.mapM fun p =>
      (loader.deref p).map fun tick => (tick.timeInMS, p)
    let sorted := times.mergeSort fun lr rr => decide (lr.1 ≤ rr.1)
    return { loader with tickDataVec := sorted.map Prod.snd }

def saveToBinFile (loader : Loader) (instIndex date maxLevels : ℕ) : Option MarketDataStore :=
  (loader.tickDataVec.mapM loader.deref).map fun ticks => ⟨instIndex, date, maxLevels, ticks⟩

end Loader

/-- Read the rows of a query, sort their ticks and write them to a file.  The result is the
file, or nothing if a null pointer is dereferenced. -/
def storeRows {maxLevels : ℕ} (inst_index date : ℕ) (rows : List (Row maxLevels)) :
    Option MarketDataStore :=
  (Loader.readRows inst_index rows).sort.bind fun loader =>
    loader.saveToBinFile inst_index date maxLevels

def rowTick {maxLevels : ℕ} (inst_index : ℕ) (row : Row maxLevels) : CTickData :=
  let bids := row.bids.filter fun depth => 0 < depth.size
  let asks := row.asks.filter fun depth => 0 < depth.size
  { instIndex := inst_index
    timeInMS := row.fulltime.hour * 3600 * 1000 + row.fulltime.minute * 60 * 1000 +
      row.fulltime.second * 1000 + row.fulltime.fraction
    totVol := row.totVol
    openinterest := row.openinterest
    lastPrice := row.lastPrice
    turnover := row.turnover
    bidLevels := bids.length
    askLevels := asks.length
    depths := bids ++ asks }

/-- The loop leaves one owned tick for each row, in row order, and the file that is then
written holds every row. -/
structure LoadsRows {maxLevels : ℕ} (inst_index date : ℕ) (rows : List (Row maxLevels)) :
    Prop where
  owned : ∃ addresses : List ℕ, addresses.Nodup ∧
    (Loader.readRows inst_index rows).tickDataVec = addresses.map some ∧
    addresses.map (fun address => (Loader.readRows inst_index rows).ticks[address]?) =
      rows.map fun row => some (rowTick inst_index row)
  saved : ∃ store, storeRows inst_index date rows = some store ∧
    store.tickDataVec.Perm (rows.map (rowTick inst_index))

section ReadRow

variable {maxLevels : ℕ}

theorem pushDepths_eq (tick : CTickData) (side : List Depth) (valid : ℕ) :
    pushDepths tick side valid =
      ({ tick with depths := tick.depths ++ side.filter fun depth => 0 < depth.size },
        valid + (side.filter fun depth => 0 < depth.size).length) := by
  induction side generalizing tick valid with
  | nil => simp [pushDepths]
  | cons depth rest ih =>
      rw [pushDepths]
      by_cases hsize : 0 < depth.size
      · rw [if_pos hsize, ih, List.filter_cons_of_pos (by simpa using hsize)]
        simp only [List.append_assoc, List.singleton_append, List.length_cons, Nat.add_assoc,
          Nat.add_comm 1]
      · rw [if_neg hsize, ih, List.filter_cons_of_neg (by simpa using hsize)]

theorem timeInMS_lt (fulltime : OtlDatetime) :
    fulltime.hour * 3600 * 1000 + fulltime.minute * 60 * 1000 + fulltime.second * 1000 +
      fulltime.fraction < 2 ^ 32 := by
  have hhour := fulltime.hour_lt
  have hminute := fulltime.minute_lt
  have hsecond := fulltime.second_lt
  have hfraction := fulltime.fraction_lt
  omega

theorem readRow_eq (hlevels : maxLevels < 2 ^ 16) (row : Row maxLevels) (tick : CTickData) :
    readRow row tick = rowTick tick.instIndex row := by
  have hbids : (row.bids.filter fun depth => 0 < depth.size).length < 2 ^ 16 := by
    have hle := List.length_filter_le (fun depth : Depth => decide (0 < depth.size)) row.bids
    rw [row.bids_length] at hle
    exact hle.trans_lt hlevels
  have hasks : (row.asks.filter fun depth => 0 < depth.size).length < 2 ^ 16 := by
    have hle := List.length_filter_le (fun depth : Depth => decide (0 < depth.size)) row.asks
    rw [row.asks_length] at hle
    exact hle.trans_lt hlevels
  simp only [readRow, rowTick, pushDepths_eq, Nat.zero_add, List.nil_append,
    Nat.mod_eq_of_lt hbids, Nat.mod_eq_of_lt hasks, Nat.mod_eq_of_lt (timeInMS_lt row.fulltime)]

end ReadRow

namespace Loader

variable {maxLevels : ℕ}

theorem tickDataVec_foldl_readNext (rows : List (Row maxLevels)) (loader : Loader)
    (hnull : loader.tickP = none) :
    (rows.foldl readNext loader).tickDataVec =
      loader.tickDataVec ++ List.replicate rows.length none := by
  induction rows generalizing loader with
  | nil => simp
  | cons row rest ih =>
      rw [List.foldl_cons, ih _ rfl, readNext, hnull, List.append_assoc, List.length_cons,
        List.replicate_succ, List.singleton_append]

theorem tickDataVec_readRows_cons (inst_index : ℕ) (row : Row maxLevels)
    (rest : List (Row maxLevels)) :
    (readRows inst_index (row :: rest)).tickDataVec =
      some 0 :: List.replicate rest.length none := by
  rw [readRows, List.foldl_cons, tickDataVec_foldl_readNext _ _ rfl]
  rfl

end Loader

theorem mapM_eq_none {α β : Type} {f : α → Option β} {l : List α} {a : α} (ha : a ∈ l)
    (hf : f a = none) : l.mapM f = none := by
  induction l with
  | nil => cases ha
  | cons b l ih =>
      rw [List.mapM_cons]
      rcases List.mem_cons.mp ha with rfl | ha
      · rw [hf]
        rfl
      · rw [ih ha]
        cases f b <;> rfl

theorem storeRows_eq_none {maxLevels : ℕ} (inst_index date : ℕ) {rows : List (Row maxLevels)}
    (h : 2 ≤ rows.length) : storeRows inst_index date rows = none := by
  match rows, h with
  | row :: row' :: rest, _ =>
      have hvec := Loader.tickDataVec_readRows_cons inst_index row (row' :: rest)
      have hnull : none ∈ (Loader.readRows inst_index (row :: row' :: rest)).tickDataVec := by
        rw [hvec]
        simp
      have hlong : ¬ (Loader.readRows inst_index (row :: row' :: rest)).tickDataVec.length < 2 := by
        rw [hvec]
        simp
      rw [storeRows, Loader.sort, if_neg hlong, mapM_eq_none hnull rfl]
      rfl

theorem isSome_storeRows_iff {maxLevels : ℕ} (inst_index date : ℕ) (rows : List (Row maxLevels)) :
    (storeRows inst_index date rows).isSome ↔ rows.length ≤ 1 := by
  constructor
  · intro h
    by_contra hlength
    rw [storeRows_eq_none inst_index date (by omega)] at h
    cases h
  · intro hlength
    match rows, hlength with
    | [], _ => rfl
    | [row], _ => rfl

/-- The rows are all loaded if and only if there is at most one of them. -/
theorem loadsRows_iff {maxLevels : ℕ} (hlevels : maxLevels ∈ [1, 5, 10, 20])
    (inst_index date : ℕ) (rows : List (Row maxLevels)) :
    LoadsRows inst_index date rows ↔ rows.length ≤ 1 := by
  have hsmall : maxLevels < 2 ^ 16 := by
    simp only [List.mem_cons, List.not_mem_nil, or_false] at hlevels
    omega
  constructor
  · intro h
    obtain ⟨store, hstore, -⟩ := h.saved
    exact (isSome_storeRows_iff inst_index date rows).mp (Option.isSome_of_eq_some hstore)
  · intro hlength
    match rows, hlength with
    | [], _ => exact ⟨⟨[], List.nodup_nil, rfl, rfl⟩, ⟨_, rfl, List.Perm.refl _⟩⟩
    | [row], _ =>
        have hread : Loader.readRows inst_index [row] =
            ⟨[rowTick inst_index row], 0, none, [some 0]⟩ := by
          simp [Loader.readRows, Loader.readNext, Loader.create, readRow_eq hsmall]
        refine ⟨⟨[0], List.nodup_singleton 0, ?_, ?_⟩,
          ⟨⟨inst_index, date, maxLevels, [rowTick inst_index row]⟩, ?_, List.Perm.refl _⟩⟩
        · rw [hread]
          rfl
        · rw [hread]
          rfl
        · rw [storeRows, hread]
          rfl

def sampleRow (second : ℕ) (hsecond : second < 60) : Row 1 :=
  ⟨⟨0, 0, second, 0, by decide, by decide, hsecond, by decide⟩, 10, 20, 100, 1000,
    [⟨99, 3⟩], [⟨101, 0⟩], rfl, rfl⟩

theorem loadsRows_iff_oneRow :
    LoadsRows 5220000 20140103 [sampleRow 1 (by decide)] ∧
      rowTick 5220000 (sampleRow 1 (by decide)) =
        ⟨5220000, 1000, 10, 20, 100, 1000, 1, 0, [⟨99, 3⟩]⟩ :=
  ⟨(loadsRows_iff (by decide) 5220000 20140103 [sampleRow 1 (by decide)]).mpr le_rfl,
    by decide +kernel⟩

/-- Two rows leave a null pointer in the store and one object, overwritten by the second
row; sorting the store dereferences the null pointer. -/
theorem not_loadsRows_twoRows :
    let rows := [sampleRow 1 (by decide), sampleRow 2 (by decide)]
    Loader.readRows 5220000 rows =
        ⟨[rowTick 5220000 (sampleRow 2 (by decide))], 0, none, [some 0, none]⟩ ∧
      storeRows 5220000 20140103 rows = none ∧ ¬ LoadsRows 5220000 20140103 rows := by
  refine ⟨by decide +kernel, by decide +kernel, fun h => ?_⟩
  obtain ⟨store, hstore, -⟩ := h.saved
  have hcrash : storeRows 5220000 20140103
      [sampleRow 1 (by decide), sampleRow 2 (by decide)] = none := by decide +kernel
  rw [hcrash] at hstore
  cases hstore

end BluesTrading.TickQuery
