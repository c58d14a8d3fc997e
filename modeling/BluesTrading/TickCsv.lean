import BluesTrading.TickArchive

namespace BluesTrading.TickCsv

open BluesTrading.OrderData
open BluesTrading.SourceText
open BluesTrading.TickArchive

/-! ### Dates and times -/

def getDate (date : Str) : Option ℕ :=
  match date.splitOnP (· ∈ ['-', ' ']) with
  | year :: month :: day :: _ => some (castUInt32 (atoi year * 10000 + atoi month * 100 + atoi day))
  | _ => none

def getTimeFromDateTime (dateTime : Str) : Option ℕ :=
  match dateTime.splitOnP (· ∈ [' ', ':']) with
  | _ :: hour :: minute :: second :: _ => some (castUInt32
      (atoi hour * 3600 * 1000 + atoi minute * 60 * 1000 + atoi second * 1000))
  | _ => none

def getTime (date_time_str : Str) : Option ℕ :=
  match date_time_str.splitOnP (· ∈ [' ', ':']) with
  | hour :: minute :: second :: _ => some (castUInt32
      (atoi hour * 3600 * 1000 + atoi minute * 60 * 1000 + atoi second * 1000))
  | _ => none

/-! ### Lines -/

/-- What is carried from line to line. -/
structure Totals where
  totVol : ℕ
  openinterest : ℕ
  trunover : ℚ
  deriving DecidableEq

/-- The loop of `fillDepths` from level `i` on.  The number of levels is set on the way out of
the loop, and not at its end. -/
def fillDepths (fields : List Str) (depthPriceStartIndex depthSizeStartIndex : ℕ) :
    (turns i depthsSize : ℕ) → List Depth → Option (ℕ × List Depth)
  | 0, _, depthsSize, depths => some (depthsSize, depths)
  | turns + 1, i, depthsSize, depths => do
      let size := castUInt32 (atoi (← fields[depthSizeStartIndex + i]?))
      let price := atof (← fields[depthPriceStartIndex + i]?)
      if size > 0 then
        fillDepths fields depthPriceStartIndex depthSizeStartIndex turns (i + 1) depthsSize
          (depths ++ [⟨price, size⟩])
      else some (i, depths)

def split (tickstr : Str) : List Str := tickstr.splitOnP (· == ',')

def ExtractTick (tickstr : Str) (instrumentIndex : ℕ) (totals : Totals) :
    Option (CTickData × Totals) := do
  let fields := split tickstr
  let timeInMs ← getTime (← fields[0]?)
  let lastPx := atof (← fields[1]?)
  let volInc := castUInt64 (castInt32 (atoi (← fields[2]?) * 100))
  -- The turnover of the line is added to itself, and not to the total.
  let totals := ⟨(totals.totVol + volInc) % 2 ^ 64, 0, totals.trunover⟩
  let (bidLevels, depths) ← fillDepths fields 14 19 5 0 0 []
  let (askLevels, depths) ← fillDepths fields 4 9 5 0 0 depths
  return ({
    instIndex := instrumentIndex
    timeInMS := timeInMs
    totVol := totals.totVol % 2 ^ 32
    openinterest := 0
    lastPrice := lastPx
    turnover := totals.trunover
    bidLevels := bidLevels
    askLevels := askLevels
    depths := depths }, totals)

/-! ### Files -/

/-- The six characters of a name before its last four. -/
def nameIndex (fileName : Str) : Option Str :=
  if fileName.length < 10 then none else some ((fileName.drop (fileName.length - 10)).take 6)

/-- The line after the header.  Without one, the header is kept if there is no line feed at its
end. -/
def firstData (text : Str) : Str :=
  match lines text with
  | [] => []
  | [header] => if text.getLast? = some '\n' then [] else header
  | _ :: line :: _ => line

def extractTicks (instIndex : ℕ) : List Str → Totals → Option (List CTickData)
  | [], _ => some []
  | line :: rest, totals => do
      let (tick, totals) ← ExtractTick line instIndex totals
      return tick :: (← extractTicks instIndex rest totals)

/-- A file that cannot be opened leaves the store as it is. -/
def loadFromRawFile (texts : Str → Option Str) (fileName : Str) (store : MarketDataStore) :
    Option MarketDataStore :=
  match texts fileName with
  | none => some store
  | some text => do
      let line := firstData text
      let instIndex := castUInt32 (atoi (← nameIndex fileName))
      let date ← getDate (line.take 10)
      let (tick, totals) ← ExtractTick line instIndex ⟨0, 0, 0⟩
      let ticks ← extractTicks instIndex ((lines text).drop 2) totals
      return { store with
        instIndex := instIndex
        date := date
        tickDataVec := store.tickDataVec ++ (tick :: ticks).map some }

/-! ### Books -/

def emptyDepth : Depth := ⟨0, 0⟩

def depthAt (depths : List Depth) (index : ℤ) : Option Depth :=
  if 0 ≤ index then depths[index.toNat]? else none

/-- Levels are counted from one. -/
def getBidDepth (tick : CTickData) (index : ℤ) : Option Depth :=
  if index ≤ tick.bidLevels then depthAt tick.depths (index - 1) else some emptyDepth

def getAskDepth (tick : CTickData) (index : ℤ) : Option Depth :=
  if index ≤ tick.askLevels then depthAt tick.depths (index - 1 + tick.bidLevels)
  else some emptyDepth

/-! ### What a line says -/

/-- A level of a side: the field of its price, and the field of its size. -/
def level (fields : List Str) (priceStart sizeStart i : ℕ) : Depth :=
  ⟨atof (fields.getD (priceStart + i) []), castUInt32 (atoi (fields.getD (sizeStart + i) []))⟩

def bidLevel (line : Str) (i : ℕ) : Depth := level (split line) 14 19 i

def askLevel (line : Str) (i : ℕ) : Depth := level (split line) 4 9 i

def leading (levels : List Depth) : List Depth := levels.takeWhile fun depth => 0 < depth.size

theorem leading_cons_of_pos {depth : Depth} {levels : List Depth} (h : 0 < depth.size) :
    leading (depth :: levels) = depth :: leading levels :=
  List.takeWhile_cons_of_pos (decide_eq_true h)

theorem leading_cons_of_not_pos {depth : Depth} {levels : List Depth} (h : ¬ 0 < depth.size) :
    leading (depth :: levels) = [] :=
  List.takeWhile_cons_of_neg (by simpa using h)

def bids (line : Str) : List Depth := leading ((List.range 5).map (bidLevel line))

def asks (line : Str) : List Depth := leading ((List.range 5).map (askLevel line))

/-- The fields that the code reads are there, and the first one has the three parts of a time. -/
structure Readable (line : Str) : Prop where
  fields : 24 ≤ (split line).length
  time : (getTime ((split line).getD 0 [])).isSome

theorem getElem?_eq_getD {fields : List Str} {i : ℕ} (h : i < fields.length) :
    fields[i]? = some (fields.getD i []) := by
  rw [List.getD_eq_getElem?_getD, List.getElem?_eq_getElem h, Option.getD_some]

theorem fillDepths_succ {fields : List Str} {priceStart sizeStart i : ℕ}
    (hprice : priceStart + i < fields.length) (hsize : sizeStart + i < fields.length)
    (turns depthsSize : ℕ) (depths : List Depth) :
    fillDepths fields priceStart sizeStart (turns + 1) i depthsSize depths =
      if 0 < (level fields priceStart sizeStart i).size then
        fillDepths fields priceStart sizeStart turns (i + 1) depthsSize
          (depths ++ [level fields priceStart sizeStart i])
      else some (i, depths) := by
  rw [fillDepths, getElem?_eq_getD hprice, getElem?_eq_getD hsize]
  rfl

theorem fillDepths_eq {fields : List Str} {priceStart sizeStart turns i : ℕ}
    (hprice : priceStart + (i + turns) ≤ fields.length)
    (hsize : sizeStart + (i + turns) ≤ fields.length) (depthsSize : ℕ) (depths : List Depth) :
    fillDepths fields priceStart sizeStart turns i depthsSize depths =
      let side := (List.range' i turns).map (level fields priceStart sizeStart)
      some (if ∀ depth ∈ side, 0 < depth.size then depthsSize else i + (leading side).length,
        depths ++ leading side) := by
  induction turns generalizing i depths with
  | zero => simp [fillDepths, leading]
  | succ turns ih =>
      rw [fillDepths_succ (by omega) (by omega)]
      simp only [List.range'_succ, List.map_cons, List.forall_mem_cons]
      by_cases hpositive : 0 < (level fields priceStart sizeStart i).size
      · rw [if_pos hpositive, ih (by omega) (by omega), leading_cons_of_pos hpositive]
        simp only [hpositive, true_and, List.length_cons, List.append_assoc,
          List.singleton_append, Nat.add_assoc, Nat.add_comm]
      · rw [if_neg hpositive, leading_cons_of_not_pos hpositive]
        simp [hpositive]

/-- The number of levels is left at zero if all are there. -/
def levelCount (levels : List Depth) : ℕ :=
  if ∀ depth ∈ levels, 0 < depth.size then 0 else (leading levels).length

theorem fillDepths_side {fields : List Str} {priceStart sizeStart : ℕ}
    (hprice : priceStart + 5 ≤ fields.length) (hsize : sizeStart + 5 ≤ fields.length)
    (depths : List Depth) :
    fillDepths fields priceStart sizeStart 5 0 0 depths =
      some (levelCount ((List.range 5).map (level fields priceStart sizeStart)),
        depths ++ leading ((List.range 5).map (level fields priceStart sizeStart))) := by
  rw [fillDepths_eq (by omega) (by omega), levelCount, List.range_eq_range']
  simp only [Nat.zero_add]

theorem ExtractTick_eq {line : Str} (h : Readable line) (instrumentIndex : ℕ) (totals : Totals) :
    ∃ timeInMs, getTime ((split line).getD 0 []) = some timeInMs ∧
      ExtractTick line instrumentIndex totals = some
        (let volInc := castUInt64 (castInt32 (atoi ((split line).getD 2 []) * 100))
        let totVol := (totals.totVol + volInc) % 2 ^ 64
        ({  instIndex := instrumentIndex
            timeInMS := timeInMs
            totVol := totVol % 2 ^ 32
            openinterest := 0
            lastPrice := atof ((split line).getD 1 [])
            turnover := totals.trunover
            bidLevels := levelCount ((List.range 5).map (bidLevel line))
            askLevels := levelCount ((List.range 5).map (askLevel line))
            depths := bids line ++ asks line }, ⟨totVol, 0, totals.trunover⟩)) := by
  obtain ⟨timeInMs, htime⟩ := Option.isSome_iff_exists.mp h.time
  refine ⟨timeInMs, htime, ?_⟩
  have hlength := h.fields
  have hfield : ∀ i < 24, (split line)[i]? = some ((split line).getD i []) :=
    fun i hi => getElem?_eq_getD (by omega)
  have hbids := fillDepths_side (show 14 + 5 ≤ (split line).length by omega)
    (show 19 + 5 ≤ (split line).length by omega) []
  have hasks := fillDepths_side (show 4 + 5 ≤ (split line).length by omega)
    (show 9 + 5 ≤ (split line).length by omega) (bids line)
  rw [List.nil_append] at hbids
  simp only [ExtractTick, hfield 0 (by decide), hfield 1 (by decide), hfield 2 (by decide),
    Option.bind_eq_bind, Option.bind_some, htime, hbids]
  change (fillDepths (split line) 4 9 5 0 0 (bids line)).bind _ = _
  rw [hasks]
  rfl

/-! ### The book of a tick -/

/-- The book of a tick is that of its line. -/
structure BookOf (tick : CTickData) (line : Str) : Prop where
  bidLevels : tick.bidLevels = (bids line).length
  askLevels : tick.askLevels = (asks line).length
  depths : tick.depths.length = tick.bidLevels + tick.askLevels
  bid : ∀ i : ℕ, 1 ≤ i → i ≤ tick.bidLevels → getBidDepth tick i = some (bidLevel line (i - 1))
  ask : ∀ i : ℕ, 1 ≤ i → i ≤ tick.askLevels → getAskDepth tick i = some (askLevel line (i - 1))
  noBid : ∀ i : ℕ, tick.bidLevels < i → getBidDepth tick i = some emptyDepth
  noAsk : ∀ i : ℕ, tick.askLevels < i → getAskDepth tick i = some emptyDepth

theorem prefix_leading (levels : List Depth) : leading levels <+: levels :=
  List.takeWhile_prefix _

theorem getElem?_leading {side : ℕ → Depth} {n i : ℕ}
    (hi : i < (leading ((List.range n).map side)).length) :
    (leading ((List.range n).map side))[i]? = some (side i) := by
  rw [List.getElem?_eq_getElem hi, (prefix_leading ((List.range n).map side)).getElem hi,
    List.getElem_map, List.getElem_range]

theorem levelCount_eq_iff {levels : List Depth} (hne : levels ≠ []) :
    levelCount levels = (leading levels).length ↔ ∃ depth ∈ levels, depth.size = 0 := by
  unfold levelCount
  split_ifs with hall
  · have hleading : leading levels = levels :=
      List.takeWhile_eq_self_iff.mpr fun depth hmem => decide_eq_true (hall depth hmem)
    rw [hleading]
    constructor
    · intro hlength
      exact absurd (List.eq_nil_of_length_eq_zero hlength.symm) hne
    · rintro ⟨depth, hmem, hzero⟩
      exact absurd (hall depth hmem) (by omega)
  · simp only [true_iff]
    push Not at hall
    obtain ⟨depth, hmem, hzero⟩ := hall
    exact ⟨depth, hmem, Nat.le_zero.mp hzero⟩

theorem levelCount_side_iff (side : ℕ → Depth) :
    levelCount ((List.range 5).map side) = (leading ((List.range 5).map side)).length ↔
      ∃ i < 5, (side i).size = 0 := by
  rw [levelCount_eq_iff (by simp)]
  simp only [List.mem_map, List.mem_range, exists_exists_and_eq_and]

section Accessors

variable {tick : CTickData} {front back : List Depth} {i : ℕ}

theorem getBidDepth_eq (hlevels : tick.bidLevels = front.length)
    (hdepths : tick.depths = front ++ back) (hpos : 1 ≤ i) (hi : i ≤ tick.bidLevels) :
    getBidDepth tick i = front[i - 1]? := by
  rw [getBidDepth, if_pos (by exact_mod_cast hi), depthAt, if_pos (by omega), hdepths]
  have hindex : ((i : ℤ) - 1).toNat = i - 1 := by omega
  rw [hindex, List.getElem?_append_left (by omega)]

theorem getAskDepth_eq (hlevels : tick.bidLevels = front.length)
    (hdepths : tick.depths = front ++ back) (hpos : 1 ≤ i) (hi : i ≤ tick.askLevels) :
    getAskDepth tick i = back[i - 1]? := by
  rw [getAskDepth, if_pos (by exact_mod_cast hi), depthAt, if_pos (by omega), hdepths]
  have hindex : ((i : ℤ) - 1 + tick.bidLevels).toNat = front.length + (i - 1) := by omega
  rw [hindex, List.getElem?_append_right (by omega), Nat.add_sub_cancel_left]

end Accessors

/-- The book of a tick is that of its line just if the line has an empty level on each side. -/
theorem bookOf_iff {line : Str} (h : Readable line) (instrumentIndex : ℕ) (totals : Totals) :
    (∃ tick totals', ExtractTick line instrumentIndex totals = some (tick, totals') ∧
        BookOf tick line) ↔
      (∃ i < 5, (bidLevel line i).size = 0) ∧ ∃ i < 5, (askLevel line i).size = 0 := by
  obtain ⟨timeInMs, -, hextract⟩ := ExtractTick_eq h instrumentIndex totals
  rw [← levelCount_side_iff, ← levelCount_side_iff]
  constructor
  · rintro ⟨tick, totals', htick, hbook⟩
    rw [hextract] at htick
    obtain ⟨rfl, -⟩ := Prod.mk.inj (Option.some.inj htick)
    exact ⟨hbook.bidLevels, hbook.askLevels⟩
  · rintro ⟨hbids, hasks⟩
    refine ⟨_, _, hextract, hbids, hasks, ?_, fun i hpos hi => ?_, fun i hpos hi => ?_,
      fun i hi => ?_, fun i hi => ?_⟩
    · dsimp only
      rw [hbids, hasks, List.length_append, bids, asks]
    · rw [getBidDepth_eq hbids rfl hpos hi]
      exact getElem?_leading (Nat.sub_one_lt_of_le hpos (hi.trans_eq hbids))
    · rw [getAskDepth_eq hbids rfl hpos hi]
      exact getElem?_leading (Nat.sub_one_lt_of_le hpos (hi.trans_eq hasks))
    · exact if_neg (by exact_mod_cast not_le.mpr hi)
    · exact if_neg (by exact_mod_cast not_le.mpr hi)

def thinLine : Str :=
  "2013-10-10 09:17:13,10.5,3,0,11,12,0,0,0,4,5,0,0,0,10,9,8,0,0,1,2,3,0,0".toList

def fullLine : Str :=
  "2013-10-10 09:17:13,10.5,3,0,11,12,13,14,15,1,2,3,4,5,10,9,8,7,6,6,7,8,9,10".toList

theorem readable_thinLine : Readable thinLine := ⟨by decide +kernel, by decide +kernel⟩

theorem readable_fullLine : Readable fullLine := ⟨by decide +kernel, by decide +kernel⟩

theorem bookOf_iff_thinLine :
    ∃ tick totals', ExtractTick thinLine 600000 ⟨0, 0, 0⟩ = some (tick, totals') ∧
      BookOf tick thinLine :=
  (bookOf_iff readable_thinLine 600000 ⟨0, 0, 0⟩).mpr
    ⟨⟨3, by decide, by decide +kernel⟩, 2, by decide, by decide +kernel⟩

/-- With five levels on each side, the tick says that there are none. -/
theorem not_bookOf_fullLine :
    (split fullLine).length = 24 ∧ (bids fullLine).length = 5 ∧ (asks fullLine).length = 5 ∧
      ¬ ∃ tick totals', ExtractTick fullLine 600000 ⟨0, 0, 0⟩ = some (tick, totals') ∧
        BookOf tick fullLine := by
  refine ⟨by decide +kernel, by decide +kernel, by decide +kernel, ?_⟩
  rintro ⟨tick, totals', htick, hbook⟩
  obtain ⟨timeInMs, -, hextract⟩ := ExtractTick_eq readable_fullLine 600000 ⟨0, 0, 0⟩
  rw [hextract] at htick
  obtain ⟨rfl, -⟩ := Prod.mk.inj (Option.some.inj htick)
  have hbids : levelCount ((List.range 5).map (bidLevel fullLine)) = (bids fullLine).length :=
    hbook.bidLevels
  exact absurd hbids (by decide +kernel)

end BluesTrading.TickCsv
