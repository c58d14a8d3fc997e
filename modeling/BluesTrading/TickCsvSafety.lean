import BluesTrading.TickCsvFile

namespace BluesTrading.TickCsvSafety

open BluesTrading.OrderData
open BluesTrading.SourceText
open BluesTrading.TickArchive
open BluesTrading.TickCsv
open BluesTrading.TickCsvFile

/-! ### Dates and times -/

theorem isSome_getDate_iff {date : Str} :
    (getDate date).isSome ↔ 3 ≤ (date.splitOnP (· ∈ ['-', ' '])).length := by
  rw [getDate]
  generalize date.splitOnP (· ∈ ['-', ' ']) = parts
  rcases parts with _ | ⟨year, _ | ⟨month, _ | ⟨day, parts⟩⟩⟩ <;> simp

theorem isSome_getTime_iff {time : Str} :
    (getTime time).isSome ↔ 3 ≤ (time.splitOnP (· ∈ [' ', ':'])).length := by
  rw [getTime]
  generalize time.splitOnP (· ∈ [' ', ':']) = parts
  rcases parts with _ | ⟨hour, _ | ⟨minute, _ | ⟨second, parts⟩⟩⟩ <;> simp

/-! ### Lines -/

section Levels

variable {fields : List Str} {priceStart sizeStart turns i depthsSize : ℕ} {depths : List Depth}

theorem fillDepths_eq_none
    (h : ¬ (priceStart + i < fields.length ∧ sizeStart + i < fields.length)) :
    fillDepths fields priceStart sizeStart (turns + 1) i depthsSize depths = none := by
  rw [fillDepths]
  rcases not_and_or.mp h with hprice | hsize
  · rw [List.getElem?_eq_none (not_lt.mp hprice)]
    cases fields[sizeStart + i]? with
    | none => rfl
    | some size => rfl
  · rw [List.getElem?_eq_none (not_lt.mp hsize)]
    rfl

/-- The loop over the levels of a side reads them up to the first that is empty. -/
theorem isSome_fillDepths_iff :
    (fillDepths fields priceStart sizeStart turns i depthsSize depths).isSome ↔
      ∀ k < turns, (∀ j < k, 0 < (level fields priceStart sizeStart (i + j)).size) →
        priceStart + (i + k) < fields.length ∧ sizeStart + (i + k) < fields.length := by
  induction turns generalizing i depths with
  | zero => simp [fillDepths]
  | succ turns ih =>
      by_cases hfields : priceStart + i < fields.length ∧ sizeStart + i < fields.length
      · rw [fillDepths_succ hfields.1 hfields.2]
        split_ifs with hpositive
        · rw [ih]
          constructor
          · intro h k hk hlevels
            cases k with
            | zero => exact hfields
            | succ k =>
                have hnext := h k (by omega) fun j hj => by
                  simpa only [Nat.add_assoc, Nat.add_comm 1] using hlevels (j + 1) (by omega)
                omega
          · intro h k hk hlevels
            have hnext := h (k + 1) (by omega) fun j hj => by
              cases j with
              | zero => exact hpositive
              | succ j => simpa only [Nat.add_assoc, Nat.add_comm 1] using hlevels j (by omega)
            omega
        · refine iff_of_true rfl fun k hk hlevels => ?_
          cases k with
          | zero => exact hfields
          | succ k => exact absurd (hlevels 0 (by omega)) hpositive
      · rw [fillDepths_eq_none hfields]
        refine iff_of_false (by simp) fun h => hfields ?_
        exact h 0 (Nat.succ_pos turns) fun j hj => absurd hj (Nat.not_lt_zero j)

end Levels

/-- A line with a time of three parts, and with the sizes of the bids up to the first one that is
zero. -/
structure Extractable (line : Str) : Prop where
  time : 3 ≤ (((split line).getD 0 []).splitOnP (· ∈ [' ', ':'])).length
  bids : ∀ k < 5, (∀ j < k, 0 < (bidLevel line j).size) → 19 + k < (split line).length

theorem isSome_ExtractTick_iff {line : Str} (instIndex : ℕ) (totals : Totals) :
    (ExtractTick line instIndex totals).isSome ↔ Extractable line := by
  constructor
  · intro h
    obtain ⟨result, h⟩ := Option.isSome_iff_exists.mp h
    simp only [ExtractTick, Option.bind_eq_bind, Option.bind_eq_some_iff] at h
    obtain ⟨first, hfirst, timeInMs, htime, -, -, -, -, bids, hbids, -⟩ := h
    have hlevels := isSome_fillDepths_iff.mp (Option.isSome_of_mem hbids)
    refine ⟨?_, fun k hk hpositive => ?_⟩
    · rw [List.getD_eq_getElem?_getD, hfirst, Option.getD_some, ← isSome_getTime_iff, htime]
      rfl
    · have hk := (hlevels k hk fun j hj => by rw [Nat.zero_add]; exact hpositive j hj).2
      rwa [Nat.zero_add] at hk
  · intro h
    have hlength : 19 < (split line).length :=
      h.bids 0 (by decide) fun j hj => absurd hj (Nat.not_lt_zero j)
    have hfield : ∀ i < 20, (split line)[i]? = some ((split line).getD i []) :=
      fun i hi => getElem?_eq_getD (by omega)
    obtain ⟨timeInMs, htime⟩ := Option.isSome_iff_exists.mp (isSome_getTime_iff.mpr h.time)
    have hbids : (fillDepths (split line) 14 19 5 0 0 []).isSome :=
      isSome_fillDepths_iff.mpr fun k hk hlevels => by
        simp only [Nat.zero_add] at hlevels ⊢
        have hk := h.bids k hk hlevels
        omega
    obtain ⟨⟨bidLevels, depths⟩, hbids⟩ := Option.isSome_iff_exists.mp hbids
    have hasks : (fillDepths (split line) 4 9 5 0 0 depths).isSome :=
      isSome_fillDepths_iff.mpr fun k hk _ => by omega
    obtain ⟨⟨askLevels, depths'⟩, hasks⟩ := Option.isSome_iff_exists.mp hasks
    simp only [ExtractTick, hfield 0 (by decide), hfield 1 (by decide), hfield 2 (by decide),
      htime, hbids, hasks, Option.bind_eq_bind, Option.bind_some, Option.pure_def,
      Option.isSome_some]

theorem isSome_extractTicks_iff {data : List Str} (instIndex : ℕ) (totals : Totals) :
    (extractTicks instIndex data totals).isSome ↔ ∀ line ∈ data, Extractable line := by
  induction data generalizing totals with
  | nil => simp [extractTicks]
  | cons line data ih =>
      rw [List.forall_mem_cons, ← isSome_ExtractTick_iff instIndex totals]
      cases hextract : ExtractTick line instIndex totals with
      | none => simp [extractTicks, hextract]
      | some result =>
          obtain ⟨tick, totals'⟩ := result
          rw [← ih totals']
          simp only [extractTicks, hextract, Option.bind_eq_bind, Option.bind_some,
            Option.isSome_some, true_and]
          cases extractTicks instIndex data totals' with
          | none => simp
          | some ticks => simp

/-! ### Files -/

/-- No field is read that its line does not have, and no assertion fails.  A name that is too short
ends the function before a line is read, by the exception of `substr`. -/
def LoadsSafely (texts : Str → Option Str) (fileName : Str) (store : MarketDataStore) : Prop :=
  texts fileName ≠ none ∧ nameIndex fileName = none ∨
    (loadFromRawFile texts fileName store).isSome

/-- The line after the header has a date of three parts, and this line and the following ones can
be read.  A header without a line feed is taken for that line as well. -/
structure Loadable (text : Str) : Prop where
  date : 3 ≤ (((firstData text).take 10).splitOnP (· ∈ ['-', ' '])).length
  first : Extractable (firstData text)
  rest : ∀ line ∈ (lines text).drop 2, Extractable line

theorem isSome_loadFromRawFile_iff {texts : Str → Option Str} {fileName text part : Str}
    (htext : texts fileName = some text) (hpart : nameIndex fileName = some part)
    (store : MarketDataStore) : (loadFromRawFile texts fileName store).isSome ↔ Loadable text := by
  constructor
  · intro h
    obtain ⟨store', h⟩ := Option.isSome_iff_exists.mp h
    simp only [loadFromRawFile, htext, hpart, Option.bind_eq_bind, Option.bind_some,
      Option.bind_eq_some_iff] at h
    obtain ⟨date, hdate, ⟨tick, totals⟩, hextract, ticks, hticks, -⟩ := h
    exact ⟨isSome_getDate_iff.mp (Option.isSome_of_mem hdate),
      (isSome_ExtractTick_iff _ _).mp (Option.isSome_of_mem hextract),
      (isSome_extractTicks_iff _ _).mp (Option.isSome_of_mem hticks)⟩
  · intro h
    obtain ⟨date, hdate⟩ := Option.isSome_iff_exists.mp (isSome_getDate_iff.mpr h.date)
    obtain ⟨⟨tick, totals⟩, hextract⟩ := Option.isSome_iff_exists.mp
      ((isSome_ExtractTick_iff (castUInt32 (atoi part)) ⟨0, 0, 0⟩).mpr h.first)
    obtain ⟨ticks, hticks⟩ := Option.isSome_iff_exists.mp
      ((isSome_extractTicks_iff (castUInt32 (atoi part)) totals).mpr h.rest)
    simp only [loadFromRawFile, htext, hpart, hdate, hextract, hticks, Option.bind_eq_bind,
      Option.bind_some, Option.pure_def, Option.isSome_some]

/-- A file that is opened is loaded without a look at a missing field just if its lines are as they
have to be. -/
theorem loadsSafely_iff (texts : Str → Option Str) (fileName : Str) (store : MarketDataStore) :
    LoadsSafely texts fileName store ↔
      ∀ text, texts fileName = some text → 10 ≤ fileName.length → Loadable text := by
  rw [LoadsSafely]
  cases htext : texts fileName with
  | none => simp [loadFromRawFile, htext]
  | some text =>
      by_cases hname : 10 ≤ fileName.length
      · obtain ⟨part, hpart⟩ : ∃ part, nameIndex fileName = some part :=
          ⟨_, if_neg (not_lt.mpr hname)⟩
        rw [isSome_loadFromRawFile_iff htext hpart store, hpart]
        simp [hname]
      · have hnone : nameIndex fileName = none := if_pos (not_le.mp hname)
        exact iff_of_true (.inl ⟨by simp, hnone⟩) fun _ _ hlong => absurd hlong hname

/-- A blank line at the end of a file has no time. -/
theorem not_loadsSafely_blankLine :
    ¬ LoadsSafely (sampleTexts (quietLine ++ ['\n'])) sampleName sampleStore := by
  have hblank : ([] : Str) ∈ (lines ("time,price,volume\n".toList ++ (quietLine ++ ['\n']) ++
      ['\n'])).drop 2 := by decide +kernel
  have hpart : nameIndex sampleName = some ['6', '0', '0', '0', '0', '0'] := by decide
  rintro (⟨-, hshort⟩ | hloads)
  · rw [hpart] at hshort
    cases hshort
  · have htext : sampleTexts (quietLine ++ ['\n']) sampleName = some _ := rfl
    have hloadable := (isSome_loadFromRawFile_iff htext hpart sampleStore).mp hloads
    exact absurd (hloadable.rest [] hblank).time (by decide)

end BluesTrading.TickCsvSafety
