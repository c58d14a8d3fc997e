import BluesTrading.Foundations.SortedMerge
import BluesTrading.OrderData

/-!
`MarketDataReplayerMultiThread`: the stores of a day are merged by time in the
order in which their loads finish, and the merged ticks are delivered to the
consumers one after the other.
-/

namespace BluesTrading.MarketDataReplayer

open BluesTrading.Foundations
open BluesTrading.Foundations.SortedMerge
open BluesTrading.OrderData

structure MarketDataStore where
  instIndex : ℕ
  date : ℕ
  maxLevels : ℕ
  tickDataVec : List CTickData
  deriving DecidableEq

structure MarketDataReplayerMultiThread where
  date : ℕ
  allTicks : List CTickData
  deriving DecidableEq

namespace MarketDataReplayerMultiThread

def create (date : ℕ) : MarketDataReplayerMultiThread := ⟨date, []⟩

/-- Move the ticks of both sequences into one by time; a tick of the sequence so
far goes first only if it is strictly earlier. -/
def addDataStore (replayer : MarketDataReplayerMultiThread) (datastore : MarketDataStore) :
    MarketDataReplayerMultiThread :=
  { replayer with
    allTicks := replayer.allTicks.merge datastore.tickDataVec fun ref1 ref2 =>
      decide (ref1.timeInMS < ref2.timeInMS) }

def loaded (date : ℕ) (stores : List MarketDataStore) : MarketDataReplayerMultiThread :=
  stores.foldl addDataStore (create date)

end MarketDataReplayerMultiThread

/-- Every tick goes to every consumer in the order of the consumer set, each of
them changing the common state. -/
def deliver {σ : Type} (consumers : List (σ → CTickData → σ)) (ticks : List CTickData)
    (s : σ) : σ :=
  ticks.foldl (fun s tick => consumers.foldl (fun s onMarketData => onMarketData s tick) s) s

/-- `StartReplay`, the calls to the timer provider left out. -/
def MarketDataReplayerMultiThread.startReplay {σ : Type}
    (replayer : MarketDataReplayerMultiThread) (consumers : List (σ → CTickData → σ)) (s : σ) :
    σ :=
  deliver consumers replayer.allTicks s

def SortedStore (store : MarketDataStore) : Prop :=
  SortedBy CTickData.timeInMS store.tickDataVec

theorem allTicks_loaded (date : ℕ) (stores : List MarketDataStore) :
    (MarketDataReplayerMultiThread.loaded date stores).allTicks =
      mergeAll MarketDataStore.tickDataVec CTickData.timeInMS stores := by
  have hfold : ∀ (stores : List MarketDataStore) (replayer : MarketDataReplayerMultiThread),
      (stores.foldl MarketDataReplayerMultiThread.addDataStore replayer).allTicks =
        stores.foldl (fun all store => mergeIn CTickData.timeInMS all store.tickDataVec)
          replayer.allTicks := by
    intro stores
    induction stores with
    | nil =>
        intro replayer
        rfl
    | cons store stores ih =>
        intro replayer
        exact ih (replayer.addDataStore store)
  exact hfold stores (MarketDataReplayerMultiThread.create date)

/-- The merged sequence is independent of the order in which the loads finish
exactly when the ticks of any two stores at any one time commute. -/
theorem allTicks_eq_iff_tiesCommute (date : ℕ) {stores : List MarketDataStore}
    (hsorted : ∀ store ∈ stores, SortedStore store) :
    (∀ p q : List MarketDataStore, p.Perm stores → q.Perm stores →
        (MarketDataReplayerMultiThread.loaded date p).allTicks =
          (MarketDataReplayerMultiThread.loaded date q).allTicks) ↔
      stores.Pairwise fun a b =>
        TiesCommute CTickData.timeInMS a.tickDataVec b.tickDataVec := by
  simp only [allTicks_loaded]
  exact mergeAll_eq_iff hsorted

def openingStore (instIndex : ℕ) : MarketDataStore :=
  { instIndex := instIndex, date := 20150105, maxLevels := 5,
    tickDataVec := [{ instIndex := instIndex, timeInMS := 32400000 }] }

def alternatingStores : List MarketDataStore :=
  [{ instIndex := 5220000, date := 20150105, maxLevels := 5,
     tickDataVec := [{ instIndex := 5220000, timeInMS := 32400000 },
       { instIndex := 5220000, timeInMS := 32402000 }] },
    { instIndex := 5240000, date := 20150105, maxLevels := 5,
      tickDataVec := [{ instIndex := 5240000, timeInMS := 32401000 }] }]

/-- In both orders of the stores their ticks are merged by time. -/
theorem allTicks_eq_iff_tiesCommute_alternating :
    ((MarketDataReplayerMultiThread.loaded 20150105 alternatingStores).allTicks.map
        fun tick => (tick.instIndex, tick.timeInMS)) =
      [(5220000, 32400000), (5240000, 32401000), (5220000, 32402000)] ∧
    ∀ p q : List MarketDataStore, p.Perm alternatingStores → q.Perm alternatingStores →
      (MarketDataReplayerMultiThread.loaded 20150105 p).allTicks =
        (MarketDataReplayerMultiThread.loaded 20150105 q).allTicks := by
  refine ⟨?_, (allTicks_eq_iff_tiesCommute 20150105 ?_).mpr ?_⟩
  · simp [MarketDataReplayerMultiThread.loaded, MarketDataReplayerMultiThread.create,
      MarketDataReplayerMultiThread.addDataStore, alternatingStores]
  · simp [SortedStore, SortedBy, alternatingStores]
  · have hties : TiesCommute CTickData.timeInMS
        [{ instIndex := 5220000, timeInMS := 32400000 },
          { instIndex := 5220000, timeInMS := 32402000 }]
        [{ instIndex := 5240000, timeInMS := 32401000 }] := by
      intro k
      by_cases hk : k = 32401000
      · subst hk
        rfl
      · simp [atKey, Ne.symm hk]
    exact List.pairwise_pair.mpr hties

theorem allTicks_opening_ne :
    (∀ store ∈ [openingStore 5220000, openingStore 5240000], SortedStore store) ∧
      (MarketDataReplayerMultiThread.loaded 20150105
          [openingStore 5220000, openingStore 5240000]).allTicks ≠
        (MarketDataReplayerMultiThread.loaded 20150105
          [openingStore 5240000, openingStore 5220000]).allTicks := by
  constructor
  · simp [SortedStore, SortedBy, openingStore]
  · simp [MarketDataReplayerMultiThread.loaded, MarketDataReplayerMultiThread.create,
      MarketDataReplayerMultiThread.addDataStore, openingStore]

end BluesTrading.MarketDataReplayer
