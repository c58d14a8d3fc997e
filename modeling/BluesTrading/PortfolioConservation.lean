import BluesTrading.PositionManager
import BluesTrading.PositionValue

namespace BluesTrading.PortfolioConservation

open BluesTrading.Foundations
open BluesTrading.InstrumentInfo
open BluesTrading.OrderData
open BluesTrading.PositionBook
open BluesTrading.PositionUnits
open BluesTrading.PositionValue
open BluesTrading.PositionManager

inductive PortfolioEvent
  | updateOrder (order : OrderDataDetail)
  | marketData (tick : CTickData)
  | startDay (date : ℕ)

def stepEvent (m : TestPositionManager) : PortfolioEvent → TestPositionManager
  | .updateOrder order => m.onUpdateOrder order
  | .marketData tick => m.onMarketData tick
  | .startDay date => m.onStartDay date

def runEvents (m : TestPositionManager) (events : List PortfolioEvent) :
    TestPositionManager :=
  events.foldl stepEvent m

/-- A closing fill is covered by the quantity in the bucket it closes. -/
def CoveredFill (m : TestPositionManager) : PortfolioEvent → Prop
  | .updateOrder order => orderStatus order = .orderFilled →
      Covered (m.getPosition (orderInstrument order)).1 (orderTrade order)
  | .marketData _ => True
  | .startDay _ => True

/-- Every closing fill of a run is covered when it is applied. -/
def CoveredRun : TestPositionManager → List PortfolioEvent → Prop
  | _, [] => True
  | m, event :: events => CoveredFill m event ∧ CoveredRun (stepEvent m event) events

instance (pos : CPosition) (trade : TradeInfo) : Decidable (Covered pos trade) :=
  inferInstanceAs (Decidable (_ → _))

instance (m : TestPositionManager) : (event : PortfolioEvent) →
    Decidable (CoveredFill m event)
  | .updateOrder _ => inferInstanceAs (Decidable (_ → _))
  | .marketData _ => .isTrue trivial
  | .startDay _ => .isTrue trivial

instance decidableCoveredRun :
    (m : TestPositionManager) → (events : List PortfolioEvent) →
      Decidable (CoveredRun m events)
  | _, [] => .isTrue trivial
  | m, event :: events =>
      haveI := decidableCoveredRun (stepEvent m event) events
      inferInstanceAs (Decidable (CoveredFill m event ∧ CoveredRun (stepEvent m event) events))

def fillNotional (buy : Bool) (inst : ℕ) : PortfolioEvent → ℚ
  | .updateOrder order =>
      if orderStatus order = .orderFilled ∧ orderInstrument order = inst ∧
          (orderTrade order).isLong = buy then
        (orderTrade order).price * (orderTrade order).qty
      else 0
  | .marketData _ => 0
  | .startDay _ => 0

def notional (buy : Bool) (inst : ℕ) (events : List PortfolioEvent) : ℚ :=
  (events.map (fillNotional buy inst)).sum

/-- What the fills of a run and the open quantity at the mark are worth. -/
def tradedValue (events : List PortfolioEvent) (inst : ℕ) (pos : CPosition) : ℚ :=
  getInstrumentUnitMultiplier inst *
    (notional false inst events - notional true inst events +
      ((bucketQty pos .longToday + bucketQty pos .longYst : ℚ) -
        (bucketQty pos .shortToday + bucketQty pos .shortYst)) * pos.lastPrice)

/-- Profit booked on the position beyond its traded value; the day start moves
it into cash. -/
def profitGap (events : List PortfolioEvent) (inst : ℕ) (pos : CPosition) : ℚ :=
  pos.getPositionPnl - tradedValue events inst pos

/-- The invariant of a run of events that started with cash `c0`. -/
structure Accounted (c0 : ℚ) (events : List PortfolioEvent) (m : TestPositionManager) :
    Prop where
  flagged : ∀ inst pos, m.allPositions.find? inst = some pos → WellFlagged pos
  multiplier : ∀ inst pos, m.allPositions.find? inst = some pos →
    pos.unitMultiplier = getInstrumentUnitMultiplier inst
  untouched : ∀ inst, m.allPositions.find? inst = none →
    ∀ buy, notional buy inst events = 0
  balanced : m.cash + m.allPositions.sumEntries (profitGap events) = c0

theorem notional_append (buy : Bool) (inst : ℕ) (events : List PortfolioEvent)
    (event : PortfolioEvent) :
    notional buy inst (events ++ [event]) =
      notional buy inst events + fillNotional buy inst event := by
  simp [notional]

theorem accounted_init (c0 : ℚ) : Accounted c0 [] (TestPositionManager.init c0) where
  flagged := by simp [TestPositionManager.init]
  multiplier := by simp [TestPositionManager.init]
  untouched := by simp [notional]
  balanced := by simp [TestPositionManager.init]

theorem profitGap_default {events : List PortfolioEvent} {inst : ℕ}
    (h : ∀ buy, notional buy inst events = 0) (m : ℕ) :
    profitGap events inst { unitMultiplier := m } = 0 := by
  simp [profitGap, tradedValue, CPosition.getPositionPnl, getPositionPnlAt_default, h]

theorem profitGap_congr {events events' : List PortfolioEvent} {inst : ℕ}
    (h : ∀ buy, notional buy inst events' = notional buy inst events) (pos : CPosition) :
    profitGap events' inst pos = profitGap events inst pos := by
  simp [profitGap, tradedValue, h]

section Steps

variable {c0 : ℚ} {events : List PortfolioEvent} {m : TestPositionManager}

theorem Accounted.getPosition (h : Accounted c0 events m) (inst : ℕ) :
    WellFlagged (m.getPosition inst).1 ∧
      (m.getPosition inst).1.unitMultiplier = getInstrumentUnitMultiplier inst ∧
      profitGap events inst (m.getPosition inst).1 =
        (m.allPositions.find? inst).elim 0 (profitGap events inst) := by
  rw [TestPositionManager.getPosition_fst]
  cases hfind : m.allPositions.find? inst with
  | none =>
      exact ⟨wellFlagged_default _, rfl, profitGap_default (h.untouched inst hfind) _⟩
  | some pos => exact ⟨h.flagged inst pos hfind, h.multiplier inst pos hfind, rfl⟩

theorem profitGap_addTrade (h : Accounted c0 events m) (order : OrderDataDetail)
    (hfilled : orderStatus order = .orderFilled)
    (hcovered : Covered (m.getPosition (orderInstrument order)).1 (orderTrade order)) :
    profitGap (events ++ [.updateOrder order]) (orderInstrument order)
        ((m.getPosition (orderInstrument order)).1.addTrade (orderTrade order)) =
      profitGap events (orderInstrument order) (m.getPosition (orderInstrument order)).1 := by
  obtain ⟨hflag, hmul, -⟩ := h.getPosition (orderInstrument order)
  generalize (m.getPosition (orderInstrument order)).1 = pos at *
  have hnet := netQty_addTrade hcovered
  unfold netQty at hnet
  have hpnl := getPositionPnlAt_addTrade hflag hcovered pos.lastPrice
  simp only [profitGap, tradedValue, CPosition.getPositionPnl, lastPrice_addTrade, hnet, hpnl,
    hmul, notional_append, fillNotional, hfilled, true_and, direction]
  cases (orderTrade order).isLong <;> simp <;> ring

theorem Accounted.updateOrder (h : Accounted c0 events m) (order : OrderDataDetail)
    (hcovered : CoveredFill m (.updateOrder order)) :
    Accounted c0 (events ++ [.updateOrder order]) (m.onUpdateOrder order) := by
  obtain ⟨hflag, hmul, hgap⟩ := h.getPosition (orderInstrument order)
  have hother : ∀ inst, inst ≠ orderInstrument order → ∀ buy,
      notional buy inst (events ++ [.updateOrder order]) = notional buy inst events := by
    intro inst hinst buy
    simp [notional_append, fillNotional, Ne.symm hinst]
  rw [TestPositionManager.onUpdateOrder_eq]
  refine ⟨?_, ?_, ?_, ?_⟩
  · intro inst pos hpos
    rw [TestPositionManager.find?_bookTrade] at hpos
    split_ifs at hpos with hinst hstatus
    · exact (Option.some.inj hpos) ▸ hflag.addTrade _
    · exact (Option.some.inj hpos) ▸ hflag
    · exact h.flagged inst pos hpos
  · intro inst pos hpos
    rw [TestPositionManager.find?_bookTrade] at hpos
    split_ifs at hpos with hinst hstatus
    · rw [← Option.some.inj hpos, unitMultiplier_addTrade, hmul, hinst]
    · rw [← Option.some.inj hpos, hmul, hinst]
    · exact h.multiplier inst pos hpos
  · intro inst hnone buy
    rw [TestPositionManager.find?_bookTrade] at hnone
    split_ifs at hnone with hinst
    rw [hother inst hinst, h.untouched inst hnone]
  · rw [TestPositionManager.cash_bookTrade, TestPositionManager.allPositions_bookTrade,
      OrderedMap.sumEntries_insert_eq _ _ _
        (fun inst pos hinst => profitGap_congr (hother inst hinst) pos), h.balanced]
    rw [← hgap]
    split_ifs with hstatus
    · exact profitGap_addTrade h order hstatus (hcovered hstatus)
    · apply profitGap_congr
      intro buy
      simp [notional_append, fillNotional, hstatus]

theorem profitGap_updatePrice {pos : CPosition} (hflag : WellFlagged pos) {inst : ℕ}
    (hmul : pos.unitMultiplier = getInstrumentUnitMultiplier inst) (p : ℚ) :
    profitGap events inst (pos.updatePrice p) = profitGap events inst pos := by
  have hshift := getPositionPnlAt_sub hflag p pos.lastPrice
  have hat : (pos.updatePrice p).getPositionPnl = pos.getPositionPnlAt p := rfl
  have hqty : ∀ t, bucketQty (pos.updatePrice p) t = bucketQty pos t := by
    intro t
    simp [bucketQty, CPosition.updatePrice]
  have hlast : (pos.updatePrice p).lastPrice = p := rfl
  have hold : pos.getPositionPnl = pos.getPositionPnlAt pos.lastPrice := rfl
  unfold netQty at hshift
  simp only [profitGap, tradedValue, hat, hold, hlast, hshift, hqty, hmul]
  ring

theorem Accounted.marketData (h : Accounted c0 events m) (tick : CTickData) :
    Accounted c0 (events ++ [.marketData tick]) (m.onMarketData tick) := by
  have hsame : ∀ inst buy,
      notional buy inst (events ++ [.marketData tick]) = notional buy inst events := by
    intro inst buy
    simp [notional_append, fillNotional]
  unfold TestPositionManager.onMarketData
  refine ⟨?_, ?_, ?_, ?_⟩
  · intro inst pos hpos
    rw [TestPositionManager.find?_updatePrice] at hpos
    split_ifs at hpos with hinst
    · obtain ⟨pos', hpos', rfl⟩ := Option.map_eq_some_iff.mp hpos
      exact (h.flagged inst pos' hpos').updatePrice _
    · exact h.flagged inst pos hpos
  · intro inst pos hpos
    rw [TestPositionManager.find?_updatePrice] at hpos
    split_ifs at hpos with hinst
    · obtain ⟨pos', hpos', rfl⟩ := Option.map_eq_some_iff.mp hpos
      exact h.multiplier inst pos' hpos'
    · exact h.multiplier inst pos hpos
  · intro inst hnone buy
    rw [TestPositionManager.find?_updatePrice] at hnone
    rw [hsame]
    apply h.untouched inst
    split_ifs at hnone with hinst
    · exact Option.map_eq_none_iff.mp hnone
    · exact hnone
  · rw [TestPositionManager.cash_updatePrice, ← h.balanced]
    congr 1
    unfold TestPositionManager.updatePrice TestPositionManager.setPosition
    cases hfind : m.allPositions.find? tick.instIndex with
    | none =>
        apply OrderedMap.sumEntries_congr
        intro inst pos _
        exact profitGap_congr (hsame inst) pos
    | some pos =>
        apply OrderedMap.sumEntries_insert_eq
        · intro inst pos' _
          exact profitGap_congr (hsame inst) pos'
        · rw [hfind, Option.elim_some, profitGap_congr (hsame _)]
          exact profitGap_updatePrice (h.flagged _ pos hfind) (h.multiplier _ pos hfind) _

/-- The day start moves the whole profit of a position into cash. -/
theorem profitGap_startDay {pos : CPosition} (hflag : WellFlagged pos) (inst : ℕ) :
    profitGap events inst (TestPositionManager.startDayPosition pos) + pos.getPositionPnl =
      profitGap events inst pos := by
  have hpnl : (TestPositionManager.startDayPosition pos).getPositionPnl = 0 :=
    getPositionPnl_resetPnl hflag
  have hqty := TestPositionManager.bucketQty_startDayPosition pos
  have hlast : (TestPositionManager.startDayPosition pos).lastPrice = pos.lastPrice :=
    lastPrice_resetPnl pos
  simp only [profitGap, tradedValue, hpnl, hqty, hlast]
  ring

theorem WellFlagged.startDay {pos : CPosition} (h : WellFlagged pos) :
    WellFlagged (TestPositionManager.startDayPosition pos) := by
  intro t item hitem
  rw [TestPositionManager.getPositions_startDayPosition] at hitem
  exact h.resetPnl t item hitem

theorem Accounted.startDay (h : Accounted c0 events m) (date : ℕ) :
    Accounted c0 (events ++ [.startDay date]) (m.onStartDay date) := by
  have hsame : ∀ inst buy,
      notional buy inst (events ++ [.startDay date]) = notional buy inst events := by
    intro inst buy
    simp [notional_append, fillNotional]
  refine ⟨?_, ?_, ?_, ?_⟩
  · intro inst pos hpos
    rw [TestPositionManager.find?_onStartDay] at hpos
    obtain ⟨pos', hpos', rfl⟩ := Option.map_eq_some_iff.mp hpos
    exact WellFlagged.startDay (h.flagged inst pos' hpos')
  · intro inst pos hpos
    rw [TestPositionManager.find?_onStartDay] at hpos
    obtain ⟨pos', hpos', rfl⟩ := Option.map_eq_some_iff.mp hpos
    rw [← h.multiplier inst pos' hpos']
    exact unitMultiplier_resetPnl pos'
  · intro inst hnone buy
    rw [TestPositionManager.find?_onStartDay] at hnone
    rw [hsame, h.untouched inst (Option.map_eq_none_iff.mp hnone)]
  · have hsum : m.allPositions.sumEntries (profitGap events) =
        (m.allPositions.sumEntries fun inst pos =>
          profitGap (events ++ [.startDay date]) inst
            (TestPositionManager.startDayPosition pos)) +
        m.allPositions.sumEntries fun _ pos => pos.getPositionPnl := by
      rw [← OrderedMap.sumEntries_add]
      apply OrderedMap.sumEntries_congr
      intro inst pos hpos
      rw [profitGap_congr (hsame inst), profitGap_startDay (h.flagged inst pos hpos)]
    rw [← h.balanced, hsum]
    simp only [TestPositionManager.onStartDay, TestPositionManager.resetPositionTodayToYst,
      OrderedMap.sumEntries_mapValues]
    ring

end Steps

theorem Accounted.step {c0 : ℚ} {events : List PortfolioEvent} {m : TestPositionManager}
    (h : Accounted c0 events m) (event : PortfolioEvent) (hcovered : CoveredFill m event) :
    Accounted c0 (events ++ [event]) (stepEvent m event) := by
  cases event with
  | updateOrder order => exact h.updateOrder order hcovered
  | marketData tick => exact h.marketData tick
  | startDay date => exact h.startDay date

theorem Accounted.run {c0 : ℚ} {before : List PortfolioEvent} {m : TestPositionManager}
    (h : Accounted c0 before m) (events : List PortfolioEvent)
    (hcovered : CoveredRun m events) :
    Accounted c0 (before ++ events) (runEvents m events) := by
  induction events generalizing before m with
  | nil => simpa [runEvents] using h
  | cons event events ih =>
      obtain ⟨hhead, htail⟩ := hcovered
      simpa [runEvents] using ih (h.step event hhead) htail

/-- Cash plus the profit of all positions equals the initial cash plus the
traded value of all instruments, after every run whose closes are covered.  An
instrument without a position was never traded. -/
theorem cash_add_pnl_eq (c0 : ℚ) (events : List PortfolioEvent)
    (hcovered : CoveredRun (TestPositionManager.init c0) events) :
    let m := runEvents (TestPositionManager.init c0) events
    (m.cash + m.allPositions.sumEntries fun _ pos => pos.getPositionPnl) =
        c0 + m.allPositions.sumEntries (tradedValue events) ∧
      ∀ inst, m.allPositions.find? inst = none → ∀ buy, notional buy inst events = 0 := by
  have hinv := (accounted_init c0).run events hcovered
  rw [List.nil_append] at hinv
  intro m
  refine ⟨?_, hinv.untouched⟩
  have hsplit : (m.allPositions.sumEntries fun _ pos => pos.getPositionPnl) =
      m.allPositions.sumEntries (profitGap events) +
        m.allPositions.sumEntries (tradedValue events) := by
    rw [← OrderedMap.sumEntries_add]
    apply OrderedMap.sumEntries_congr
    intro inst pos _
    simp [profitGap]
  have hbalanced : m.cash + m.allPositions.sumEntries (profitGap events) = c0 :=
    hinv.balanced
  rw [hsplit, ← add_assoc, hbalanced]

def futureFill (inst qty : ℕ) (price : ℚ) (openclose : OpenCloseFlag)
    (longshort : LongShortFlag) : OrderDataDetail :=
  { requestid := 0, orderID := 0,
    order := .cffexOrder .shfe
      { instrumentID := inst, orderqty := qty, price := price, tradeprice := price,
        filledQty := qty, opencloseflag := openclose, pricetype := .limitOrder,
        timetype := .ioc, hedgeflag := .speculation, longshortflag := longshort,
        common := ⟨.orderFilled, .noError⟩ } }

def longRoundTrip : List PortfolioEvent :=
  [.updateOrder (futureFill 5220000 2 100 .flagOpen .flagLong),
    .marketData { instIndex := 5220000, lastPrice := 103 },
    .startDay 20150105,
    .updateOrder (futureFill 5220000 1 105 .flagCloseToday .flagShort)]

theorem cash_add_pnl_eq_longRoundTrip :
    let m := runEvents (TestPositionManager.init 1000) longRoundTrip
    (m.cash + m.allPositions.sumEntries fun _ pos => pos.getPositionPnl) =
        1000 + m.allPositions.sumEntries (tradedValue longRoundTrip) ∧
      ∀ inst, m.allPositions.find? inst = none →
        ∀ buy, notional buy inst longRoundTrip = 0 :=
  cash_add_pnl_eq 1000 longRoundTrip (by decide +kernel)

end BluesTrading.PortfolioConservation
