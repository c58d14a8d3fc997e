import BluesTrading.Backtest
import BluesTrading.UnitLedger

namespace BluesTrading.LotPacking

open BluesTrading.Foundations
open BluesTrading.Backtest
open BluesTrading.LegRuns
open BluesTrading.MarkPrice
open BluesTrading.MarketDataReplayer
open BluesTrading.OrderData
open BluesTrading.OrderManager
open BluesTrading.PortfolioConservation
open BluesTrading.PositionBook
open BluesTrading.PositionManager
open BluesTrading.SingleStrategy
open BluesTrading.StrategyDay
open BluesTrading.StrategyLedger
open BluesTrading.UnitLedger

/-! ### The book -/

/-- Two books with the same units. -/
structure SameUnits (m m' : TestPositionManager) : Prop where
  ledger : ledger m' = ledger m
  flagged : Flagged m
  flagged' : Flagged m'

namespace SameUnits

variable {m m' : TestPositionManager}

theorem cash (h : SameUnits m m') : m'.cash = m.cash := congrArg Ledger.cash h.ledger

theorem shows (h : SameUnits m m') (inst : ℕ) :
    Shows ((UnitLedger.ledger m).book inst) (m'.getPosition inst).1 :=
  h.ledger ▸ h.flagged'.shows inst

theorem qty (h : SameUnits m m') (inst : ℕ) (t : PositionType) :
    ((m'.getPosition inst).1.getTotalQtyAmmount t).qty =
      ((m.getPosition inst).1.getTotalQtyAmmount t).qty :=
  ((h.shows inst).qty t).trans ((h.flagged.shows inst).qty t).symm

theorem stepBook (h : SameUnits m m') (event : BookEvent) :
    SameUnits (stepBook m event) (stepBook m' event) where
  ledger := by rw [ledger_stepBook h.flagged, ledger_stepBook h.flagged', h.ledger]
  flagged := h.flagged.step event
  flagged' := h.flagged'.step event

theorem lookUp (h : SameUnits m m') (inst : ℕ) :
    SameUnits (m.getPosition inst).2 (m'.getPosition inst).2 :=
  h.stepBook (.getPosition inst)

theorem lookUps (h : SameUnits m m') (legs : List Instrument) :
    SameUnits (legs.foldl (fun m leg => (m.getPosition leg.instIndex).2) m)
      (legs.foldl (fun m leg => (m.getPosition leg.instIndex).2) m') := by
  induction legs generalizing m m' with
  | nil => exact h
  | cons leg legs ih => exact ih (h.lookUp leg.instIndex)

/-! ### Requests -/

theorem checkNewOrderRequestValid (h : SameUnits m m') (request : OrderRequest) :
    (checkNewOrderRequestValid m' request).1 = (checkNewOrderRequestValid m request).1 ∧
      SameUnits (checkNewOrderRequestValid m request).2
        (checkNewOrderRequestValid m' request).2 := by
  cases request with
  | securityNewOrder exch request =>
      simp only [OrderManager.checkNewOrderRequestValid, h.cash, h.qty]
      split_ifs <;> first | exact ⟨rfl, h⟩ | exact ⟨rfl, h.lookUp _⟩
  | futureNewOrder exch request =>
      simp only [OrderManager.checkNewOrderRequestValid, checkInventory, h.qty]
      split_ifs <;> first | exact ⟨rfl, h⟩ | exact ⟨rfl, h.lookUp _⟩
  | _ => exact ⟨rfl, h⟩

theorem generateOrders (h : SameUnits m m') (requestID : ℕ) (request : OrderRequest) :
    (FakeOrderManager.generateOrders m' requestID request).1 =
        (FakeOrderManager.generateOrders m requestID request).1 ∧
      (FakeOrderManager.generateOrders m' requestID request).2.1 =
        (FakeOrderManager.generateOrders m requestID request).2.1 ∧
      SameUnits (FakeOrderManager.generateOrders m requestID request).2.2
        (FakeOrderManager.generateOrders m' requestID request).2.2 := by
  obtain ⟨hcode, hchecked⟩ := h.checkNewOrderRequestValid request
  cases request with
  | securityNewOrder exch request =>
      simp only [FakeOrderManager.generateOrders, generateSecurityOrder, hcode, true_and]
      exact hchecked
  | futureNewOrder exch request =>
      simp only [FakeOrderManager.generateOrders, generateFutureOrder, hcode, hchecked.qty]
      split_ifs <;> first | exact ⟨rfl, trivial, hchecked⟩ | exact ⟨rfl, trivial, hchecked.lookUp _⟩
  | _ => exact ⟨rfl, rfl, h⟩

end SameUnits

/-- Two order managers that differ in the items of their books at most. -/
structure SameManager (mgr mgr' : FakeOrderManager) : Prop where
  requests : mgr'.requests = mgr.requests
  orders : mgr'.orders = mgr.orders
  requestID : mgr'.requestID = mgr.requestID
  orderdataSubscribers : mgr'.orderdataSubscribers = mgr.orderdataSubscribers
  posMgr : SameUnits mgr.posMgr mgr'.posMgr

namespace SameManager

variable {mgr mgr' : FakeOrderManager}

theorem setBook (h : SameManager mgr mgr') {m m' : TestPositionManager} (hbook : SameUnits m m') :
    SameManager { mgr with posMgr := m } { mgr' with posMgr := m' } :=
  ⟨h.requests, h.orders, h.requestID, h.orderdataSubscribers, hbook⟩

theorem storeOrder (h : SameManager mgr mgr') (order : OrderDataDetail) :
    SameManager (mgr.storeOrder order) (mgr'.storeOrder order) :=
  ⟨h.requests, congrArg (·.insert order.orderID order) h.orders, h.requestID,
    h.orderdataSubscribers, h.posMgr⟩

theorem fillOrder (h : SameManager mgr mgr') (order : OrderDataDetail) :
    SameManager (mgr.fillOrder order) (mgr'.fillOrder order) :=
  (h.storeOrder (tradeOrder order)).setBook (h.posMgr.stepBook (.updateOrder (tradeOrder order)))

theorem notifyOrder (h : SameManager mgr mgr') (order : OrderDataDetail) :
    mgr'.notifyOrder order = mgr.notifyOrder order := by
  rw [FakeOrderManager.notifyOrder, FakeOrderManager.notifyOrder, h.orderdataSubscribers]

theorem handleOrder (h : SameManager mgr mgr') (code : OrderErrorCode)
    (told : List Notification) (order : OrderDataDetail) :
    (FakeOrderManager.handleOrder code (mgr', told) order).2 =
        (FakeOrderManager.handleOrder code (mgr, told) order).2 ∧
      SameManager (FakeOrderManager.handleOrder code (mgr, told) order).1
        (FakeOrderManager.handleOrder code (mgr', told) order).1 := by
  have hstored := h.storeOrder order
  unfold FakeOrderManager.handleOrder
  dsimp only
  rw [hstored.notifyOrder]
  split_ifs
  · have hfilled := hstored.fillOrder order
    rw [hfilled.notifyOrder]
    exact ⟨rfl, hfilled⟩
  · exact ⟨rfl, hstored⟩

theorem handleOrders (h : SameManager mgr mgr') (code : OrderErrorCode)
    (orders : List OrderDataDetail) (told : List Notification) :
    (orders.foldl (FakeOrderManager.handleOrder code) (mgr', told)).2 =
        (orders.foldl (FakeOrderManager.handleOrder code) (mgr, told)).2 ∧
      SameManager (orders.foldl (FakeOrderManager.handleOrder code) (mgr, told)).1
        (orders.foldl (FakeOrderManager.handleOrder code) (mgr', told)).1 := by
  induction orders generalizing mgr mgr' told with
  | nil => exact ⟨rfl, h⟩
  | cons order orders ih =>
      obtain ⟨htold, hhandled⟩ := h.handleOrder code told order
      rw [List.foldl_cons, List.foldl_cons]
      cases hstate : FakeOrderManager.handleOrder code (mgr, told) order with
      | mk mgr₁ told₁ =>
          cases hstate' : FakeOrderManager.handleOrder code (mgr', told) order with
          | mk mgr₁' told₁' =>
              rw [hstate, hstate'] at htold hhandled
              obtain rfl : told₁' = told₁ := htold
              exact ih hhandled told₁'

/-- A request gets the same answer and the same notifications. -/
theorem submitRequest (h : SameManager mgr mgr') (byteOrder : ByteOrder)
    (request : OrderRequest) :
    (mgr'.submitRequest byteOrder request).1 = (mgr.submitRequest byteOrder request).1 ∧
      (mgr'.submitRequest byteOrder request).2.2 = (mgr.submitRequest byteOrder request).2.2 ∧
      SameManager (mgr.submitRequest byteOrder request).2.1
        (mgr'.submitRequest byteOrder request).2.1 := by
  have hid : (mgr'.recordRequest byteOrder request).1 = (mgr.recordRequest byteOrder request).1 :=
    congrArg byteOrder.requestID h.requestID
  have hrecorded : SameManager (mgr.recordRequest byteOrder request).2
      (mgr'.recordRequest byteOrder request).2 := by
    refine ⟨?_, h.orders, congrArg (fun id => (id + 2) % 2 ^ 32) h.requestID,
      h.orderdataSubscribers, h.posMgr⟩
    change mgr'.requests.insert _ request = mgr.requests.insert _ request
    rw [h.requests, h.requestID]
  obtain ⟨horders, hcode, hbook⟩ :=
    h.posMgr.generateOrders (mgr.recordRequest byteOrder request).1 request
  refine ⟨?_, ?_⟩
  · cases request <;> first | exact congrArg some hid | rfl
  · rw [FakeOrderManager.submitRequest_eq, FakeOrderManager.submitRequest_eq, hid,
      FakeOrderManager.handleOrders, FakeOrderManager.handleOrders, horders, hcode]
    exact (hrecorded.setBook hbook).handleOrders _ _ []

end SameManager

/-! ### The strategy -/

/-- Two strategies that differ in the items of their books at most. -/
structure SameState (s t : State) : Prop where
  globalParas : t.globalParas = s.globalParas
  pInstruments : t.pInstruments = s.pInstruments
  orderManager : SameManager s.orderManager t.orderManager

theorem keptByOrdersOf_sameManager (byteOrder : ByteOrder) (inst : ℕ) :
    KeptByOrdersOf byteOrder inst SameManager :=
  fun _ _ request _ h => (h.submitRequest byteOrder (.futureNewOrder .shfe request)).2.2

section Step

variable (byteOrder : ByteOrder) (libm : MathLibrary) (self : ℕ)

theorem SameState.onMarketData {s t : State} (h : SameState s t) (data : CTickData) (now : ℕ) :
    Option.Rel SameState (s.onMarketData byteOrder libm data now)
      (t.onMarketData byteOrder libm data now) := by
  obtain ⟨_, _, mgr⟩ := s
  obtain ⟨paras, legs, mgr'⟩ := t
  obtain ⟨rfl, rfl, hmgr⟩ := h
  change Option.Rel SameState (State.onMarketData byteOrder libm ⟨paras, legs, mgr⟩ data now)
    (State.onMarketData byteOrder libm ⟨paras, legs, mgr'⟩ data now)
  unfold State.onMarketData State.getInstrumentLeg
  cases legs.findIdx? fun leg => leg.instIndex = data.instIndex with
  | none => exact .none
  | some i =>
      cases hleg : legs[i]? with
      | none => simp only [Option.bind_some, hleg, Option.bind_none]; exact .none
      | some leg =>
          simp only [Option.bind_some, hleg]
          apply rel_map_map (Alike.onTick (x := (leg, mgr)) (y := (leg, mgr')) byteOrder libm
            paras data now (keptByOrdersOf_sameManager byteOrder _) ⟨rfl, hmgr⟩)
          rintro ⟨leg₁, mgr₁⟩ ⟨_, mgr₁'⟩ ⟨rfl, hmgr₁⟩
          exact ⟨rfl, rfl, hmgr₁⟩

theorem SameState.step {s t : State} (h : SameState s t) (a : Action) :
    Option.Rel SameState (step byteOrder libm self s a) (step byteOrder libm self t a) := by
  have hmgr := h.orderManager
  cases a with
  | startDay =>
      refine .some ⟨h.globalParas, ?_, hmgr.requests, hmgr.orders, hmgr.requestID, ?_, hmgr.posMgr⟩
      · rw [State.onStartDay, State.onStartDay, h.pInstruments, h.globalParas]
      · exact congrArg (·.insert self 0) hmgr.orderdataSubscribers
  | startDayOrders date =>
      exact .some ⟨h.globalParas, h.pInstruments, hmgr.requests, rfl, hmgr.requestID,
        hmgr.orderdataSubscribers, hmgr.posMgr⟩
  | startDayBook date =>
      exact .some ⟨h.globalParas, h.pInstruments,
        hmgr.setBook (hmgr.posMgr.stepBook (.startDay date))⟩
  | marketData data now => exact h.onMarketData byteOrder libm data now
  | marketDataBook data =>
      exact .some ⟨h.globalParas, h.pInstruments,
        hmgr.setBook (hmgr.posMgr.stepBook (.marketData data))⟩
  | timer eventID =>
      refine .some ⟨?_, ?_, ?_⟩
      all_goals unfold State.onTimer
      · split_ifs
        · unfold State.updateMA
          rw [h.globalParas, h.pInstruments]
        · exact h.globalParas
      · split_ifs
        · rw [State.pInstruments_updateMA, State.pInstruments_updateMA, h.globalParas,
            h.pInstruments]
        · exact h.pInstruments
      · split_ifs <;> exact hmgr
  | endDay =>
      refine .some ⟨h.globalParas, h.pInstruments, hmgr.setBook ?_⟩
      rw [h.pInstruments]
      exact hmgr.posMgr.lookUps s.pInstruments
  | otherRequest request =>
      rw [SingleStrategy.step, SingleStrategy.step, h.pInstruments]
      split_ifs
      · exact .none
      · exact .some ⟨h.globalParas, rfl, (hmgr.submitRequest byteOrder request).2.2⟩

end Step

/-! ### The log -/

theorem SameState.eodRow {s t : State} (h : SameState s t) (date : ℕ) (leg : Instrument) :
    eodRow date t.globalParas t.orderManager.posMgr leg =
      eodRow date s.globalParas s.orderManager.posMgr leg := by
  have hbook := h.orderManager.posMgr
  have hshows := hbook.flagged.shows leg.instIndex
  have hshows' := hbook.shows leg.instIndex
  rw [Backtest.eodRow, Backtest.eodRow, h.globalParas, hshows.tradeCount, hshows'.tradeCount,
    hshows.getPositionPnl, hshows'.getPositionPnl]

/-- Two strategies that have logged the same and differ in the items of their books at most. -/
structure SameLog (l l' : Logged) : Prop where
  state : SameState l.state l'.state
  rows : l'.rows = l.rows

theorem SameLog.call (byteOrder : ByteOrder) (libm : MathLibrary) (self : ℕ) {l l' : Logged}
    (h : SameLog l l') (c : Call) :
    Option.Rel SameLog (l.call byteOrder libm self c) (l'.call byteOrder libm self c) := by
  have hlogged : logged c l'.state = logged c l.state := by
    cases c with
    | endDay date =>
        rw [logged, logged, h.state.pInstruments]
        exact List.map_congr_left fun leg _ => h.state.eodRow date leg
    | _ => rfl
  rw [Logged.call, Logged.call, hlogged, h.rows]
  exact rel_map_map (h.state.step byteOrder libm self (action c)) fun _ _ hstate => ⟨hstate, rfl⟩

/-- A backtest logs the same, gives out the same orders and ends with the same units, whatever the
items are that the units of its book are packed in when it starts. -/
theorem results_of_sameState {byteOrder : ByteOrder} {libm : MathLibrary} {self book : ℕ}
    {tickConsumers : List ℕ} {days : List MarketDataReplayerMultiThread}
    (hdays : ∀ day ∈ days, Replayable day) {s t : State} (h : SameState s t) {l : Logged}
    (hresults : Results byteOrder libm self book tickConsumers s days l) :
    ∃ l', Results byteOrder libm self book tickConsumers t days l' ∧ l'.rows = l.rows ∧
      l'.state.pInstruments = l.state.pInstruments ∧
      l'.state.orderManager.orders = l.state.orderManager.orders ∧
      l'.state.orderManager.posMgr.cash = l.state.orderManager.posMgr.cash ∧
      SameUnits l.state.orderManager.posMgr l'.state.orderManager.posMgr := by
  rw [results_iff_run hdays] at hresults
  obtain ⟨l', hrun, hlog⟩ := hresults.exists_of_rel
    (fun _ _ c hlog => hlog.call byteOrder libm self c) (⟨h, rfl⟩ : SameLog ⟨s, []⟩ ⟨t, []⟩)
  exact ⟨l', (results_iff_run hdays).mpr hrun, hlog.rows, hlog.state.pInstruments,
    hlog.state.orderManager.orders, hlog.state.orderManager.posMgr.cash,
    hlog.state.orderManager.posMgr⟩

/-- The pair with two units of gold, bought in one fill or in several. -/
def boughtIn (fills : List ℕ) : State :=
  .configured (dayParas true) [(['a'], oneLot), (['c', 'u'], oneLot)]
    { newManager 0 with
      posMgr := runBook 0 (fills.map fun qty =>
        .updateOrder (futureFill 10200000 qty 100 .flagOpen .flagLong)) }

theorem sameState_boughtIn : SameState (boughtIn [2]) (boughtIn [1, 1]) where
  globalParas := rfl
  pInstruments := rfl
  orderManager :=
    { requests := rfl
      orders := rfl
      requestID := rfl
      orderdataSubscribers := rfl
      posMgr :=
        { ledger := by
            change ledger (runBook 0 _) = ledger (runBook 0 _)
            rw [ledger_runBook, ledger_runBook]
            exact Ledger.fill_fill (.init 0) 10200000 ⟨100, 0, true, true, true⟩ 1 1
          flagged := flagged_runBook 0 _
          flagged' := flagged_runBook 0 _ } }

theorem results_of_sameState_boughtIn :
    ∃ l l', Results .littleEndian exactMath 0 1 [0, 1] (boughtIn [2]) [pairReplayer] l ∧
      Results .littleEndian exactMath 0 1 [0, 1] (boughtIn [1, 1]) [pairReplayer] l' ∧
      l'.rows = l.rows := by
  have hlegs : (boughtIn [2]).pInstruments = pair.pInstruments := rfl
  have hticks : ∀ day ∈ [pairReplayer], ∀ tick ∈ day.allTicks,
      tick.instIndex ∈ (boughtIn [2]).pInstruments.map (·.instIndex) := by
    rw [hlegs]
    exact indexes_pairReplayer
  obtain ⟨l, hresults, -⟩ := exists_results .littleEndian exactMath 0 1 [0, 1] (by decide)
    (by decide +kernel) replayable_pairReplayer hticks
  obtain ⟨l', hresults', hrows, -⟩ :=
    results_of_sameState replayable_pairReplayer sameState_boughtIn hresults
  exact ⟨l, l', hresults, hresults', hrows⟩

end BluesTrading.LotPacking
