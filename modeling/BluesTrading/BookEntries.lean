import BluesTrading.StrategyLedger

namespace BluesTrading.BookEntries

open BluesTrading.Foundations
open BluesTrading.CloseCoverage
open BluesTrading.CloseSplit
open BluesTrading.OrderData
open BluesTrading.OrderManager
open BluesTrading.OrderOutcomes
open BluesTrading.PositionBook
open BluesTrading.PositionManager
open BluesTrading.SingleStrategy
open BluesTrading.StrategyLedger

/-- Two books have the same entry of an instrument, or both have none. -/
def SameEntry (inst : ℕ) (m m' : TestPositionManager) : Prop :=
  m'.allPositions.find? inst = m.allPositions.find? inst

namespace SameEntry

variable {inst : ℕ} {m m' m'' : TestPositionManager}

theorem refl (inst : ℕ) (m : TestPositionManager) : SameEntry inst m m := rfl

theorem trans (h : SameEntry inst m m') (h' : SameEntry inst m' m'') : SameEntry inst m m'' :=
  Eq.trans h' h

theorem symm (h : SameEntry inst m m') : SameEntry inst m' m := Eq.symm h

theorem getPosition (h : SameEntry inst m m') :
    (m'.getPosition inst).1 = (m.getPosition inst).1 := by
  rw [TestPositionManager.getPosition_fst, TestPositionManager.getPosition_fst, h]

/-- A look-up may create an entry, the same in both. -/
theorem lookUp (h : SameEntry inst m m') (j : ℕ) :
    SameEntry inst (m.getPosition j).2 (m'.getPosition j).2 := by
  rw [SameEntry, TestPositionManager.find?_getPosition, TestPositionManager.find?_getPosition]
  split_ifs with hsame
  · rw [← hsame, h.getPosition]
  · exact h

theorem lookUp_right (h : SameEntry inst m m') {j : ℕ} (hne : inst ≠ j) :
    SameEntry inst m (m'.getPosition j).2 := by
  rw [SameEntry, TestPositionManager.find?_getPosition, if_neg hne]
  exact h

theorem bookTrade (h : SameEntry inst m m') (j : ℕ) (status : OrderStatus) (trade : TradeInfo) :
    SameEntry inst (m.bookTrade j status trade) (m'.bookTrade j status trade) := by
  rw [SameEntry, TestPositionManager.find?_bookTrade, TestPositionManager.find?_bookTrade]
  split_ifs with hsame hstatus
  · rw [← hsame, h.getPosition]
  · rw [← hsame, h.getPosition]
  · exact h

theorem onMarketData (h : SameEntry inst m m') (data : CTickData) :
    SameEntry inst (m.onMarketData data) (m'.onMarketData data) := by
  rw [SameEntry, TestPositionManager.onMarketData, TestPositionManager.onMarketData,
    TestPositionManager.find?_updatePrice, TestPositionManager.find?_updatePrice, h]

theorem onMarketData_right (h : SameEntry inst m m') {data : CTickData}
    (hne : inst ≠ data.instIndex) : SameEntry inst m (m'.onMarketData data) := by
  rw [SameEntry, TestPositionManager.onMarketData, TestPositionManager.find?_updatePrice,
    if_neg hne]
  exact h

theorem onStartDay (h : SameEntry inst m m') (date : ℕ) :
    SameEntry inst (m.onStartDay date) (m'.onStartDay date) := by
  rw [SameEntry, TestPositionManager.find?_onStartDay, TestPositionManager.find?_onStartDay, h]

end SameEntry

/-! ### Requests -/

/-- What an order does to the book when it is filled. -/
def fill (order : OrderDataDetail) : ℕ × TradeInfo :=
  (orderInstrument order, orderTrade (tradeOrder order))

theorem fillAll_eq (m : TestPositionManager) (orders : List OrderDataDetail) :
    fillAll m orders =
      (orders.map fill).foldl (fun m each => m.bookTrade each.1 .orderFilled each.2) m := by
  rw [fillAll, List.foldl_map, List.foldl_map]
  congr 1
  funext m order
  rw [TestPositionManager.onUpdateOrder_eq, orderInstrument_tradeOrder, orderStatus_tradeOrder]
  rfl

theorem SameEntry.fillAll {inst : ℕ} {m m' : TestPositionManager} (h : SameEntry inst m m')
    {orders orders' : List OrderDataDetail} (hfills : orders'.map fill = orders.map fill) :
    SameEntry inst (fillAll m orders) (fillAll m' orders') := by
  rw [fillAll_eq, fillAll_eq, hfills]
  generalize orders.map fill = fills
  induction fills generalizing m m' with
  | nil => exact h
  | cons each fills ih => exact ih (h.bookTrade each.1 .orderFilled each.2)

section Request

variable {inst : ℕ} {m m' : TestPositionManager} (exch : FutureExchange)
  {request : FutureNewOrderRequest}

theorem SameEntry.checkNewOrderRequestValid (h : SameEntry request.instrumentID m m') :
    (checkNewOrderRequestValid m' (.futureNewOrder exch request)).1 =
        (checkNewOrderRequestValid m (.futureNewOrder exch request)).1 ∧
      SameEntry request.instrumentID
        (checkNewOrderRequestValid m (.futureNewOrder exch request)).2
        (checkNewOrderRequestValid m' (.futureNewOrder exch request)).2 := by
  simp only [OrderManager.checkNewOrderRequestValid, checkInventory, h.getPosition]
  split_ifs <;> first | exact ⟨rfl, h⟩ | exact ⟨rfl, h.lookUp _⟩

theorem SameEntry.generateFutureOrder (h : SameEntry request.instrumentID m m')
    (requestID requestID' : ℕ) (hint : OrderErrorCode) :
    (generateFutureOrder m' requestID' exch request hint).1.map fill =
        (generateFutureOrder m requestID exch request hint).1.map fill ∧
      SameEntry request.instrumentID (generateFutureOrder m requestID exch request hint).2
        (generateFutureOrder m' requestID' exch request hint).2 := by
  simp only [OrderManager.generateFutureOrder, h.getPosition]
  split_ifs <;> first | exact ⟨rfl, h⟩ | exact ⟨rfl, h.lookUp _⟩

theorem SameEntry.generateOrders (h : SameEntry request.instrumentID m m')
    (requestID requestID' : ℕ) :
    (FakeOrderManager.generateOrders m' requestID' (.futureNewOrder exch request)).1.map fill =
        (FakeOrderManager.generateOrders m requestID (.futureNewOrder exch request)).1.map fill ∧
      SameEntry request.instrumentID
        (FakeOrderManager.generateOrders m requestID (.futureNewOrder exch request)).2.2
        (FakeOrderManager.generateOrders m' requestID' (.futureNewOrder exch request)).2.2 := by
  obtain ⟨hcode, hchecked⟩ := h.checkNewOrderRequestValid exch
  simp only [FakeOrderManager.generateOrders, hcode]
  exact hchecked.generateFutureOrder exch requestID requestID' _

/-- The same request of two managers, for the instrument whose entry they share. -/
theorem SameEntry.submitRequest (byteOrder : ByteOrder) {mgr mgr' : FakeOrderManager}
    (h : SameEntry request.instrumentID mgr.posMgr mgr'.posMgr) :
    SameEntry request.instrumentID
      (mgr.submitRequest byteOrder (.futureNewOrder exch request)).2.1.posMgr
      (mgr'.submitRequest byteOrder (.futureNewOrder exch request)).2.1.posMgr := by
  have hcode := (h.checkNewOrderRequestValid exch).1
  obtain ⟨hfills, hentry⟩ := h.generateOrders exch
    (mgr.recordRequest byteOrder (.futureNewOrder exch request)).1
    (mgr'.recordRequest byteOrder (.futureNewOrder exch request)).1
  by_cases haccepted : Accepted mgr.posMgr (.futureNewOrder exch request)
  · rw [posMgr_submitRequest_fillAll mgr byteOrder haccepted,
      posMgr_submitRequest_fillAll mgr' byteOrder (hcode.trans haccepted)]
    exact hentry.fillAll hfills
  · rw [posMgr_submitRequest_of_rejected mgr byteOrder _ haccepted,
      posMgr_submitRequest_of_rejected mgr' byteOrder _ (hcode.trans_ne haccepted)]
    exact hentry

end Request

/-! ### Requests for another instrument -/

section Others

variable {inst : ℕ} {m m' : TestPositionManager}

theorem SameEntry.check_right (h : SameEntry inst m m') {request : OrderRequest}
    (hne : requestInstrument request ≠ some inst) :
    SameEntry inst m (OrderManager.checkNewOrderRequestValid m' request).2 := by
  cases request with
  | securityNewOrder exch request =>
      have hinst : inst ≠ request.instrumentID := fun heq => hne (congrArg some heq.symm)
      simp only [OrderManager.checkNewOrderRequestValid]
      split_ifs <;> first | exact h | exact h.lookUp_right hinst
  | futureNewOrder exch request =>
      have hinst : inst ≠ request.instrumentID := fun heq => hne (congrArg some heq.symm)
      simp only [OrderManager.checkNewOrderRequestValid, checkInventory]
      split_ifs <;> first | exact h | exact h.lookUp_right hinst
  | _ => exact h

theorem SameEntry.generateOrders_right (h : SameEntry inst m m') {request : OrderRequest}
    (hne : requestInstrument request ≠ some inst) (requestID : ℕ) :
    SameEntry inst m (FakeOrderManager.generateOrders m' requestID request).2.2 := by
  have hchecked := h.check_right hne
  cases request with
  | securityNewOrder exch request => exact hchecked
  | futureNewOrder exch request =>
      have hinst : inst ≠ request.instrumentID := fun heq => hne (congrArg some heq.symm)
      simp only [FakeOrderManager.generateOrders, OrderManager.generateFutureOrder]
      split_ifs <;> first | exact hchecked | exact hchecked.lookUp_right hinst
  | _ => exact h

theorem SameEntry.fillAll_right (h : SameEntry inst m m') {orders : List OrderDataDetail}
    (hne : ∀ order ∈ orders, orderInstrument order ≠ inst) :
    SameEntry inst m (CloseSplit.fillAll m' orders) := by
  induction orders generalizing m' with
  | nil => exact h
  | cons order orders ih =>
      obtain ⟨horder, horders⟩ := List.forall_mem_cons.mp hne
      refine ih ?_ horders
      rw [SameEntry, TestPositionManager.onUpdateOrder_eq, TestPositionManager.find?_bookTrade,
        orderInstrument_tradeOrder, if_neg horder.symm]
      exact h

/-- A request leaves the entries of the other instruments alone, whatever becomes of it. -/
theorem SameEntry.submitRequest_right (byteOrder : ByteOrder) {mgr : FakeOrderManager}
    (h : SameEntry inst m mgr.posMgr) {request : OrderRequest}
    (hne : requestInstrument request ≠ some inst) :
    SameEntry inst m (mgr.submitRequest byteOrder request).2.1.posMgr := by
  have hgenerated := h.generateOrders_right hne (mgr.recordRequest byteOrder request).1
  by_cases haccepted : Accepted mgr.posMgr request
  · rw [posMgr_submitRequest_fillAll mgr byteOrder haccepted]
    refine hgenerated.fillAll_right fun order hmem heq => hne ?_
    rw [← heq]
    exact orderInstrument_of_mem_generateOrders hmem
  · rw [posMgr_submitRequest_of_rejected mgr byteOrder request haccepted]
    exact hgenerated

end Others

end BluesTrading.BookEntries
