import BluesTrading.PositionManager

/-!
`FakeOrderManager`: it checks a request against the book, generates the orders
of the request and fills every accepted order at once.  Each order is stored
under its order id and shown to the subscribers when it is new and again when
it is filled.  The consumers' answer to a notification is not part of these
functions.
-/

namespace BluesTrading.OrderManager

open BluesTrading.Foundations
open BluesTrading.OrderData
open BluesTrading.PositionBook
open BluesTrading.PositionManager

/-- Which half of the `SenderID` overlaps the low half of `requestID`. -/
inductive ByteOrder
  | littleEndian
  | bigEndian
  deriving DecidableEq

/-- The 64-bit request id that overlaps a `SenderID` with update mask 0. -/
def ByteOrder.requestID : ByteOrder → ℕ → ℕ
  | .littleEndian, senderRequestID => senderRequestID * 2 ^ 32
  | .bigEndian, senderRequestID => senderRequestID

/-- `FakeOrderManager` with the position manager it points to.  `orders` maps
order ids, `requestID` is the 32-bit request counter. -/
structure FakeOrderManager where
  requests : OrderedMap ℕ OrderRequest
  orders : OrderedMap ℕ OrderDataDetail
  requestID : ℕ
  posMgr : TestPositionManager
  orderdataSubscribers : OrderedMap ℕ ℕ

structure Notification where
  consumer : ℕ
  order : OrderDataDetail
  deriving DecidableEq

/-- The inventory test of a closing request against both buckets of a side; the
32-bit totals are added without widening. -/
def checkInventory (m : TestPositionManager) (inst orderqty : ℕ)
    (ystPosType todayPosType : PositionType) : OrderErrorCode × TestPositionManager :=
  let (pos, m') := m.getPosition inst
  let qtyAmmountYst := pos.getTotalQtyAmmount ystPosType
  let qtyAmmount := pos.getTotalQtyAmmount todayPosType
  if orderqty > (qtyAmmountYst.qty + qtyAmmount.qty) % 2 ^ 32 then (.notEnoughInventory, m')
  else (.noError, m')

/-- The error code of a new order.  A closing request without a side passes
unchecked.  Looking a position up may create it. -/
def checkNewOrderRequestValid (m : TestPositionManager) :
    OrderRequest → OrderErrorCode × TestPositionManager
  | .securityNewOrder _ request =>
      if request.longshortflag = .flagLong then
        if m.cash < request.orderqty * request.price then (.notEnoughCash, m) else (.noError, m)
      else if request.longshortflag = .flagShort then
        let (pos, m') := m.getPosition request.instrumentID
        if request.orderqty > (pos.getTotalQtyAmmount .longYst).qty then
          (.notEnoughInventory, m')
        else (.noError, m')
      else (.noError, m)
  | .futureNewOrder _ request =>
      if request.opencloseflag = .flagOpen then (.noError, m)
      else if request.longshortflag = .flagLong then
        checkInventory m request.instrumentID request.orderqty .shortYst .shortToday
      else if request.longshortflag = .flagShort then
        checkInventory m request.instrumentID request.orderqty .longYst .longToday
      else (.noError, m)
  | _ => (.noError, m)

def generateSecurityOrder (m : TestPositionManager) (requestID : ℕ) (exch : SecurityExchange)
    (request : SecurityNewOrderRequest) :
    OrderDataDetail × OrderErrorCode × TestPositionManager :=
  let (validCode, m') := checkNewOrderRequestValid m (.securityNewOrder exch request)
  let order : OrderDataDetail :=
    { requestid := requestID, orderID := requestID,
      order := .sseOrder exch
        { instrumentID := request.instrumentID, orderQty := request.orderqty, filledQty := 0,
          orderprice := request.price, tradeprice := 0,
          longshortflag := request.longshortflag,
          common :=
            { orderStatus := if validCode = .noError then .orderNew else .orderRejected,
              orderErrorCode := validCode } } }
  (order, validCode, m')

def futureOrder (requestID orderID : ℕ) (exch : FutureExchange)
    (request : FutureNewOrderRequest) (orderqty : ℕ) (opencloseflag : OpenCloseFlag)
    (common : CommonOrderStatusDetail) : OrderDataDetail :=
  { requestid := requestID, orderID := orderID,
    order := .cffexOrder exch
      { instrumentID := request.instrumentID, orderqty := orderqty, price := request.price,
        tradeprice := 0, filledQty := 0, opencloseflag := opencloseflag,
        pricetype := request.pricetype, timetype := request.timetype,
        hedgeflag := request.hedgeflag, longshortflag := request.longshortflag,
        common := common } }

/-- The buckets a closing request takes from: yesterday's and today's of the
other side.  Every flag but `flagLong` closes longs. -/
def closedBuckets (longshortflag : LongShortFlag) : PositionType × PositionType :=
  if longshortflag = .flagLong then (.shortYst, .shortToday) else (.longYst, .longToday)

/-- An accepted closing request takes what it can from today's bucket and the
rest from yesterday's; the second child gets the next order id. -/
def generateFutureOrder (m : TestPositionManager) (requestID : ℕ) (exch : FutureExchange)
    (request : FutureNewOrderRequest) (hint : OrderErrorCode) :
    List OrderDataDetail × TestPositionManager :=
  if hint ≠ .noError then
    ([futureOrder requestID requestID exch request request.orderqty request.opencloseflag
      ⟨.orderRejected, hint⟩], m)
  else if request.opencloseflag ≠ .flagOpen then
    let (_, todayPosType) := closedBuckets request.longshortflag
    let (pos, m') := m.getPosition request.instrumentID
    let todayQty := (pos.getTotalQtyAmmount todayPosType).qty
    let closeTodayQty := min todayQty request.orderqty
    let today :=
      if todayQty > 0 then
        [futureOrder requestID requestID exch request closeTodayQty .flagCloseToday
          ⟨.orderNew, hint⟩]
      else []
    let orderqty := if todayQty > 0 then request.orderqty - closeTodayQty else request.orderqty
    let yst :=
      if orderqty > 0 then
        [futureOrder requestID (requestID + 1) exch request orderqty .flagCloseYst
          ⟨.orderNew, hint⟩]
      else []
    (today ++ yst, m')
  else
    ([futureOrder requestID requestID exch request request.orderqty request.opencloseflag
      ⟨.orderNew, hint⟩], m)

theorem lookedUp_checkInventory (m : TestPositionManager) (inst orderqty : ℕ)
    (ystPosType todayPosType : PositionType) :
    m.LookedUp (checkInventory m inst orderqty ystPosType todayPosType).2 := by
  simp only [checkInventory]
  split_ifs <;> exact m.lookedUp_getPosition inst

theorem lookedUp_checkNewOrderRequestValid (m : TestPositionManager) (request : OrderRequest) :
    m.LookedUp (checkNewOrderRequestValid m request).2 := by
  cases request with
  | securityNewOrder exch request =>
      simp only [checkNewOrderRequestValid]
      split_ifs <;> first | exact m.lookedUp_refl | exact m.lookedUp_getPosition _
  | futureNewOrder exch request =>
      simp only [checkNewOrderRequestValid]
      split_ifs <;> first | exact m.lookedUp_refl | exact lookedUp_checkInventory m _ _ _ _
  | sseSecurityCancel blueOrderID => exact m.lookedUp_refl
  | sseSecurityModify newOrder blueOrderID => exact m.lookedUp_refl
  | unsupported requestType => exact m.lookedUp_refl

theorem lookedUp_generateFutureOrder (m : TestPositionManager) (requestID : ℕ)
    (exch : FutureExchange) (request : FutureNewOrderRequest) (hint : OrderErrorCode) :
    m.LookedUp (generateFutureOrder m requestID exch request hint).2 := by
  simp only [generateFutureOrder]
  split_ifs <;> first | exact m.lookedUp_refl | exact m.lookedUp_getPosition _

/-- Every generated order is a child of the request.  Its order id is the request
id, unless the order is for what today's bucket leaves over. -/
theorem exists_of_mem_generateFutureOrder {m : TestPositionManager} {requestID : ℕ}
    {exch : FutureExchange} {request : FutureNewOrderRequest} {hint : OrderErrorCode}
    {order : OrderDataDetail}
    (h : order ∈ (generateFutureOrder m requestID exch request hint).1) :
    ∃ orderID orderqty opencloseflag common,
      order = futureOrder requestID orderID exch request orderqty opencloseflag common ∧
      (opencloseflag = request.opencloseflag ∨ opencloseflag = .flagCloseToday ∨
        opencloseflag = .flagCloseYst) ∧
      (orderID = requestID ∨ hint = .noError ∧ request.opencloseflag ≠ .flagOpen ∧
        ((m.getPosition request.instrumentID).1.getTotalQtyAmmount
          (closedBuckets request.longshortflag).2).qty < request.orderqty) := by
  simp only [generateFutureOrder] at h
  split_ifs at h with hhint hflag htoday hleft hleft
  all_goals simp only [List.mem_append, List.mem_singleton, List.not_mem_nil, or_false,
    false_or] at h
  · exact ⟨_, _, _, _, h, .inl rfl, .inl rfl⟩
  · rcases h with h | h
    · exact ⟨_, _, _, _, h, .inr (.inl rfl), .inl rfl⟩
    · exact ⟨_, _, _, _, h, .inr (.inr rfl), .inr ⟨not_not.mp hhint, hflag, by omega⟩⟩
  · exact ⟨_, _, _, _, h, .inr (.inl rfl), .inl rfl⟩
  · exact ⟨_, _, _, _, h, .inr (.inr rfl), .inr ⟨not_not.mp hhint, hflag, by omega⟩⟩
  · exact ⟨_, _, _, _, h, .inl rfl, .inl rfl⟩

def fakeTradeOrder (order : SecurityOrderDetail) : SecurityOrderDetail :=
  { order with
    filledQty := order.orderQty
    tradeprice := order.orderprice
    common := { order.common with orderStatus := .orderFilled } }

def fakeFutureTradeOrder (order : FutureOrderDetail) : FutureOrderDetail :=
  { order with
    filledQty := order.orderqty
    tradeprice := order.price
    common := { order.common with orderStatus := .orderFilled } }

def tradeOrder (order : OrderDataDetail) : OrderDataDetail :=
  match order.order with
  | .sseOrder exch detail => { order with order := .sseOrder exch (fakeTradeOrder detail) }
  | .cffexOrder exch detail =>
      { order with order := .cffexOrder exch (fakeFutureTradeOrder detail) }

namespace FakeOrderManager

/-- Hand out the next request id; the counter leaves room for a second order. -/
def generateRequest (mgr : FakeOrderManager) (byteOrder : ByteOrder) : ℕ × FakeOrderManager :=
  (byteOrder.requestID mgr.requestID, { mgr with requestID := (mgr.requestID + 2) % 2 ^ 32 })

def notifyOrder (mgr : FakeOrderManager) (order : OrderDataDetail) : List Notification :=
  mgr.orderdataSubscribers.keys.map fun consumer => ⟨consumer, order⟩

def storeOrder (mgr : FakeOrderManager) (order : OrderDataDetail) : FakeOrderManager :=
  { mgr with orders := mgr.orders.insert order.orderID order }

def fillOrder (mgr : FakeOrderManager) (order : OrderDataDetail) : FakeOrderManager :=
  let filled := tradeOrder order
  { mgr.storeOrder filled with posMgr := mgr.posMgr.onUpdateOrder filled }

/-- The life of one generated order: stored, shown, and if the request was
accepted filled and shown again. -/
def handleOrder (code : OrderErrorCode) (state : FakeOrderManager × List Notification)
    (order : OrderDataDetail) : FakeOrderManager × List Notification :=
  let mgr := state.1.storeOrder order
  let told := state.2 ++ mgr.notifyOrder order
  if code = .noError then
    let mgr' := mgr.fillOrder order
    (mgr', told ++ mgr'.notifyOrder (tradeOrder order))
  else (mgr, told)

def handleSSECancel (mgr : FakeOrderManager) : FakeOrderManager := mgr

def handleSSEModify (mgr : FakeOrderManager) : FakeOrderManager := mgr

def handleSecurityNew (mgr : FakeOrderManager) (requestID : ℕ) (exch : SecurityExchange)
    (request : SecurityNewOrderRequest) : FakeOrderManager × List Notification :=
  let (order, code, m) := generateSecurityOrder mgr.posMgr requestID exch request
  handleOrder code ({ mgr with posMgr := m }, []) order

def handleFutureNew (mgr : FakeOrderManager) (requestID : ℕ) (exch : FutureExchange)
    (request : FutureNewOrderRequest) : FakeOrderManager × List Notification :=
  let (code, m) := checkNewOrderRequestValid mgr.posMgr (.futureNewOrder exch request)
  let (orderOfRequest, m') := generateFutureOrder m requestID exch request code
  orderOfRequest.foldl (handleOrder code) ({ mgr with posMgr := m' }, [])

def recordRequest (mgr : FakeOrderManager) (byteOrder : ByteOrder) (request : OrderRequest) :
    ℕ × FakeOrderManager :=
  let (requestID, mgr') := mgr.generateRequest byteOrder
  (requestID, { mgr' with requests := mgr'.requests.insert requestID request })

/-- The request id, or `none` for `UnknownRequestExceptionType`. -/
def submitRequest (mgr : FakeOrderManager) (byteOrder : ByteOrder) (request : OrderRequest) :
    Option ℕ × FakeOrderManager × List Notification :=
  let (requestID, recorded) := mgr.recordRequest byteOrder request
  match request with
  | .sseSecurityCancel _ => (some requestID, recorded.handleSSECancel, [])
  | .sseSecurityModify _ _ => (some requestID, recorded.handleSSEModify, [])
  | .securityNewOrder exch order =>
      (some requestID, recorded.handleSecurityNew requestID exch order)
  | .futureNewOrder exch order => (some requestID, recorded.handleFutureNew requestID exch order)
  | .unsupported _ => (none, recorded, [])

def generateOrders (m : TestPositionManager) (requestID : ℕ) :
    OrderRequest → List OrderDataDetail × OrderErrorCode × TestPositionManager
  | .securityNewOrder exch request =>
      let (order, code, m') := generateSecurityOrder m requestID exch request
      ([order], code, m')
  | .futureNewOrder exch request =>
      let (code, m') := checkNewOrderRequestValid m (.futureNewOrder exch request)
      let (orders, m'') := generateFutureOrder m' requestID exch request code
      (orders, code, m'')
  | _ => ([], .noError, m)

theorem lookedUp_generateOrders (m : TestPositionManager) (requestID : ℕ)
    (request : OrderRequest) : m.LookedUp (generateOrders m requestID request).2.2 := by
  cases request with
  | securityNewOrder exch request =>
      exact lookedUp_checkNewOrderRequestValid m (.securityNewOrder exch request)
  | futureNewOrder exch request =>
      exact (lookedUp_checkNewOrderRequestValid m (.futureNewOrder exch request)).trans
        (lookedUp_generateFutureOrder _ _ _ _ _)
  | sseSecurityCancel blueOrderID => exact m.lookedUp_refl
  | sseSecurityModify newOrder blueOrderID => exact m.lookedUp_refl
  | unsupported requestType => exact m.lookedUp_refl

def handleOrders (mgr : FakeOrderManager)
    (generated : List OrderDataDetail × OrderErrorCode × TestPositionManager) :
    FakeOrderManager × List Notification :=
  let (orders, code, m) := generated
  orders.foldl (handleOrder code) ({ mgr with posMgr := m }, [])

/-- Whatever the request, `submitRequest` records it, generates its orders and
handles them. -/
theorem submitRequest_eq (mgr : FakeOrderManager) (byteOrder : ByteOrder)
    (request : OrderRequest) :
    (mgr.submitRequest byteOrder request).2 =
      (mgr.recordRequest byteOrder request).2.handleOrders
        (generateOrders mgr.posMgr (mgr.recordRequest byteOrder request).1 request) := by
  cases request <;> rfl

def getOrderDetailByRequestID (mgr : FakeOrderManager) (requestID : ℕ) : List OrderDataDetail :=
  match mgr.orders.find? requestID with
  | some order => [order]
  | none => []

def getOrderDetailByOrderID (mgr : FakeOrderManager) (orderID : ℕ) : Option OrderDataDetail :=
  mgr.orders.values.find? fun each => each.orderID = orderID

/-- `getSingleOrderByOrderRequestID`; `none` is the read of the first element
of an empty vector. -/
def getSingleOrderByOrderRequestID (mgr : FakeOrderManager) (requestID : ℕ) :
    Option OrderDataDetail :=
  (mgr.getOrderDetailByRequestID requestID).head?

def onStartDay (mgr : FakeOrderManager) (_date : ℕ) : FakeOrderManager :=
  { mgr with orders := OrderedMap.empty }

end FakeOrderManager

def auRequest (orderqty : ℕ) (opencloseflag : OpenCloseFlag) (longshortflag : LongShortFlag) :
    OrderRequest :=
  .futureNewOrder .shfe
    { instrumentID := 5220000, orderqty := orderqty, price := 100,
      opencloseflag := opencloseflag, pricetype := .limitOrder, timetype := .ioc,
      hedgeflag := .speculation, longshortflag := longshortflag }

def newManager (cash : ℚ) : FakeOrderManager :=
  { requests := .empty, orders := .empty, requestID := 0,
    posMgr := TestPositionManager.init cash, orderdataSubscribers := .empty }

def longManager (today yst : List PositionItem) : FakeOrderManager :=
  { newManager 0 with
    posMgr := (TestPositionManager.init 0).setPosition 5220000
      { unitMultiplier := 100, longPosition := today, longPositionYst := yst } }

end BluesTrading.OrderManager
