import BluesTrading.OrderManager

namespace BluesTrading.OrderOutcomes

open BluesTrading.Foundations
open BluesTrading.OrderData
open BluesTrading.PositionBook
open BluesTrading.PositionManager
open BluesTrading.PositionUnits
open BluesTrading.OrderManager

/-! ### The members of the order union -/

def orderQty (order : OrderDataDetail) : ℕ :=
  match order.order with
  | .sseOrder _ o => o.orderQty
  | .cffexOrder _ o => o.orderqty

def filledQty (order : OrderDataDetail) : ℕ :=
  match order.order with
  | .sseOrder _ o => o.filledQty
  | .cffexOrder _ o => o.filledQty

def orderPrice (order : OrderDataDetail) : ℚ :=
  match order.order with
  | .sseOrder _ o => o.orderprice
  | .cffexOrder _ o => o.price

def tradePrice (order : OrderDataDetail) : ℚ :=
  match order.order with
  | .sseOrder _ o => o.tradeprice
  | .cffexOrder _ o => o.tradeprice

def errorCode (order : OrderDataDetail) : OrderErrorCode :=
  match order.order with
  | .sseOrder _ o => o.common.orderErrorCode
  | .cffexOrder _ o => o.common.orderErrorCode

structure NewOrder (order : OrderDataDetail) : Prop where
  status : orderStatus order = .orderNew
  filledQty : filledQty order = 0
  errorCode : errorCode order = .noError

structure Filled (order : OrderDataDetail) : Prop where
  status : orderStatus order = .orderFilled
  filledQty : filledQty order = orderQty order
  tradePrice : tradePrice order = orderPrice order
  errorCode : errorCode order = .noError

structure Rejected (order : OrderDataDetail) : Prop where
  status : orderStatus order = .orderRejected
  filledQty : filledQty order = 0
  errorCode : errorCode order ≠ .noError

theorem filled_tradeOrder {order : OrderDataDetail} (h : NewOrder order) :
    Filled (tradeOrder order) := by
  obtain ⟨requestid, orderID, detail⟩ := order
  cases detail with
  | sseOrder exch detail => exact ⟨rfl, rfl, rfl, h.errorCode⟩
  | cffexOrder exch detail => exact ⟨rfl, rfl, rfl, h.errorCode⟩

@[simp] theorem orderID_tradeOrder (order : OrderDataDetail) :
    (tradeOrder order).orderID = order.orderID := by
  unfold tradeOrder
  split <;> rfl

/-! ### What is generated -/

/-- How an order of a request with the error code looks before it is handled. -/
def Generated (code : OrderErrorCode) (order : OrderDataDetail) : Prop :=
  if code = .noError then NewOrder order else Rejected order ∧ errorCode order = code

theorem generated_generateSecurityOrder (m : TestPositionManager) (requestID : ℕ)
    (exch : SecurityExchange) (request : SecurityNewOrderRequest) :
    Generated (generateSecurityOrder m requestID exch request).2.1
      (generateSecurityOrder m requestID exch request).1 := by
  simp only [generateSecurityOrder]
  set code := (checkNewOrderRequestValid m (.securityNewOrder exch request)).1
  by_cases hcode : code = .noError
  · rw [Generated, if_pos hcode]
    exact ⟨if_pos hcode, rfl, hcode⟩
  · rw [Generated, if_neg hcode]
    exact ⟨⟨if_neg hcode, rfl, hcode⟩, rfl⟩

theorem generated_futureOrder {requestID orderID : ℕ} {exch : FutureExchange}
    {request : FutureNewOrderRequest} {orderqty : ℕ} {opencloseflag : OpenCloseFlag}
    {code : OrderErrorCode} :
    Generated code (futureOrder requestID orderID exch request orderqty opencloseflag
      ⟨if code = .noError then .orderNew else .orderRejected, code⟩) := by
  by_cases hcode : code = .noError
  · rw [Generated, if_pos hcode]
    exact ⟨if_pos hcode, rfl, hcode⟩
  · rw [Generated, if_neg hcode]
    exact ⟨⟨if_neg hcode, rfl, hcode⟩, rfl⟩

theorem generated_of_mem_generateFutureOrder {m : TestPositionManager} {requestID : ℕ}
    {exch : FutureExchange} {request : FutureNewOrderRequest} {hint : OrderErrorCode}
    {order : OrderDataDetail}
    (h : order ∈ (generateFutureOrder m requestID exch request hint).1) :
    Generated hint order := by
  have hfuture : ∀ orderID orderqty opencloseflag, Generated hint
      (futureOrder requestID orderID exch request orderqty opencloseflag
        ⟨if hint = .noError then .orderNew else .orderRejected, hint⟩) :=
    fun _ _ _ => generated_futureOrder
  simp only [generateFutureOrder] at h
  by_cases hhint : hint = .noError
  · simp only [hhint, if_true, ne_eq, not_true_eq_false, if_false] at h hfuture ⊢
    split_ifs at h with hflag htoday hleft hleft
    all_goals simp only [List.mem_append, List.mem_singleton, List.not_mem_nil, or_false,
      false_or] at h
    · exact h ▸ hfuture _ _ _
    · rcases h with h | h
      · exact h ▸ hfuture _ _ _
      · exact h ▸ hfuture _ _ _
    all_goals exact h ▸ hfuture _ _ _
  · simp only [hhint, if_false, ne_eq, not_false_eq_true, if_true] at h hfuture
    exact List.mem_singleton.mp h ▸ hfuture _ _ _

theorem nodup_generateFutureOrder (m : TestPositionManager) (requestID : ℕ)
    (exch : FutureExchange) (request : FutureNewOrderRequest) (hint : OrderErrorCode) :
    ((generateFutureOrder m requestID exch request hint).1.map
      OrderDataDetail.orderID).Nodup := by
  simp only [generateFutureOrder]
  split_ifs <;> simp [futureOrder]

theorem nodup_generateOrders (m : TestPositionManager) (requestID : ℕ) (request : OrderRequest) :
    ((FakeOrderManager.generateOrders m requestID request).1.map
      OrderDataDetail.orderID).Nodup := by
  cases request with
  | securityNewOrder exch request => exact List.nodup_singleton _
  | futureNewOrder exch request => exact nodup_generateFutureOrder _ _ _ _ _
  | sseSecurityCancel blueOrderID => exact List.nodup_nil
  | sseSecurityModify newOrder blueOrderID => exact List.nodup_nil
  | unsupported requestType => exact List.nodup_nil

/-- An accepted request has new orders, the order of a rejected one is rejected with its code. -/
theorem generated_of_mem_generateOrders {m : TestPositionManager} {requestID : ℕ}
    {request : OrderRequest} {order : OrderDataDetail}
    (h : order ∈ (FakeOrderManager.generateOrders m requestID request).1) :
    Generated (FakeOrderManager.generateOrders m requestID request).2.1 order := by
  cases request with
  | securityNewOrder exch request =>
      exact List.mem_singleton.mp h ▸ generated_generateSecurityOrder m requestID exch request
  | futureNewOrder exch request => exact generated_of_mem_generateFutureOrder h
  | sseSecurityCancel blueOrderID => cases h
  | sseSecurityModify newOrder blueOrderID => cases h
  | unsupported requestType => cases h

/-! ### What the consumers see -/

structure Observation where
  consumer : ℕ
  order : OrderDataDetail
  book : TestPositionManager
  deriving DecidableEq

def Observation.notification (seen : Observation) : Notification := ⟨seen.consumer, seen.order⟩

def observeOrder (mgr : FakeOrderManager) (order : OrderDataDetail) : List Observation :=
  mgr.orderdataSubscribers.keys.map fun consumer => ⟨consumer, order, mgr.posMgr⟩

/-- `handleOrder` with the book next to each notification. -/
def watchOrder (code : OrderErrorCode) (state : FakeOrderManager × List Observation)
    (order : OrderDataDetail) : FakeOrderManager × List Observation :=
  let mgr := state.1.storeOrder order
  let seen := state.2 ++ observeOrder mgr order
  if code = .noError then
    let mgr' := mgr.fillOrder order
    (mgr', seen ++ observeOrder mgr' (tradeOrder order))
  else (mgr, seen)

/-- `submitRequest` with the book next to each notification. -/
def watchRequest (mgr : FakeOrderManager) (byteOrder : ByteOrder) (request : OrderRequest) :
    FakeOrderManager × List Observation :=
  let (requestID, recorded) := mgr.recordRequest byteOrder request
  let (orders, code, m) := FakeOrderManager.generateOrders mgr.posMgr requestID request
  orders.foldl (watchOrder code) ({ recorded with posMgr := m }, [])

theorem map_observeOrder (mgr : FakeOrderManager) (order : OrderDataDetail) :
    (observeOrder mgr order).map Observation.notification = mgr.notifyOrder order := by
  simp [observeOrder, FakeOrderManager.notifyOrder, Observation.notification]

theorem foldl_watchOrder_told (code : OrderErrorCode) (orders : List OrderDataDetail)
    (mgr : FakeOrderManager) (seen : List Observation) :
    let watched := orders.foldl (watchOrder code) (mgr, seen)
    orders.foldl (FakeOrderManager.handleOrder code)
        (mgr, seen.map Observation.notification) =
      (watched.1, watched.2.map Observation.notification) := by
  induction orders generalizing mgr seen with
  | nil => rfl
  | cons order orders ih =>
      simp only [List.foldl_cons]
      by_cases hcode : code = .noError
      · simp only [watchOrder, FakeOrderManager.handleOrder, if_pos hcode]
        rw [← ih]
        simp [map_observeOrder]
      · simp only [watchOrder, FakeOrderManager.handleOrder, if_neg hcode]
        rw [← ih]
        simp [map_observeOrder]

/-- Without the books, what is seen is what `submitRequest` tells the consumers. -/
theorem watchRequest_told (mgr : FakeOrderManager) (byteOrder : ByteOrder)
    (request : OrderRequest) :
    (mgr.submitRequest byteOrder request).2 =
      ((watchRequest mgr byteOrder request).1,
        (watchRequest mgr byteOrder request).2.map Observation.notification) := by
  rw [FakeOrderManager.submitRequest_eq]
  exact foldl_watchOrder_told _ _ _ []

/-! ### One order after the other -/

/-- What a consumer has seen of an order. -/
def seenBy (consumer orderID : ℕ) (seen : List Observation) : List Observation :=
  seen.filter fun each => each.consumer = consumer ∧ each.order.orderID = orderID

/-- What is stored of a generated order in the end. -/
def settledOrder (code : OrderErrorCode) (order : OrderDataDetail) : OrderDataDetail :=
  if code = .noError then tradeOrder order else order

/-- What a consumer should see of a generated order. -/
def shownOrder (code : OrderErrorCode) (consumer : ℕ) (order : OrderDataDetail)
    (book : TestPositionManager) : List Observation :=
  ⟨consumer, order, book⟩ ::
    if code = .noError then
      [⟨consumer, tradeOrder order, book.onUpdateOrder (tradeOrder order)⟩]
    else []

theorem seenBy_append (consumer orderID : ℕ) (left right : List Observation) :
    seenBy consumer orderID (left ++ right) =
      seenBy consumer orderID left ++ seenBy consumer orderID right :=
  List.filter_append ..

theorem seenBy_observeOrder (mgr : FakeOrderManager) {consumer : ℕ}
    (hconsumer : consumer ∈ mgr.orderdataSubscribers.keys) (orderID : ℕ)
    (order : OrderDataDetail) :
    seenBy consumer orderID (observeOrder mgr order) =
      if order.orderID = orderID then [⟨consumer, order, mgr.posMgr⟩] else [] := by
  rw [seenBy, observeOrder, List.filter_map]
  split_ifs with hid
  · have hsingle : mgr.orderdataSubscribers.keys.filter (fun each => decide (each = consumer)) =
        [consumer] := by
      rw [List.filter_eq, List.count_eq_one_of_mem mgr.orderdataSubscribers.keys_nodup hconsumer]
      rfl
    simp only [Function.comp_def, hid, and_true]
    rw [hsingle]
    rfl
  · simp [Function.comp_def, hid]

section Fold

variable (code : OrderErrorCode) (state : FakeOrderManager × List Observation)
  (order : OrderDataDetail)

theorem subscribers_watchOrder :
    (watchOrder code state order).1.orderdataSubscribers = state.1.orderdataSubscribers := by
  simp only [watchOrder]
  split_ifs <;> rfl

theorem find?_watchOrder (k : ℕ) :
    (watchOrder code state order).1.orders.find? k =
      if k = order.orderID then some (settledOrder code order)
      else state.1.orders.find? k := by
  by_cases hcode : code = .noError
  · simp only [watchOrder, settledOrder, if_pos hcode]
    simp only [FakeOrderManager.fillOrder, FakeOrderManager.storeOrder, OrderedMap.find?_insert,
      orderID_tradeOrder]
    split_ifs <;> rfl
  · simp only [watchOrder, settledOrder, if_neg hcode]
    exact OrderedMap.find?_insert state.1.orders order.orderID k order

theorem seenBy_watchOrder {consumer : ℕ}
    (hconsumer : consumer ∈ state.1.orderdataSubscribers.keys) (orderID : ℕ) :
    seenBy consumer orderID (watchOrder code state order).2 =
      seenBy consumer orderID state.2 ++
        if order.orderID = orderID then shownOrder code consumer order state.1.posMgr else [] := by
  have hstored := seenBy_observeOrder (state.1.storeOrder order) hconsumer orderID order
  have hfilled := seenBy_observeOrder ((state.1.storeOrder order).fillOrder order) hconsumer
    orderID (tradeOrder order)
  rw [orderID_tradeOrder] at hfilled
  by_cases hcode : code = .noError
  · simp only [watchOrder, shownOrder, if_pos hcode, seenBy_append, hstored, hfilled]
    split_ifs
    · simp [FakeOrderManager.fillOrder, FakeOrderManager.storeOrder]
    · simp
  · simp only [watchOrder, shownOrder, if_neg hcode, seenBy_append, hstored]
    rfl

theorem posMgr_watchOrder (hcode : code ≠ .noError) :
    (watchOrder code state order).1.posMgr = state.1.posMgr := by
  simp only [watchOrder, if_neg hcode]
  rfl

variable (orders : List OrderDataDetail)

theorem subscribers_foldl_watchOrder :
    (orders.foldl (watchOrder code) state).1.orderdataSubscribers =
      state.1.orderdataSubscribers := by
  induction orders generalizing state with
  | nil => rfl
  | cons order orders ih => exact (ih _).trans (subscribers_watchOrder code state order)

theorem posMgr_foldl_watchOrder_noError :
    (orders.foldl (watchOrder .noError) state).1.posMgr =
      (orders.map tradeOrder).foldl TestPositionManager.onUpdateOrder state.1.posMgr := by
  induction orders generalizing state with
  | nil => rfl
  | cons order orders ih => exact ih _

theorem posMgr_foldl_watchOrder (hcode : code ≠ .noError) :
    (orders.foldl (watchOrder code) state).1.posMgr = state.1.posMgr := by
  induction orders generalizing state with
  | nil => rfl
  | cons order orders ih => exact (ih _).trans (posMgr_watchOrder code state order hcode)

/-- A stored order was stored before or is what has become of a handled one. -/
theorem stored_foldl_watchOrder {k : ℕ} {stored : OrderDataDetail}
    (h : (orders.foldl (watchOrder code) state).1.orders.find? k = some stored) :
    state.1.orders.find? k = some stored ∨
      ∃ order ∈ orders, order.orderID = k ∧ stored = settledOrder code order := by
  induction orders generalizing state with
  | nil => exact .inl h
  | cons order orders ih =>
      rcases ih _ h with hbefore | ⟨other, hother, hrest⟩
      · rw [find?_watchOrder] at hbefore
        split_ifs at hbefore with hk
        · exact .inr ⟨order, List.mem_cons_self, hk.symm, (Option.some.inj hbefore).symm⟩
        · exact .inl hbefore
      · exact .inr ⟨other, List.mem_cons_of_mem _ hother, hrest⟩

theorem find?_foldl_watchOrder_of_notMem {k : ℕ}
    (horders : k ∉ orders.map OrderDataDetail.orderID) :
    (orders.foldl (watchOrder code) state).1.orders.find? k = state.1.orders.find? k := by
  induction orders generalizing state with
  | nil => rfl
  | cons order orders ih =>
      rw [List.map_cons, List.mem_cons, not_or] at horders
      rw [List.foldl_cons, ih _ horders.2, find?_watchOrder, if_neg horders.1]

theorem find?_foldl_watchOrder (hnodup : (orders.map OrderDataDetail.orderID).Nodup)
    (hmem : order ∈ orders) :
    (orders.foldl (watchOrder code) state).1.orders.find? order.orderID =
      some (settledOrder code order) := by
  induction orders generalizing state with
  | nil => cases hmem
  | cons first orders ih =>
      obtain ⟨hfirst, hnodup⟩ := List.nodup_cons.mp hnodup
      rcases List.mem_cons.mp hmem with rfl | hmem
      · rw [List.foldl_cons, find?_foldl_watchOrder_of_notMem code _ orders hfirst,
          find?_watchOrder, if_pos rfl]
      · exact ih _ hnodup hmem

theorem seenBy_foldl_watchOrder_of_notMem {consumer orderID : ℕ}
    (hconsumer : consumer ∈ state.1.orderdataSubscribers.keys)
    (horders : orderID ∉ orders.map OrderDataDetail.orderID) :
    seenBy consumer orderID (orders.foldl (watchOrder code) state).2 =
      seenBy consumer orderID state.2 := by
  induction orders generalizing state with
  | nil => rfl
  | cons order orders ih =>
      rw [List.map_cons, List.mem_cons, not_or] at horders
      rw [List.foldl_cons, ih _ (by rwa [subscribers_watchOrder]) horders.2,
        seenBy_watchOrder code state order hconsumer, if_neg (Ne.symm horders.1), List.append_nil]

/-- Of each handled order a consumer sees what it should, with some book. -/
theorem exists_seenBy_foldl_watchOrder {consumer : ℕ}
    (hconsumer : consumer ∈ state.1.orderdataSubscribers.keys)
    (hnodup : (orders.map OrderDataDetail.orderID).Nodup) (hmem : order ∈ orders) :
    ∃ book, seenBy consumer order.orderID (orders.foldl (watchOrder code) state).2 =
      seenBy consumer order.orderID state.2 ++ shownOrder code consumer order book := by
  induction orders generalizing state with
  | nil => cases hmem
  | cons first orders ih =>
      have hnext : consumer ∈ (watchOrder code state first).1.orderdataSubscribers.keys := by
        rwa [subscribers_watchOrder]
      obtain ⟨hfirst, hnodup⟩ := List.nodup_cons.mp hnodup
      rcases List.mem_cons.mp hmem with rfl | hmem
      · refine ⟨state.1.posMgr, ?_⟩
        rw [List.foldl_cons, seenBy_foldl_watchOrder_of_notMem code _ orders hnext hfirst,
          seenBy_watchOrder code state order hconsumer, if_pos rfl]
      · obtain ⟨book, hbook⟩ := ih _ hnext hnodup hmem
        have hne : first.orderID ≠ order.orderID := fun h =>
          hfirst (h ▸ List.mem_map_of_mem hmem)
        refine ⟨book, hbook.trans ?_⟩
        rw [seenBy_watchOrder code state first hconsumer, if_neg hne, List.append_nil]

end Fold

/-! ### Every order of every request -/

/-- Nothing has been traded between two books. -/
structure Untraded (before after : TestPositionManager) : Prop where
  cash : after.cash = before.cash
  bucketQty : ∀ inst t, bucketQty (after.getPosition inst).1 t =
    bucketQty (before.getPosition inst).1 t
  realizedPnL : ∀ inst, (after.getPosition inst).1.realizedPnL =
    (before.getPosition inst).1.realizedPnL
  tradeCount : ∀ inst, (after.getPosition inst).1.tradeCount =
    (before.getPosition inst).1.tradeCount

theorem cash_checkNewOrderRequestValid (m : TestPositionManager) (request : OrderRequest) :
    (checkNewOrderRequestValid m request).2.cash = m.cash := by
  have hinventory : ∀ inst orderqty yst today,
      (checkInventory m inst orderqty yst today).2.cash = m.cash := by
    intro inst orderqty yst today
    simp only [checkInventory]
    split_ifs <;> exact m.cash_getPosition inst
  cases request with
  | securityNewOrder exch request =>
      simp only [checkNewOrderRequestValid]
      split_ifs <;> first | rfl | exact m.cash_getPosition _
  | futureNewOrder exch request =>
      simp only [checkNewOrderRequestValid]
      split_ifs <;> first | rfl | exact hinventory _ _ _ _
  | sseSecurityCancel blueOrderID => rfl
  | sseSecurityModify newOrder blueOrderID => rfl
  | unsupported requestType => rfl

theorem cash_generateOrders (m : TestPositionManager) (requestID : ℕ) (request : OrderRequest) :
    (FakeOrderManager.generateOrders m requestID request).2.2.cash = m.cash := by
  cases request with
  | securityNewOrder exch request =>
      exact cash_checkNewOrderRequestValid m (.securityNewOrder exch request)
  | futureNewOrder exch request =>
      rw [← cash_checkNewOrderRequestValid m (.futureNewOrder exch request)]
      simp only [FakeOrderManager.generateOrders, generateFutureOrder]
      split_ifs <;> first | rfl | exact TestPositionManager.cash_getPosition _ _
  | sseSecurityCancel blueOrderID => rfl
  | sseSecurityModify newOrder blueOrderID => rfl
  | unsupported requestType => rfl

theorem untraded_generateOrders (m : TestPositionManager) (requestID : ℕ)
    (request : OrderRequest) :
    Untraded m (FakeOrderManager.generateOrders m requestID request).2.2 := by
  have hlooked := FakeOrderManager.lookedUp_generateOrders m requestID request
  refine ⟨cash_generateOrders m requestID request, fun inst t => ?_, fun inst => ?_,
    fun inst => ?_⟩
  all_goals rw [hlooked.getPosition]

/-- The orders of a request as they are when `submitRequest` returns. -/
def createdOrders (mgr : FakeOrderManager) (byteOrder : ByteOrder) (request : OrderRequest) :
    List OrderDataDetail :=
  let (orders, code, _) := FakeOrderManager.generateOrders mgr.posMgr
    (mgr.recordRequest byteOrder request).1 request
  orders.map (settledOrder code)

def Accepted (m : TestPositionManager) (request : OrderRequest) : Prop :=
  (checkNewOrderRequestValid m request).1 = .noError

theorem code_generateOrders (m : TestPositionManager) (requestID : ℕ) (request : OrderRequest) :
    (FakeOrderManager.generateOrders m requestID request).2.1 =
      (checkNewOrderRequestValid m request).1 := by
  cases request <;> rfl

/-- How a request that turns one manager into another has dealt with one of its orders. -/
def Outcome (before after : FakeOrderManager) (seen : List Observation)
    (order : OrderDataDetail) : Prop :=
  (Filled order ∧ ∀ consumer ∈ before.orderdataSubscribers.keys, ∃ new book, NewOrder new ∧
    seenBy consumer order.orderID seen = [⟨consumer, new, book⟩,
      ⟨consumer, order, book.onUpdateOrder order⟩]) ∨
  (Rejected order ∧ Untraded before.posMgr after.posMgr ∧
    ∀ consumer ∈ before.orderdataSubscribers.keys, ∃ book,
      seenBy consumer order.orderID seen = [⟨consumer, order, book⟩])

theorem orderID_settledOrder (code : OrderErrorCode) (order : OrderDataDetail) :
    (settledOrder code order).orderID = order.orderID := by
  unfold settledOrder
  split_ifs
  · exact orderID_tradeOrder order
  · rfl

section Request

variable (mgr : FakeOrderManager) (byteOrder : ByteOrder) (request : OrderRequest)
  {order : OrderDataDetail}

theorem outcome_of_mem_createdOrders (h : order ∈ createdOrders mgr byteOrder request) :
    (watchRequest mgr byteOrder request).1.orders.find? order.orderID = some order ∧
      Outcome mgr (watchRequest mgr byteOrder request).1
        (watchRequest mgr byteOrder request).2 order := by
  let recorded := mgr.recordRequest byteOrder request
  let generated := FakeOrderManager.generateOrders mgr.posMgr recorded.1 request
  let start : FakeOrderManager × List Observation :=
    ({ recorded.2 with posMgr := generated.2.2 }, [])
  have hnodup := nodup_generateOrders mgr.posMgr recorded.1 request
  obtain ⟨order, horder, rfl⟩ := List.mem_map.mp h
  have hgenerated : Generated generated.2.1 order := generated_of_mem_generateOrders horder
  have hseen : ∀ consumer ∈ mgr.orderdataSubscribers.keys, ∃ book,
      seenBy consumer order.orderID (watchRequest mgr byteOrder request).2 =
        shownOrder generated.2.1 consumer order book := fun consumer hconsumer =>
    exists_seenBy_foldl_watchOrder generated.2.1 start order generated.1 hconsumer hnodup horder
  rw [orderID_settledOrder]
  refine ⟨find?_foldl_watchOrder generated.2.1 start order generated.1 hnodup horder, ?_⟩
  rw [Generated] at hgenerated
  change Outcome mgr _ _ (settledOrder generated.2.1 order)
  split_ifs at hgenerated with hcode
  · simp only [shownOrder, if_pos hcode] at hseen
    simp only [settledOrder, if_pos hcode]
    refine .inl ⟨filled_tradeOrder hgenerated, fun consumer hconsumer => ?_⟩
    obtain ⟨book, hbook⟩ := hseen consumer hconsumer
    exact ⟨order, book, hgenerated, by rw [orderID_tradeOrder, hbook]⟩
  · simp only [shownOrder, if_neg hcode] at hseen
    simp only [settledOrder, if_neg hcode]
    refine .inr ⟨hgenerated.1, ?_, hseen⟩
    have hbook : (watchRequest mgr byteOrder request).1.posMgr = generated.2.2 :=
      posMgr_foldl_watchOrder generated.2.1 start generated.1 hcode
    rw [hbook]
    exact untraded_generateOrders mgr.posMgr recorded.1 request

theorem stored_watchRequest {k : ℕ}
    (h : (watchRequest mgr byteOrder request).1.orders.find? k = some order) :
    mgr.orders.find? k = some order ∨ order ∈ createdOrders mgr byteOrder request := by
  refine (stored_foldl_watchOrder _ _ _ h).imp_right ?_
  rintro ⟨order, horder, -, rfl⟩
  exact List.mem_map_of_mem horder

theorem createdOrders_of_accepted (h : Accepted mgr.posMgr request) :
    createdOrders mgr byteOrder request =
      (FakeOrderManager.generateOrders mgr.posMgr (mgr.recordRequest byteOrder request).1
        request).1.map tradeOrder :=
  List.map_congr_left fun _ _ => if_pos ((code_generateOrders _ _ request).trans h)

theorem filled_of_mem_createdOrders (h : Accepted mgr.posMgr request)
    (hmem : order ∈ createdOrders mgr byteOrder request) : Filled order := by
  rw [createdOrders_of_accepted mgr byteOrder request h] at hmem
  obtain ⟨order, horder, rfl⟩ := List.mem_map.mp hmem
  have hnew := generated_of_mem_generateOrders horder
  rw [Generated, if_pos ((code_generateOrders _ _ _).trans h)] at hnew
  exact filled_tradeOrder hnew

/-- The book after an accepted request has the fills of its orders. -/
theorem posMgr_submitRequest (h : Accepted mgr.posMgr request) :
    (mgr.submitRequest byteOrder request).2.1.posMgr =
      (createdOrders mgr byteOrder request).foldl TestPositionManager.onUpdateOrder
        (FakeOrderManager.generateOrders mgr.posMgr (mgr.recordRequest byteOrder request).1
          request).2.2 := by
  have hcode := (code_generateOrders mgr.posMgr (mgr.recordRequest byteOrder request).1
    request).trans h
  rw [watchRequest_told, createdOrders_of_accepted mgr byteOrder request h,
    ← posMgr_foldl_watchOrder_noError
      ({ (mgr.recordRequest byteOrder request).2 with posMgr := _ }, []), ← hcode]
  rfl

theorem posMgr_submitRequest_of_rejected (h : ¬ Accepted mgr.posMgr request) :
    (mgr.submitRequest byteOrder request).2.1.posMgr =
      (FakeOrderManager.generateOrders mgr.posMgr (mgr.recordRequest byteOrder request).1
        request).2.2 := by
  rw [watchRequest_told]
  exact posMgr_foldl_watchOrder _ _ _ ((code_generateOrders _ _ request).trans_ne h)

/-- The account is settled at the start of the day, not with the orders. -/
theorem cash_submitRequest :
    (mgr.submitRequest byteOrder request).2.1.posMgr.cash = mgr.posMgr.cash := by
  have hfold : ∀ (orders : List OrderDataDetail) (m : TestPositionManager),
      (orders.foldl TestPositionManager.onUpdateOrder m).cash = m.cash := by
    intro orders
    induction orders with
    | nil => exact fun _ => rfl
    | cons order orders ih => exact fun m => (ih _).trans (m.cash_onUpdateOrder order)
  by_cases h : Accepted mgr.posMgr request
  · rw [posMgr_submitRequest mgr byteOrder request h, hfold, cash_generateOrders]
  · rw [posMgr_submitRequest_of_rejected mgr byteOrder request h, cash_generateOrders]

theorem subscribers_submitRequest :
    (mgr.submitRequest byteOrder request).2.1.orderdataSubscribers = mgr.orderdataSubscribers := by
  rw [watchRequest_told]
  exact subscribers_foldl_watchOrder _ _ _

end Request

def submitAll (byteOrder : ByteOrder) (mgr : FakeOrderManager) (requests : List OrderRequest) :
    FakeOrderManager :=
  requests.foldl (fun mgr request => (mgr.submitRequest byteOrder request).2.1) mgr

section Run

variable (byteOrder : ByteOrder) (mgr : FakeOrderManager) (requests : List OrderRequest)

theorem subscribers_submitAll :
    (submitAll byteOrder mgr requests).orderdataSubscribers = mgr.orderdataSubscribers := by
  induction requests generalizing mgr with
  | nil => rfl
  | cons request requests ih => exact (ih _).trans (subscribers_submitRequest mgr byteOrder request)

theorem stored_submitAll {k : ℕ} {order : OrderDataDetail}
    (h : (submitAll byteOrder mgr requests).orders.find? k = some order) :
    mgr.orders.find? k = some order ∨ ∃ earlier request later,
      requests = earlier ++ request :: later ∧
        order ∈ createdOrders (submitAll byteOrder mgr earlier) byteOrder request := by
  induction requests using List.reverseRecOn with
  | nil => exact .inl h
  | append_singleton earlier request ih =>
      have hlast : submitAll byteOrder mgr (earlier ++ [request]) =
          (watchRequest (submitAll byteOrder mgr earlier) byteOrder request).1 := by
        rw [submitAll, List.foldl_append, List.foldl_cons, List.foldl_nil, watchRequest_told]
        rfl
      rw [hlast] at h
      rcases stored_watchRequest _ byteOrder request h with hbefore | hcreated
      · refine (ih hbefore).imp_right ?_
        rintro ⟨first, other, later, rfl, hother⟩
        exact ⟨first, other, later ++ [request], by simp, hother⟩
      · exact .inr ⟨earlier, request, [], rfl, hcreated⟩

/-- Whatever the requests, every order of each of them is stored, filled or rejected, and shown
to every consumer as it should be, and there are no other orders than these. -/
theorem orders_submitAll :
    (∀ earlier request later, requests = earlier ++ request :: later →
      let before := submitAll byteOrder mgr earlier
      let after := (before.submitRequest byteOrder request).2.1
      let seen := (watchRequest before byteOrder request).2
      before.orderdataSubscribers = mgr.orderdataSubscribers ∧
        seen.map Observation.notification = (before.submitRequest byteOrder request).2.2 ∧
        ∀ order ∈ createdOrders before byteOrder request,
          after.orders.find? order.orderID = some order ∧ Outcome before after seen order) ∧
    ∀ k order, (submitAll byteOrder mgr requests).orders.find? k = some order →
      mgr.orders.find? k = some order ∨ ∃ earlier request later,
        requests = earlier ++ request :: later ∧
          order ∈ createdOrders (submitAll byteOrder mgr earlier) byteOrder request := by
  refine ⟨fun earlier request later _ => ?_, fun k order h =>
    stored_submitAll byteOrder mgr requests h⟩
  let before := submitAll byteOrder mgr earlier
  have htold := watchRequest_told before byteOrder request
  refine ⟨subscribers_submitAll byteOrder mgr earlier, (congrArg Prod.snd htold).symm,
    fun order horder => ?_⟩
  obtain ⟨hstored, houtcome⟩ := outcome_of_mem_createdOrders before byteOrder request horder
  have hafter : (before.submitRequest byteOrder request).2.1 =
      (watchRequest before byteOrder request).1 := congrArg Prod.fst htold
  exact ⟨hafter ▸ hstored, hafter ▸ houtcome⟩

end Run

end BluesTrading.OrderOutcomes
