import BluesTrading.CloseCoverage
import BluesTrading.OrderOutcomes

namespace BluesTrading.CloseSplit

open BluesTrading.Foundations
open BluesTrading.OrderData
open BluesTrading.PositionBook
open BluesTrading.PositionUnits
open BluesTrading.PositionManager
open BluesTrading.OrderManager
open BluesTrading.OrderOutcomes
open BluesTrading.CloseCoverage

/-- The flag and the quantity with which an order was created. -/
def child (order : OrderDataDetail) : OpenCloseFlag × ℕ :=
  match order.order with
  | .sseOrder _ o => (.flagNone, o.orderQty)
  | .cffexOrder _ o => (o.opencloseflag, o.orderqty)

theorem map_orderQty (orders : List OrderDataDetail) :
    orders.map orderQty = (orders.map child).map Prod.snd := by
  rw [List.map_map]
  refine List.map_congr_left fun order _ => ?_
  obtain ⟨requestid, orderID, detail⟩ := order
  cases detail <;> rfl

/-- Filled orders that the book matches completely, one after the other. -/
def Matched : TestPositionManager → List OrderDataDetail → Prop
  | _, [] => True
  | m, order :: orders => unmatchedFill m order = 0 ∧ Matched (m.onUpdateOrder order) orders

/-! ### Orders that are filled one after the other -/

section Fills

variable {orders : List OrderDataDetail} (m : TestPositionManager) (inst : ℕ)

def fillAll (m : TestPositionManager) (orders : List OrderDataDetail) : TestPositionManager :=
  (orders.map tradeOrder).foldl TestPositionManager.onUpdateOrder m

theorem fillAll_cons (order : OrderDataDetail) (orders : List OrderDataDetail) :
    fillAll m (order :: orders) = fillAll (m.onUpdateOrder (tradeOrder order)) orders := rfl

theorem bucketUnits_fillAll (hclose : ∀ order ∈ orders, Closes order) (t : PositionType) :
    bucketUnits ((fillAll m orders).getPosition inst).1 t =
      (bucketUnits (m.getPosition inst).1 t).drop (shares inst t orders) := by
  induction orders generalizing m with
  | nil => rfl
  | cons order orders ih =>
      obtain ⟨horder, horders⟩ := List.forall_mem_cons.mp hclose
      rw [fillAll_cons, ih _ horders, bucketUnits_onUpdateOrder m horder, List.drop_drop,
        shares_cons]

theorem held_fillAll (hclose : ∀ order ∈ orders, Closes order) (t : PositionType) :
    held (fillAll m orders) inst t = held m inst t - shares inst t orders := by
  rw [held, ← length_bucketUnits, bucketUnits_fillAll m inst hclose, List.length_drop,
    length_bucketUnits, held]

theorem matched_of_shares (hclose : ∀ order ∈ orders, Closes order)
    (hcover : ∀ inst t, shares inst t orders ≤ held m inst t) :
    Matched m (orders.map tradeOrder) := by
  induction orders generalizing m with
  | nil => trivial
  | cons order orders ih =>
      obtain ⟨horder, horders⟩ := List.forall_mem_cons.mp hclose
      simp only [shares_cons] at hcover
      refine ⟨(unmatchedFill_eq_zero_iff m horder).mpr fun inst t => ?_,
        ih _ horders fun inst t => ?_⟩
      · exact le_trans (Nat.le_add_right _ _) (hcover inst t)
      · have := hcover inst t
        rw [held_onUpdateOrder m horder]
        omega

theorem getPosition_fillAll_of_ne (hne : ∀ order ∈ orders, orderInstrument order ≠ inst) :
    ((fillAll m orders).getPosition inst).1 = (m.getPosition inst).1 := by
  induction orders generalizing m with
  | nil => rfl
  | cons order orders ih =>
      obtain ⟨horder, horders⟩ := List.forall_mem_cons.mp hne
      rw [fillAll_cons, ih _ horders, TestPositionManager.onUpdateOrder_eq,
        TestPositionManager.getPosition_bookTrade, orderInstrument_tradeOrder,
        if_neg horder.symm]

theorem getPositions_fillAll_of_ne {t : PositionType} (hclose : ∀ order ∈ orders, Closes order)
    (hne : ∀ order ∈ orders, (orderTrade (tradeOrder order)).bucket ≠ t) :
    ((fillAll m orders).getPosition inst).1.getPositions t =
      (m.getPosition inst).1.getPositions t := by
  induction orders generalizing m with
  | nil => rfl
  | cons order orders ih =>
      obtain ⟨horder, horders⟩ := List.forall_mem_cons.mp hclose
      obtain ⟨hbucket, hbuckets⟩ := List.forall_mem_cons.mp hne
      rw [fillAll_cons, ih _ horders hbuckets, TestPositionManager.onUpdateOrder_eq,
        TestPositionManager.getPosition_bookTrade, orderStatus_tradeOrder, if_pos rfl]
      split_ifs with hinst
      · rw [getPositions_addTrade_close _ _ horder, if_neg hbucket.symm, hinst]
      · rfl

end Fills

theorem posMgr_submitRequest_fillAll (mgr : FakeOrderManager) (byteOrder : ByteOrder)
    {request : OrderRequest} (h : Accepted mgr.posMgr request) :
    let generated := FakeOrderManager.generateOrders mgr.posMgr
      (mgr.recordRequest byteOrder request).1 request
    (mgr.submitRequest byteOrder request).2.1.posMgr = fillAll generated.2.2 generated.1 := by
  intro generated
  rw [posMgr_submitRequest mgr byteOrder request h,
    createdOrders_of_accepted mgr byteOrder request h, fillAll]

/-- A request leaves the other instruments alone. -/
theorem getPosition_submitRequest_of_ne (mgr : FakeOrderManager) (byteOrder : ByteOrder)
    {request : OrderRequest} {inst : ℕ}
    (hne : ∀ requestID, ∀ order ∈
      (FakeOrderManager.generateOrders mgr.posMgr requestID request).1,
        orderInstrument order ≠ inst) :
    ((mgr.submitRequest byteOrder request).2.1.posMgr.getPosition inst).1 =
      (mgr.posMgr.getPosition inst).1 := by
  have hlooked := FakeOrderManager.lookedUp_generateOrders mgr.posMgr
    (mgr.recordRequest byteOrder request).1 request
  by_cases h : Accepted mgr.posMgr request
  · rw [posMgr_submitRequest_fillAll mgr byteOrder h, getPosition_fillAll_of_ne _ _ (hne _),
      hlooked.getPosition]
  · rw [posMgr_submitRequest_of_rejected mgr byteOrder request h, hlooked.getPosition]

/-! ### One closing request -/

/-- What the request finds in today's bucket and in yesterday's of the side that it closes. -/
def todayHeld (m : TestPositionManager) (request : FutureNewOrderRequest) : ℕ :=
  held m request.instrumentID (closedBuckets request.longshortflag).2

def ystHeld (m : TestPositionManager) (request : FutureNewOrderRequest) : ℕ :=
  held m request.instrumentID (closedBuckets request.longshortflag).1

def closeTodayQty (m : TestPositionManager) (request : FutureNewOrderRequest) : ℕ :=
  min (todayHeld m request) request.orderqty

def closeYstQty (m : TestPositionManager) (request : FutureNewOrderRequest) : ℕ :=
  request.orderqty - closeTodayQty m request

/-- The children of an accepted closing request.  There is one for today whenever today's bucket
has something, even if the request asks for nothing. -/
def children (m : TestPositionManager) (request : FutureNewOrderRequest) :
    List (OpenCloseFlag × ℕ) :=
  (if 0 < todayHeld m request then [(.flagCloseToday, closeTodayQty m request)] else []) ++
    if 0 < closeYstQty m request then [(.flagCloseYst, closeYstQty m request)] else []

/-- The orders of an accepted closing request and what they leave. -/
structure Split (mgr : FakeOrderManager) (request : FutureNewOrderRequest)
    (orders : List OrderDataDetail) (after : TestPositionManager) : Prop where
  filled : ∀ order ∈ orders, Filled order
  children : orders.map child = children mgr.posMgr request
  total : (orders.map orderQty).sum = request.orderqty
  within : ∀ order ∈ orders, orderInstrument order = request.instrumentID ∧
    orderQty order ≤ held mgr.posMgr request.instrumentID (orderTrade order).bucket
  matched : ∃ book, mgr.posMgr.LookedUp book ∧ Matched book orders ∧
    after = orders.foldl TestPositionManager.onUpdateOrder book
  todayQty : todayHeld after request + closeTodayQty mgr.posMgr request =
    todayHeld mgr.posMgr request
  ystQty : ystHeld after request + closeYstQty mgr.posMgr request = ystHeld mgr.posMgr request
  otherBuckets : ∀ t, t ≠ (closedBuckets request.longshortflag).1 →
    t ≠ (closedBuckets request.longshortflag).2 →
      (after.getPosition request.instrumentID).1.getPositions t =
        (mgr.posMgr.getPosition request.instrumentID).1.getPositions t
  otherInstruments : ∀ inst, inst ≠ request.instrumentID →
    (after.getPosition inst).1 = (mgr.posMgr.getPosition inst).1
  cash : after.cash = mgr.posMgr.cash

section Request

variable (m : TestPositionManager) (exch : FutureExchange) {request : FutureNewOrderRequest}

theorem checkNewOrderRequestValid_close (hflag : request.opencloseflag ≠ .flagOpen)
    (hside : request.longshortflag ≠ .flagNone) :
    checkNewOrderRequestValid m (.futureNewOrder exch request) =
      checkInventory m request.instrumentID request.orderqty
        (closedBuckets request.longshortflag).1 (closedBuckets request.longshortflag).2 := by
  simp only [checkNewOrderRequestValid, if_neg hflag]
  cases hlong : request.longshortflag with
  | flagNone => exact absurd hlong hside
  | flagLong => rfl
  | flagShort => rfl

theorem accepted_close_iff (hflag : request.opencloseflag ≠ .flagOpen)
    (hside : request.longshortflag ≠ .flagNone)
    (hsmall : todayHeld m request + ystHeld m request < 2 ^ 32) :
    Accepted m (.futureNewOrder exch request) ↔
      request.orderqty ≤ todayHeld m request + ystHeld m request := by
  have hheld : ∀ t, ((m.getPosition request.instrumentID).1.getTotalQtyAmmount t).qty =
      held m request.instrumentID t % 2 ^ 32 := fun t => getTotalQtyAmmount_qty _ t
  unfold todayHeld ystHeld at *
  rw [Accepted, checkNewOrderRequestValid_close m exch hflag hside]
  simp only [checkInventory, hheld, Nat.add_mod_mod, Nat.mod_add_mod]
  rw [Nat.add_comm, Nat.mod_eq_of_lt hsmall]
  split_ifs with hmore
  · simpa using hmore
  · simpa using hmore

theorem generateOrders_close (hflag : request.opencloseflag ≠ .flagOpen)
    (hsmall : todayHeld m request + ystHeld m request < 2 ^ 32)
    (h : Accepted m (.futureNewOrder exch request)) (requestID : ℕ) :
    (FakeOrderManager.generateOrders m requestID (.futureNewOrder exch request)).1 =
      (if 0 < todayHeld m request then
        [futureOrder requestID requestID exch request (closeTodayQty m request) .flagCloseToday
          ⟨.orderNew, .noError⟩]
      else []) ++
      if 0 < closeYstQty m request then
        [futureOrder requestID (requestID + 1) exch request (closeYstQty m request)
          .flagCloseYst ⟨.orderNew, .noError⟩]
      else [] := by
  have hlooked := lookedUp_checkNewOrderRequestValid m (.futureNewOrder exch request)
  have htoday : ((m.getPosition request.instrumentID).1.getTotalQtyAmmount
      (closedBuckets request.longshortflag).2).qty = todayHeld m request := by
    rw [getTotalQtyAmmount_qty]
    exact Nat.mod_eq_of_lt (lt_of_le_of_lt (Nat.le_add_right _ _) hsmall)
  rw [Accepted] at h
  simp only [FakeOrderManager.generateOrders, h]
  rw [generateFutureOrder_close requestID exch _ hflag, hlooked.getPosition, htoday]
  rfl

theorem closes_of_mem_generateOrders (hflag : request.opencloseflag ≠ .flagOpen) {requestID : ℕ} :
    ∀ order ∈ (FakeOrderManager.generateOrders m requestID (.futureNewOrder exch request)).1,
      Closes order :=
  fun _ hmem => closes_of_mem_generateFutureOrder hflag hmem

theorem shares_generateOrders_close (hflag : request.opencloseflag ≠ .flagOpen)
    (hsmall : todayHeld m request + ystHeld m request < 2 ^ 32)
    (h : Accepted m (.futureNewOrder exch request)) (requestID inst : ℕ) (t : PositionType) :
    shares inst t
        (FakeOrderManager.generateOrders m requestID (.futureNewOrder exch request)).1 =
      (if request.instrumentID = inst ∧ (closedBuckets request.longshortflag).2 = t then
        closeTodayQty m request else 0) +
      if request.instrumentID = inst ∧ (closedBuckets request.longshortflag).1 = t then
        closeYstQty m request else 0 := by
  rw [generateOrders_close m exch hflag hsmall h, shares_append]
  congr 1
  · split_ifs with htoday hbucket hbucket
    · simp [share_futureOrder, hbucket]
    · simp [share_futureOrder, hbucket]
    · rw [closeTodayQty, Nat.eq_zero_of_not_pos htoday, Nat.zero_min]
      rfl
    · rfl
  · split_ifs with hyst hbucket hbucket
    · simp [share_futureOrder, hbucket]
    · simp [share_futureOrder, hbucket]
    · exact (Nat.eq_zero_of_not_pos hyst).symm
    · rfl

theorem trade_of_mem_generateOrders_close (hflag : request.opencloseflag ≠ .flagOpen)
    (hsmall : todayHeld m request + ystHeld m request < 2 ^ 32)
    (h : Accepted m (.futureNewOrder exch request)) {requestID : ℕ} {order : OrderDataDetail}
    (hmem : order ∈
      (FakeOrderManager.generateOrders m requestID (.futureNewOrder exch request)).1) :
    orderInstrument order = request.instrumentID ∧
      ((orderTrade (tradeOrder order)).bucket = (closedBuckets request.longshortflag).2 ∧
          orderQty (tradeOrder order) = closeTodayQty m request ∨
        (orderTrade (tradeOrder order)).bucket = (closedBuckets request.longshortflag).1 ∧
          orderQty (tradeOrder order) = closeYstQty m request) := by
  rw [generateOrders_close m exch hflag hsmall h, List.mem_append] at hmem
  rcases hmem with hmem | hmem
  all_goals
    split_ifs at hmem
    rotate_left
    · cases hmem
    obtain rfl := List.mem_singleton.mp hmem
  · exact ⟨rfl, .inl ⟨(orderTrade_futureOrder _ _ exch _ (by decide) _).2.2, rfl⟩⟩
  · exact ⟨rfl, .inr ⟨(orderTrade_futureOrder _ _ exch _ (by decide) _).2.2, rfl⟩⟩

/-- What is split off fits into the buckets. -/
theorem close_le (h : request.orderqty ≤ todayHeld m request + ystHeld m request) :
    closeTodayQty m request ≤ todayHeld m request ∧
      closeYstQty m request ≤ ystHeld m request ∧
      closeTodayQty m request + closeYstQty m request = request.orderqty := by
  unfold closeYstQty closeTodayQty
  omega

theorem sum_children (h : request.orderqty ≤ todayHeld m request + ystHeld m request) :
    ((children m request).map Prod.snd).sum = request.orderqty := by
  obtain ⟨hleToday, hleYst, hsum⟩ := close_le m h
  rw [children, List.map_append, List.sum_append]
  split_ifs with htoday hyst hyst <;> simp only [List.map_cons, List.map_nil, List.sum_cons,
    List.sum_nil] <;> omega

theorem shares_le_held (hflag : request.opencloseflag ≠ .flagOpen)
    (hsmall : todayHeld m request + ystHeld m request < 2 ^ 32)
    (h : Accepted m (.futureNewOrder exch request))
    (hqty : request.orderqty ≤ todayHeld m request + ystHeld m request)
    (requestID inst : ℕ) (t : PositionType) :
    shares inst t
        (FakeOrderManager.generateOrders m requestID (.futureNewOrder exch request)).1 ≤
      held m inst t := by
  obtain ⟨hleToday, hleYst, -⟩ := close_le m hqty
  rw [shares_generateOrders_close m exch hflag hsmall h]
  split_ifs with htoday hyst hyst
  · exact absurd (hyst.2.trans htoday.2.symm) (closedBuckets_ne request.longshortflag)
  · obtain ⟨rfl, rfl⟩ := htoday
    exact hleToday
  · obtain ⟨rfl, rfl⟩ := hyst
    exact (Nat.zero_add _).trans_le hleYst
  · exact Nat.zero_le _

end Request

section Submit

variable (mgr : FakeOrderManager) (byteOrder : ByteOrder) (exch : FutureExchange)
  {request : FutureNewOrderRequest}

theorem held_submitRequest_close (hflag : request.opencloseflag ≠ .flagOpen)
    (hsmall : todayHeld mgr.posMgr request + ystHeld mgr.posMgr request < 2 ^ 32)
    (h : Accepted mgr.posMgr (.futureNewOrder exch request)) (inst : ℕ) (t : PositionType) :
    held (mgr.submitRequest byteOrder (.futureNewOrder exch request)).2.1.posMgr inst t =
      held mgr.posMgr inst t -
        ((if request.instrumentID = inst ∧ (closedBuckets request.longshortflag).2 = t then
            closeTodayQty mgr.posMgr request else 0) +
          if request.instrumentID = inst ∧ (closedBuckets request.longshortflag).1 = t then
            closeYstQty mgr.posMgr request else 0) := by
  rw [posMgr_submitRequest_fillAll mgr byteOrder h,
    held_fillAll _ _ (closes_of_mem_generateOrders mgr.posMgr exch hflag),
    shares_generateOrders_close mgr.posMgr exch hflag hsmall h,
    held_lookedUp (FakeOrderManager.lookedUp_generateOrders ..)]

theorem children_createdOrders (hflag : request.opencloseflag ≠ .flagOpen)
    (hsmall : todayHeld mgr.posMgr request + ystHeld mgr.posMgr request < 2 ^ 32)
    (h : Accepted mgr.posMgr (.futureNewOrder exch request)) :
    (createdOrders mgr byteOrder (.futureNewOrder exch request)).map child =
      children mgr.posMgr request := by
  rw [createdOrders_of_accepted mgr byteOrder _ h,
    generateOrders_close mgr.posMgr exch hflag hsmall h, List.map_append, List.map_append]
  congr 1 <;> split_ifs <;> rfl

theorem split_createdOrders (hflag : request.opencloseflag ≠ .flagOpen)
    (hside : request.longshortflag ≠ .flagNone)
    (hsmall : todayHeld mgr.posMgr request + ystHeld mgr.posMgr request < 2 ^ 32)
    (h : Accepted mgr.posMgr (.futureNewOrder exch request)) :
    Split mgr request (createdOrders mgr byteOrder (.futureNewOrder exch request))
      (mgr.submitRequest byteOrder (.futureNewOrder exch request)).2.1.posMgr := by
  let requestID := (mgr.recordRequest byteOrder (.futureNewOrder exch request)).1
  let generated := FakeOrderManager.generateOrders mgr.posMgr requestID
    (.futureNewOrder exch request)
  have hafter := posMgr_submitRequest_fillAll mgr byteOrder h
  have hcreated : createdOrders mgr byteOrder (.futureNewOrder exch request) =
      generated.1.map tradeOrder := createdOrders_of_accepted mgr byteOrder _ h
  have hlooked : mgr.posMgr.LookedUp generated.2.2 :=
    FakeOrderManager.lookedUp_generateOrders mgr.posMgr requestID _
  have hqty := (accepted_close_iff mgr.posMgr exch hflag hside hsmall).mp h
  have hclose : ∀ order ∈ generated.1, Closes order :=
    closes_of_mem_generateOrders mgr.posMgr exch hflag
  have htrade : ∀ requestID, ∀ order ∈ (FakeOrderManager.generateOrders mgr.posMgr requestID
      (.futureNewOrder exch request)).1, _ := fun _ order hmem =>
    trade_of_mem_generateOrders_close mgr.posMgr exch hflag hsmall h hmem
  have hheld := held_submitRequest_close mgr byteOrder exch hflag hsmall h
  have hchildren := children_createdOrders mgr byteOrder exch hflag hsmall h
  have hne := closedBuckets_ne request.longshortflag
  obtain ⟨hleToday, hleYst, -⟩ := close_le mgr.posMgr hqty
  refine
    { filled := fun order => filled_of_mem_createdOrders mgr byteOrder _ h
      children := hchildren
      total := ?_
      within := fun order hmem => ?_
      matched := ⟨generated.2.2, hlooked, ?_, posMgr_submitRequest mgr byteOrder _ h⟩
      todayQty := ?_
      ystQty := ?_
      otherBuckets := fun t hyst htoday => ?_
      otherInstruments := fun inst hinst =>
        getPosition_submitRequest_of_ne mgr byteOrder fun requestID order hmem =>
          (htrade requestID order hmem).1.trans_ne hinst.symm
      cash := cash_submitRequest mgr byteOrder _ }
  · rw [map_orderQty, hchildren, sum_children mgr.posMgr hqty]
  · rw [hcreated] at hmem
    obtain ⟨order, horder, rfl⟩ := List.mem_map.mp hmem
    obtain ⟨hinst, ⟨hbucket, horderqty⟩ | ⟨hbucket, horderqty⟩⟩ := htrade requestID order horder
    · rw [orderInstrument_tradeOrder, hbucket, horderqty]
      exact ⟨hinst, hleToday⟩
    · rw [orderInstrument_tradeOrder, hbucket, horderqty]
      exact ⟨hinst, hleYst⟩
  · rw [hcreated]
    refine matched_of_shares _ hclose fun inst t => ?_
    rw [held_lookedUp hlooked]
    exact shares_le_held mgr.posMgr exch hflag hsmall h hqty requestID inst t
  · rw [todayHeld, hheld, if_pos ⟨rfl, rfl⟩, if_neg fun hyst => hne hyst.2]
    exact Nat.sub_add_cancel hleToday
  · rw [ystHeld, hheld, if_neg fun htoday => hne htoday.2.symm, if_pos ⟨rfl, rfl⟩, Nat.zero_add]
    exact Nat.sub_add_cancel hleYst
  · rw [hafter, getPositions_fillAll_of_ne _ _ hclose fun order hmem => ?_, hlooked.getPosition]
    rcases htrade requestID order hmem with ⟨-, ⟨hbucket, -⟩ | ⟨hbucket, -⟩⟩
    · exact hbucket.trans_ne htoday.symm
    · exact hbucket.trans_ne hyst.symm

theorem exists_rejected (h : ¬ Accepted mgr.posMgr (.futureNewOrder exch request)) :
    ∃ order, createdOrders mgr byteOrder (.futureNewOrder exch request) = [order] ∧
      Rejected order := by
  let requestID := (mgr.recordRequest byteOrder (.futureNewOrder exch request)).1
  let generated := FakeOrderManager.generateOrders mgr.posMgr requestID
    (.futureNewOrder exch request)
  have hcode : generated.2.1 ≠ .noError := (code_generateOrders _ _ _).trans_ne h
  obtain ⟨order, hsingle⟩ : ∃ order, generated.1 = [order] := by
    change ∃ order, (generateFutureOrder _ _ _ _ generated.2.1).1 = [order]
    rw [generateFutureOrder, if_pos hcode]
    exact ⟨_, rfl⟩
  have hrejected : Generated generated.2.1 order :=
    generated_of_mem_generateOrders (hsingle ▸ List.mem_singleton_self order)
  rw [Generated, if_neg hcode] at hrejected
  refine ⟨order, ?_, hrejected.1⟩
  change generated.1.map (settledOrder generated.2.1) = [order]
  rw [hsingle, List.map_singleton, settledOrder, if_neg hcode]

/-- A closing request is accepted exactly when both buckets together cover it.  If it is, it is
split over the two and leaves everything else alone. -/
theorem submitRequest_close (hflag : request.opencloseflag ≠ .flagOpen)
    (hside : request.longshortflag ≠ .flagNone)
    (hsmall : todayHeld mgr.posMgr request + ystHeld mgr.posMgr request < 2 ^ 32) :
    (Accepted mgr.posMgr (.futureNewOrder exch request) ↔
      request.orderqty ≤ todayHeld mgr.posMgr request + ystHeld mgr.posMgr request) ∧
    (Accepted mgr.posMgr (.futureNewOrder exch request) →
      Split mgr request (createdOrders mgr byteOrder (.futureNewOrder exch request))
        (mgr.submitRequest byteOrder (.futureNewOrder exch request)).2.1.posMgr) ∧
    (¬ Accepted mgr.posMgr (.futureNewOrder exch request) →
      ∃ order, createdOrders mgr byteOrder (.futureNewOrder exch request) = [order] ∧
        Rejected order) :=
  ⟨accepted_close_iff mgr.posMgr exch hflag hside hsmall,
    split_createdOrders mgr byteOrder exch hflag hside hsmall,
    exists_rejected mgr byteOrder exch⟩

/-- Two longs of today and five of yesterday, of which three are closed. -/
theorem submitRequest_close_threeLongs :
    let mgr := longManager [⟨100, 2, true, true⟩] [⟨90, 5, true, false⟩]
    let request : FutureNewOrderRequest :=
      { instrumentID := 5220000, orderqty := 3, price := 100, opencloseflag := .flagClose,
        pricetype := .limitOrder, timetype := .ioc, hedgeflag := .speculation,
        longshortflag := .flagShort }
    Split mgr request (createdOrders mgr .littleEndian (.futureNewOrder .shfe request))
      (mgr.submitRequest .littleEndian (.futureNewOrder .shfe request)).2.1.posMgr := by
  intro mgr request
  obtain ⟨haccepted, hsplit, -⟩ := @submitRequest_close mgr .littleEndian .shfe request
    (by decide) (by decide) (by decide +kernel)
  exact hsplit (haccepted.mpr (by decide +kernel))

end Submit

end BluesTrading.CloseSplit
