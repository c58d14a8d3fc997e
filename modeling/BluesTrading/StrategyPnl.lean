import BluesTrading.BookInvariants
import BluesTrading.StrategyExposure
import Mathlib.Tactic.FieldSimp

namespace BluesTrading.StrategyPnl

open BluesTrading.Foundations
open BluesTrading.BookInvariants
open BluesTrading.CloseCoverage
open BluesTrading.CloseSplit
open BluesTrading.InstrumentInfo
open BluesTrading.MarkPrice
open BluesTrading.OrderData
open BluesTrading.OrderManager
open BluesTrading.OrderOutcomes
open BluesTrading.PositionBook
open BluesTrading.PositionManager
open BluesTrading.PositionUnits
open BluesTrading.PositionValue
open BluesTrading.SingleStrategy
open BluesTrading.StrategyExposure
open BluesTrading.StrategyLedger
open BluesTrading.StrategyOrders

def sideSign (isLong : Bool) : ℚ := if isLong then 1 else -1

theorem sideSign_not (isLong : Bool) : sideSign (!isLong) = -sideSign isLong := by
  cases isLong <;> simp [sideSign]

/-! ### The account of the strategy at a mark -/

/-- What is booked, with what the open positions would gain at the mark. -/
def worthAt (leg : Instrument) (x : ℚ) : ℚ :=
  leg.pnl + getInstrumentUnitMultiplier leg.instIndex *
    ((leg.longOpenPositionQty * x - leg.cumLongPrice) -
      (leg.shortOpenPositionQty * x - leg.cumShortPrice))

section Worth

variable {leg : Instrument} {isLong : Bool} {orderqty : ℕ}

theorem worthAt_flat (hflat : ∀ isLong, leg.openPositionQty isLong = 0)
    (hcost : ∀ isLong, cumPrice leg isLong = 0) (x : ℚ) : worthAt leg x = leg.pnl := by
  have hlong : leg.longOpenPositionQty = 0 := hflat true
  have hshort : leg.shortOpenPositionQty = 0 := hflat false
  have hcumLong : leg.cumLongPrice = 0 := hcost true
  have hcumShort : leg.cumShortPrice = 0 := hcost false
  simp [worthAt, hlong, hshort, hcumLong, hcumShort]

theorem worthAt_addPosition (hnonneg : 0 ≤ leg.openPositionQty isLong)
    (hsmall : leg.openPositionQty isLong + orderqty < 2 ^ 31) (now : ℕ) (price x : ℚ) :
    worthAt (leg.addPosition isLong orderqty now price) x = worthAt leg x +
      getInstrumentUnitMultiplier leg.instIndex *
        (sideSign isLong * orderqty * (x - price)) := by
  have hwrap := wrapInt_of_small (by omega) hsmall
  cases isLong
  · simp only [Instrument.openPositionQty] at hwrap
    simp [worthAt, Instrument.addPosition, hwrap, sideSign]
    ring
  · simp only [Instrument.openPositionQty] at hwrap
    simp [worthAt, Instrument.addPosition, hwrap, sideSign]
    ring

/-- The average cost of what is closed cancels: the price is booked instead. -/
theorem worthAt_calculatePnl (htick : leg.tickSize ≠ 0)
    (hprice : leg.tickPrice = getInstrumentUnitMultiplier leg.instIndex * leg.tickSize)
    (paras : StrategyParameters) (price x : ℚ) :
    worthAt (leg.calculatePnl paras isLong orderqty price) x = worthAt leg x +
      getInstrumentUnitMultiplier leg.instIndex * (sideSign isLong * orderqty * price) := by
  rcases Nat.eq_zero_or_pos orderqty with rfl | hpos
  · simp [Instrument.calculatePnl]
  · cases isLong
    · simp [Instrument.calculatePnl, hpos, worthAt, sideSign, hprice]
      field_simp
      ring
    · simp [Instrument.calculatePnl, hpos, worthAt, sideSign, hprice]
      field_simp
      ring

theorem worthAt_removePosition (hle : orderqty ≤ leg.openPositionQty isLong)
    (hsmall : leg.openPositionQty isLong < 2 ^ 31) (now : ℕ) (x : ℚ) :
    worthAt (leg.removePosition isLong orderqty now) x = worthAt leg x -
      getInstrumentUnitMultiplier leg.instIndex * (sideSign isLong * orderqty * x) := by
  have hwrap : wrapInt (leg.openPositionQty isLong - orderqty) =
      leg.openPositionQty isLong - orderqty := wrapInt_of_small (by omega) (by omega)
  cases isLong
  · simp only [Instrument.openPositionQty] at hwrap
    simp [worthAt, Instrument.removePosition, hwrap, sideSign]
    ring
  · simp only [Instrument.openPositionQty] at hwrap
    simp [worthAt, Instrument.removePosition, hwrap, sideSign]
    ring

end Worth

/-! ### The book at a mark -/

/-- What an order of some lots, bought or sold, does to the position of its instrument. -/
structure Traded (buys : Bool) (orderqty : ℕ) (price : ℚ) (pos pos' : CPosition) : Prop where
  flagged : WellFlagged pos'
  multiplier : pos'.unitMultiplier = pos.unitMultiplier
  pnlAt : ∀ x, pos'.getPositionPnlAt x = pos.getPositionPnlAt x +
    pos.unitMultiplier * (sideSign buys * orderqty * (x - price))

theorem traded_addTrade {pos : CPosition} (hflagged : WellFlagged pos) {trade : TradeInfo}
    (hcovered : Covered pos trade) :
    Traded trade.isLong trade.qty trade.price pos (pos.addTrade trade) :=
  ⟨hflagged.addTrade trade, unitMultiplier_addTrade pos trade,
    getPositionPnlAt_addTrade hflagged hcovered⟩

theorem traded_zero {pos : CPosition} (hflagged : WellFlagged pos) (buys : Bool) (price : ℚ) :
    Traded buys 0 price pos pos :=
  ⟨hflagged, rfl, fun x => by simp⟩

theorem Traded.append {buys : Bool} {m n : ℕ} {price : ℚ} {pos mid pos' : CPosition}
    (h : Traded buys m price pos mid) (h' : Traded buys n price mid pos') :
    Traded buys (m + n) price pos pos' where
  flagged := h'.flagged
  multiplier := h'.multiplier.trans h.multiplier
  pnlAt x := by
    rw [h'.pnlAt, h.pnlAt, h.multiplier]
    push_cast
    ring

theorem traded_fillAll {inst : ℕ} {buys : Bool} {price : ℚ} {orders : List OrderDataDetail}
    (hclose : ∀ order ∈ orders, Closes order)
    (hterms : ∀ order ∈ orders, orderInstrument order = inst ∧
      (orderTrade (tradeOrder order)).isLong = buys ∧
      (orderTrade (tradeOrder order)).price = price)
    (m : TestPositionManager) (hflagged : WellFlagged (m.getPosition inst).1)
    (hcovered : ∀ t, shares inst t orders ≤ held m inst t) :
    Traded buys (orders.map fun order => (orderTrade (tradeOrder order)).qty).sum price
      (m.getPosition inst).1 ((fillAll m orders).getPosition inst).1 := by
  induction orders generalizing m with
  | nil => exact traded_zero hflagged buys price
  | cons order orders ih =>
      obtain ⟨horder, horders⟩ := List.forall_mem_cons.mp hclose
      obtain ⟨⟨rfl, rfl, rfl⟩, hrest⟩ := List.forall_mem_cons.mp hterms
      have hposition : ((m.onUpdateOrder (tradeOrder order)).getPosition
          (orderInstrument order)).1 =
          (m.getPosition (orderInstrument order)).1.addTrade (orderTrade (tradeOrder order)) := by
        rw [TestPositionManager.onUpdateOrder_eq, TestPositionManager.getPosition_bookTrade,
          orderStatus_tradeOrder, orderInstrument_tradeOrder, if_pos rfl, if_pos rfl]
      have hfirst : Covered (m.getPosition (orderInstrument order)).1
          (orderTrade (tradeOrder order)) := by
        intro hopen
        have hshare := hcovered (orderTrade (tradeOrder order)).bucket
        rw [shares_cons, share, if_pos ⟨rfl, hopen, rfl⟩] at hshare
        exact le_trans (Nat.le_add_right _ _) hshare
      have hone := traded_addTrade hflagged hfirst
      rw [← hposition] at hone
      have hmore := ih horders hrest (m.onUpdateOrder (tradeOrder order)) hone.flagged
        fun t => by
          have hboth := hcovered t
          rw [shares_cons] at hboth
          rw [held_onUpdateOrder m horder]
          omega
      rw [List.map_cons, List.sum_cons, fillAll_cons]
      exact hone.append hmore

theorem terms_of_mem_generateOrders {m : TestPositionManager} {requestID : ℕ}
    {exch : FutureExchange} {request : FutureNewOrderRequest} {order : OrderDataDetail}
    (h : order ∈
      (FakeOrderManager.generateOrders m requestID (.futureNewOrder exch request)).1) :
    orderInstrument order = request.instrumentID ∧
      (orderTrade (tradeOrder order)).isLong = decide (request.longshortflag = .flagLong) ∧
      (orderTrade (tradeOrder order)).price = request.price := by
  obtain ⟨_, _, opencloseflag, _, rfl, -⟩ := exists_of_mem_generateFutureOrder h
  cases opencloseflag <;> exact ⟨rfl, rfl, rfl⟩

theorem sum_qty_generateOrders (m : TestPositionManager) (exch : FutureExchange)
    {request : FutureNewOrderRequest} (hflag : request.opencloseflag ≠ .flagOpen)
    (hsmall : todayHeld m request + ystHeld m request < 2 ^ 32)
    (haccepted : Accepted m (.futureNewOrder exch request))
    (hqty : request.orderqty ≤ todayHeld m request + ystHeld m request) (requestID : ℕ) :
    ((FakeOrderManager.generateOrders m requestID (.futureNewOrder exch request)).1.map
      fun order => (orderTrade (tradeOrder order)).qty).sum = request.orderqty := by
  obtain ⟨hleToday, -, hsum⟩ := close_le m hqty
  have hone : ∀ orderID orderqty opencloseflag common, (orderTrade (tradeOrder
      (futureOrder requestID orderID exch request orderqty opencloseflag common))).qty =
        orderqty := by
    intro _ _ opencloseflag _
    cases opencloseflag <;> rfl
  rw [generateOrders_close m exch hflag hsmall haccepted, List.map_append, List.sum_append]
  split_ifs <;> simp only [List.map_cons, List.map_nil, List.sum_cons, List.sum_nil, hone] <;>
    omega

section Submit

variable (byteOrder : ByteOrder) (mgr : FakeOrderManager) (inst : ℕ) (isLong : Bool)
  (orderqty : ℕ) (price : ℚ)

theorem traded_open (hflagged : WellFlagged (mgr.posMgr.getPosition inst).1) :
    Traded isLong orderqty price (mgr.posMgr.getPosition inst).1
      ((mgr.submitRequest byteOrder
        (newOrder inst isLong orderqty .flagOpen price)).2.1.posMgr.getPosition inst).1 := by
  have hbook : (mgr.submitRequest byteOrder
      (newOrder inst isLong orderqty .flagOpen price)).2.1.posMgr =
      mgr.posMgr.bookTrade inst .orderFilled ⟨price, orderqty, true, isLong, true⟩ := by
    rw [FakeOrderManager.submitRequest_eq]
    simp only [newOrder, FakeOrderManager.handleOrders, FakeOrderManager.generateOrders,
      checkNewOrderRequestValid, generateFutureOrder, if_true, ne_eq, not_true_eq_false, if_false,
      List.foldl_cons, List.foldl_nil, FakeOrderManager.handleOrder]
    rw [posMgr_fillOrder]
    cases isLong <;> rfl
  rw [hbook, TestPositionManager.getPosition_bookTrade, if_pos rfl, if_pos rfl]
  exact @traded_addTrade _ hflagged ⟨price, orderqty, true, isLong, true⟩ fun hclose =>
    absurd hclose (by simp)

/-- However a closing order is split, it is one order to the position. -/
theorem traded_close (hqty : orderqty ≤ sideHeld mgr.posMgr inst isLong)
    (hsmall : sideHeld mgr.posMgr inst isLong < 2 ^ 32)
    (hflagged : WellFlagged (mgr.posMgr.getPosition inst).1) :
    Traded (!isLong) orderqty price (mgr.posMgr.getPosition inst).1
      ((mgr.submitRequest byteOrder
        (newOrder inst (!isLong) orderqty .flagClose price)).2.1.posMgr.getPosition inst).1 := by
  let request := closeOrder inst isLong orderqty price
  have hflag : request.opencloseflag ≠ .flagOpen := by simp [request, closeOrder]
  have haccepted : Accepted mgr.posMgr (.futureNewOrder .shfe request) :=
    accepted_closeOrder inst isLong orderqty price hqty hsmall
  rw [← sum_held_closeOrder inst isLong orderqty price] at hqty hsmall
  let generated := FakeOrderManager.generateOrders mgr.posMgr
    (mgr.recordRequest byteOrder (.futureNewOrder .shfe request)).1 (.futureNewOrder .shfe request)
  have hlooked : mgr.posMgr.LookedUp generated.2.2 :=
    FakeOrderManager.lookedUp_generateOrders mgr.posMgr _ _
  have hclose : ∀ order ∈ generated.1, Closes order :=
    closes_of_mem_generateOrders mgr.posMgr .shfe hflag
  have hcovered : ∀ t, shares inst t generated.1 ≤ held generated.2.2 inst t := by
    intro t
    rw [held_lookedUp hlooked]
    exact shares_le_held mgr.posMgr .shfe hflag hsmall haccepted hqty _ inst t
  have htraded := traded_fillAll hclose (fun _ hmem => terms_of_mem_generateOrders hmem)
    generated.2.2 (by rwa [hlooked.getPosition]) hcovered
  have hsum : (generated.1.map fun order => (orderTrade (tradeOrder order)).qty).sum =
      request.orderqty :=
    sum_qty_generateOrders mgr.posMgr .shfe hflag hsmall haccepted hqty _
  have hbook : (mgr.submitRequest byteOrder (.futureNewOrder .shfe request)).2.1.posMgr =
      fillAll generated.2.2 generated.1 := posMgr_submitRequest_fillAll mgr byteOrder haccepted
  rw [hsum, ← hbook, hlooked.getPosition] at htraded
  cases isLong <;> exact htraded

end Submit

/-! ### One order in both accounts -/

/-- The position of the instrument in the book. -/
def position (state : Instrument × FakeOrderManager) : CPosition :=
  (state.2.posMgr.getPosition state.1.instIndex).1

/-- The strategy and the book hold the same, and it is worth the same to them at any mark. -/
structure Reconciled (inst : ℕ) (state : Instrument × FakeOrderManager) : Prop where
  instIndex : state.1.instIndex = inst
  qty : ∀ isLong,
    state.1.openPositionQty isLong = sideHeld state.2.posMgr state.1.instIndex isLong
  small : ∀ isLong, state.1.openPositionQty isLong < 2 ^ 31
  cost : ∀ isLong, state.1.openPositionQty isLong = 0 → cumPrice state.1 isLong = 0
  size : ∀ isLong, state.1.openPositionQty isLong ≠ 0 → -1 < state.1.ppl + 1 / 2
  tickSize : state.1.tickSize ≠ 0
  tickPrice : state.1.tickPrice =
    getInstrumentUnitMultiplier state.1.instIndex * state.1.tickSize
  flagged : WellFlagged (position state)
  multiplier : (position state).unitMultiplier = getInstrumentUnitMultiplier state.1.instIndex
  worth : ∀ x, worthAt state.1 x = (position state).getPositionPnlAt x

/-- The two profits are the same as soon as nothing is open. -/
theorem Reconciled.pnl_eq {inst : ℕ} {state : Instrument × FakeOrderManager}
    (h : Reconciled inst state)
    (hflat : ∀ isLong, state.1.openPositionQty isLong = 0) :
    state.1.pnl = (position state).getPositionPnl := by
  rw [← worthAt_flat hflat fun isLong => h.cost isLong (hflat isLong)]
  exact h.worth _

section Orders

variable {byteOrder : ByteOrder} {paras : StrategyParameters} {data : CTickData} {now : ℕ}
  {isLong : Bool} {price : ℚ} {inst : ℕ} {state state' : Instrument × FakeOrderManager}

theorem Reconciled.order (h : Reconciled inst state) {buys : Bool} {orderqty left : ℕ}
    (hterms : SameTerms state.1 state'.1)
    (htick : state'.1.tickSize = state.1.tickSize ∧ state'.1.tickPrice = state.1.tickPrice)
    (hcount : ∀ side, state'.1.openPositionQty side =
      if side = isLong then (left : ℤ) else state.1.openPositionQty side)
    (hheld : ∀ side, sideHeld state'.2.posMgr state.1.instIndex side =
      if side = isLong then left else sideHeld state.2.posMgr state.1.instIndex side)
    (hsmall : left < 2 ^ 31) (hsize : left ≠ 0 → -1 < state.1.ppl + 1 / 2)
    (hother : cumPrice state'.1 (!isLong) = cumPrice state.1 (!isLong))
    (hcost : left = 0 → cumPrice state'.1 isLong = 0)
    (htraded : Traded buys orderqty price (position state)
      (state'.2.posMgr.getPosition state.1.instIndex).1)
    (hworth : ∀ x, worthAt state'.1 x = worthAt state.1 x +
      getInstrumentUnitMultiplier state.1.instIndex * (sideSign buys * orderqty * (x - price))) :
    Reconciled inst state' := by
  obtain ⟨hinst, hppl, -⟩ := hterms
  rw [← hinst, ← position] at htraded
  refine
    { instIndex := hinst.trans h.instIndex
      qty := fun side => ?_
      small := fun side => ?_
      cost := fun side hzero => ?_
      size := fun side hne => ?_
      tickSize := htick.1 ▸ h.tickSize
      tickPrice := by rw [htick.1, htick.2, hinst, h.tickPrice]
      flagged := htraded.flagged
      multiplier := by rw [htraded.multiplier, hinst, h.multiplier]
      worth := fun x => by rw [hworth, h.worth, htraded.pnlAt, h.multiplier] }
  · rw [hcount, hinst, hheld, h.qty]
    split_ifs <;> rfl
  · rw [hcount]
    split_ifs
    · exact_mod_cast hsmall
    · exact h.small side
  · rw [hcount] at hzero
    rcases Bool.eq_or_eq_not side isLong with rfl | rfl
    · rw [if_pos rfl] at hzero
      exact hcost (by exact_mod_cast hzero)
    · rw [if_neg (by simp)] at hzero
      rw [hother, h.cost _ hzero]
  · rw [hcount] at hne
    rw [hppl]
    split_ifs at hne with hside
    · exact hsize (by exact_mod_cast hne)
    · exact h.size side hne

theorem Reconciled.enter (h : Reconciled inst state) (hdata : data.instIndex = inst)
    (hfit : ∀ size ∈ toInt (state.1.ppl + 1 / 2),
      0 ≤ size ∧ state.1.openPositionQty isLong + size < 2 ^ 31)
    (htake : enter byteOrder data now isLong price state = some state') :
    Reconciled inst state' := by
  obtain ⟨size, hsome, rfl⟩ := Option.map_eq_some_iff.mp htake
  obtain ⟨hnonneg, hroom⟩ := hfit size hsome
  obtain ⟨hsmall, hle⟩ := toInt_bounds hsome
  have horder : (toUInt32 size : ℤ) = size := toUInt32_of_small hnonneg hsmall
  have hheld := h.qty isLong
  obtain rfl := h.instIndex
  rw [hdata]
  refine @Reconciled.order isLong price _ state _ h isLong (toUInt32 size)
    (sideHeld state.2.posMgr state.1.instIndex isLong + toUInt32 size) ?_ ?_ (fun side => ?_)
    (fun side => ?_) (by omega) (fun hne => ?_) ?_ (fun hzero => ?_) ?_ (fun x => ?_)
  · cases isLong <;> exact ⟨rfl, rfl, rfl⟩
  · cases isLong <;> exact ⟨rfl, rfl⟩
  · rw [openPositionQty_addPosition]
    split_ifs with hside
    · rw [hside, wrapInt_of_small (by omega) (by omega), hheld]
      rfl
    · rfl
  · rw [sideHeld_open]
    split_ifs <;> simp_all
  · rcases hnonneg.eq_or_lt with hzero | hpos
    · refine h.size isLong ?_
      omega
    · have hone : (1 : ℚ) ≤ size := by exact_mod_cast hpos
      linarith [hle hpos]
  · rw [cumPrice_addPosition, if_neg (by simp)]
  · have hqty : toUInt32 size = 0 := by omega
    rw [cumPrice_addPosition, if_pos rfl, h.cost isLong (by omega), hqty]
    simp
  · exact traded_open byteOrder state.2 _ isLong _ price h.flagged
  · exact worthAt_addPosition (by omega) (by omega) now price x

theorem toInt_nonneg {x : ℚ} {n : ℤ} (hx : -1 < x) (h : toInt x = some n) : 0 ≤ n := by
  rw [toInt] at h
  split_ifs at h with hneg
  · obtain rfl := Option.some.inj h
    have hceil : -1 < ⌈x⌉ := Int.lt_ceil.mpr (by exact_mod_cast hx)
    omega
  · obtain rfl := Option.some.inj h
    exact Int.floor_nonneg.mpr (not_lt.mp hneg)

theorem exists_of_leave (hopen : 0 < state.1.openPositionQty isLong)
    (hsmall : state.1.openPositionQty isLong < 2 ^ 31) (hsize : -1 < state.1.ppl + 1 / 2)
    (htake : leave byteOrder paras data now isLong price state = some state') :
    ∃ orderqty : ℕ, (orderqty : ℤ) ≤ state.1.openPositionQty isLong ∧
      state' = ((state.1.calculatePnl paras isLong orderqty price).removePosition isLong orderqty
          now,
        (state.2.submitRequest byteOrder
          (newOrder data.instIndex (!isLong) orderqty .flagClose price)).2.1) := by
  obtain ⟨size, hsome, rfl⟩ := Option.map_eq_some_iff.mp htake
  have hone : (1 : ℚ) ≤ state.1.openPositionQty isLong := by exact_mod_cast hopen
  have hnonneg := toInt_nonneg (lt_min hsize (by linarith)) hsome
  have hle : size ≤ state.1.openPositionQty isLong := by
    rcases hnonneg.eq_or_lt with hzero | hpos
    · omega
    · exact_mod_cast ((toInt_bounds hsome).2 hpos).trans (min_le_right _ _)
  have horder := toUInt32_of_small hnonneg (toInt_bounds hsome).1
  refine ⟨toUInt32 size, by omega, ?_⟩
  dsimp only
  rw [wrapInt_of_small (by omega) (by omega)]

theorem Reconciled.leave (h : Reconciled inst state) (hdata : data.instIndex = inst)
    (hopen : state.1.openPositionQty isLong ≠ 0)
    (htake : leave byteOrder paras data now isLong price state = some state') :
    Reconciled inst state' := by
  have hheld := h.qty isLong
  have hsmall := h.small isLong
  obtain ⟨orderqty, hle, rfl⟩ := exists_of_leave (by omega) hsmall (h.size isLong hopen) htake
  obtain rfl := h.instIndex
  rw [hdata]
  have haccount : account (state.1.calculatePnl paras isLong orderqty price) = account state.1 :=
    account_calculatePnl ..
  have hcount := openPositionQty_congr haccount
  refine @Reconciled.order isLong price _ state _ h (!isLong) orderqty
    (sideHeld state.2.posMgr state.1.instIndex isLong - orderqty) ?_ ?_ (fun side => ?_)
    (fun side => ?_) (by omega) (fun _ => h.size isLong hopen) ?_ (fun hzero => ?_) ?_
    (fun x => ?_)
  · exact (sameTerms_of_account haccount).removePosition isLong _ now
  · unfold Instrument.calculatePnl
    split_ifs <;> cases isLong <;> exact ⟨rfl, rfl⟩
  · rw [openPositionQty_removePosition, hcount]
    split_ifs with hside
    · rw [hside, wrapInt_of_small (by omega) (by omega)]
      omega
    · rfl
  · rw [sideHeld_close _ _ _ _ _ _ (by omega) (by omega)]
    split_ifs <;> simp_all
  · rw [cumPrice_removePosition, cumPrice_calculatePnl, if_neg (by simp)]
  · -- all of the side is closed, and with it all of its cost
    have hall : (orderqty : ℚ) = state.1.openPositionQty isLong := by
      exact_mod_cast (show (orderqty : ℤ) = state.1.openPositionQty isLong by omega)
    have hne : (state.1.openPositionQty isLong : ℚ) ≠ 0 := by exact_mod_cast hopen
    rw [cumPrice_removePosition, cumPrice_calculatePnl, if_pos rfl, hall, mul_div_cancel₀ _ hne,
      sub_self]
  · exact traded_close byteOrder state.2 _ isLong orderqty price (by omega) (by omega) h.flagged
  · have hinst := (sameTerms_of_account haccount).1
    rw [worthAt_removePosition (by rw [hcount]; exact hle) (by rw [hcount]; exact hsmall), hinst,
      worthAt_calculatePnl h.tickSize h.tickPrice, sideSign_not]
    ring

end Orders

/-! ### The calls -/

section Calls

variable {byteOrder : ByteOrder} {paras : StrategyParameters} {data : CTickData} {now : ℕ}
  {inst : ℕ} {state state' : Instrument × FakeOrderManager}

def wants (paras : StrategyParameters) (leg : Instrument) : Bool → Bool
  | true => wantsLong paras leg
  | false => wantsShort paras leg

/-- An order to enter is of a count of lots with which its side stays an `int`. -/
def HasRoom (paras : StrategyParameters) (leg : Instrument) : Prop :=
  leg.stoploss = false → ∀ isLong, wants paras leg isLong = true →
    ∀ size ∈ toInt (leg.ppl + 1 / 2), 0 ≤ size ∧ leg.openPositionQty isLong + size < 2 ^ 31

theorem wantsLong_of_addPosition {leg : Instrument} {orderqty : ℕ} {price : ℚ}
    (hnonneg : 0 ≤ leg.shortOpenPositionQty)
    (hsmall : leg.shortOpenPositionQty + orderqty < 2 ^ 31)
    (h : wantsLong paras (leg.addPosition false orderqty now price) = true) :
    wantsLong paras leg = true := by
  simp only [wantsLong, Bool.and_eq_true, decide_eq_true_eq] at h ⊢
  obtain ⟨⟨⟨⟨⟨hbelow, hshort⟩, hcan⟩, hbp⟩, hopp⟩, hsize⟩ := h
  refine ⟨⟨⟨⟨⟨hbelow, ?_⟩, hcan⟩, hbp⟩, hopp⟩, hsize⟩
  have hwrap : wrapInt (leg.shortOpenPositionQty + orderqty) = 0 := hshort
  rw [wrapInt_of_small (by omega) hsmall] at hwrap
  omega

theorem Reconciled.doEnter (h : Reconciled inst state) (hdata : data.instIndex = inst)
    (hroom : HasRoom paras state.1)
    (htake : doEnter byteOrder paras data now state = some state') :
    Reconciled inst state' := by
  unfold SingleStrategy.doEnter at htake
  split_ifs at htake with hstop hshort
  · obtain rfl := Option.some.inj htake
    exact h
  · have hfit := hroom (by simpa using hstop)
    obtain ⟨mid, hmid, hrest⟩ := Option.bind_eq_some_iff.mp htake
    have hentered := h.enter hdata (hfit false hshort) hmid
    refine keeps_ite hentered (fun hlong hrest => hentered.enter hdata ?_ hrest) hrest
    -- the other side is entered only after an order of no lots
    obtain ⟨size, hsome, rfl⟩ := Option.map_eq_some_iff.mp hmid
    obtain ⟨hnonneg, hshortRoom⟩ := hfit false hshort size hsome
    have horder := toUInt32_of_small hnonneg (toInt_bounds hsome).1
    have hqty := h.qty false
    refine hfit true (wantsLong_of_addPosition ?_ ?_ hlong)
    · exact (Int.natCast_nonneg _).trans_eq hqty.symm
    · rw [horder]
      exact hshortRoom
  · rw [Option.bind_some] at htake
    refine keeps_ite h (fun hlong htake => h.enter hdata ?_ htake) htake
    exact hroom (by simpa using hstop) true hlong

theorem Reconciled.doExit (h : Reconciled inst state) (hdata : data.instIndex = inst)
    (htake : doExit byteOrder paras data now state = some state') : Reconciled inst state' :=
  keeps_doExit (fun _ _ _ _ hopen htake h => h.leave hdata hopen htake) h htake

theorem Reconciled.liquidate (h : Reconciled inst state) (hdata : data.instIndex = inst)
    (htake : liquidate byteOrder paras data now state = some state') : Reconciled inst state' :=
  keeps_liquidate (fun _ _ _ _ hopen htake h => h.leave hdata hopen htake) h htake

end Calls

/-! ### A day of calls -/

inductive Call
  | doEnter
  | doExit
  | liquidate

/-- A call for an instrument, or whatever else happens to it and to the book. -/
inductive Action
  | call (c : Call) (data : CTickData) (now : ℕ)
  | other (leg : Instrument) (orderManager : FakeOrderManager)

def step (byteOrder : ByteOrder) (paras : StrategyParameters)
    (state : Instrument × FakeOrderManager) : Action → Option (Instrument × FakeOrderManager)
  | .call .doEnter data now => doEnter byteOrder paras data now state
  | .call .doExit data now => doExit byteOrder paras data now state
  | .call .liquidate data now => liquidate byteOrder paras data now state
  | .other leg orderManager => some (leg, orderManager)

structure Books where
  account : Account
  cumLongPrice : ℚ
  cumShortPrice : ℚ
  tickSize : ℚ
  tickPrice : ℚ
  pnl : ℚ

def books (leg : Instrument) : Books :=
  ⟨account leg, leg.cumLongPrice, leg.cumShortPrice, leg.tickSize, leg.tickPrice, leg.pnl⟩

theorem worthAt_congr {leg leg' : Instrument} (h : books leg' = books leg) (x : ℚ) :
    worthAt leg' x = worthAt leg x := by
  simp only [books, account, Books.mk.injEq, Account.mk.injEq] at h
  obtain ⟨⟨hinst, -, -, hlong, hshort⟩, hcumLong, hcumShort, -, -, hpnl⟩ := h
  rw [worthAt, hinst, hlong, hshort, hcumLong, hcumShort, hpnl, worthAt]

theorem cumPrice_of_books {leg leg' : Instrument} (h : books leg' = books leg)
    (isLong : Bool) : cumPrice leg' isLong = cumPrice leg isLong := by
  cases isLong
  · exact congrArg Books.cumShortPrice h
  · exact congrArg Books.cumLongPrice h

/-- The account stays as it is, and of the position only the mark may move. -/
def Undisturbed (state state' : Instrument × FakeOrderManager) : Prop :=
  books state'.1 = books state.1 ∧
    position state' = (position state).updatePrice (position state').lastPrice

section Undisturbed

variable (libm : MathLibrary) (paras : StrategyParameters) (data : CTickData) (now : ℕ)
  (leg : Instrument) (orderManager : FakeOrderManager)

@[simp] theorem books_screen : books (screen libm paras data leg).1 = books leg := by
  unfold screen
  dsimp only
  split_ifs <;> rfl

@[simp] theorem books_quote : books (quote data leg) = books leg := by
  unfold quote
  split_ifs <;> rfl

@[simp] theorem books_updateOpp : books (updateOpp libm paras now leg) = books leg := by
  unfold updateOpp
  dsimp only
  split_ifs <;> rfl

@[simp] theorem books_updatePrices : books (updatePrices libm paras leg) = books leg := by
  unfold updatePrices
  dsimp only
  split_ifs <;> rfl

@[simp] theorem books_countUpdate : books (countUpdate leg) = books leg := by
  unfold countUpdate
  split_ifs <;> rfl

@[simp] theorem books_updateVolatility : books (updateVolatility paras leg) = books leg := by
  unfold updateVolatility
  split_ifs <;> rfl

theorem undisturbed_of_books {leg' : Instrument} (h : books leg' = books leg) :
    Undisturbed (leg, orderManager) (leg', orderManager) := by
  have hinst : leg'.instIndex = leg.instIndex :=
    (sameTerms_of_account (congrArg Books.account h)).1
  refine ⟨h, ?_⟩
  rw [position, hinst]
  rfl

theorem undisturbed_observe (hjump : equityJumps libm paras data (leg.preTick.getD data) = false) :
    Undisturbed (leg, orderManager) ((observe libm paras data now leg).1, orderManager) := by
  refine undisturbed_of_books leg orderManager ?_
  have hscreen := books_screen libm paras data leg
  unfold observe
  split
  · next screened heq => rwa [heq] at hscreen
  · next screened heq =>
      rw [heq] at hscreen
      rw [if_neg (by simp [hjump])]
      split_ifs <;> simp [hscreen]

theorem undisturbed_updateMA :
    Undisturbed (leg, orderManager)
      (updateVolatility paras (if paras.counter > 100 then
        countUpdate (updatePrices libm paras leg) else updatePrices libm paras leg),
        orderManager) := by
  refine undisturbed_of_books leg orderManager ?_
  split_ifs <;> simp

theorem undisturbed_onMarketData :
    Undisturbed (leg, orderManager)
      (leg, { orderManager with posMgr := orderManager.posMgr.onMarketData data }) := by
  refine ⟨rfl, ?_⟩
  rcases orderManager.posMgr.getPosition_onMarketData data leg.instIndex with heq | heq
  · rw [position, heq]
    rfl
  · rw [position, heq]
    rfl

theorem undisturbed_submitRequest (byteOrder : ByteOrder) {request : OrderRequest}
    (hother : requestInstrument request ≠ some leg.instIndex) :
    Undisturbed (leg, orderManager)
      (leg, (orderManager.submitRequest byteOrder request).2.1) := by
  refine ⟨rfl, ?_⟩
  have hposition : ((orderManager.submitRequest byteOrder request).2.1.posMgr.getPosition
      leg.instIndex).1 = (orderManager.posMgr.getPosition leg.instIndex).1 := by
    refine getPosition_submitRequest_of_ne orderManager byteOrder fun _ order hmem heq => ?_
    exact hother (heq ▸ orderInstrument_of_mem_generateOrders hmem)
  rw [position, hposition]
  rfl

end Undisturbed

/-- Within a day a call is for the instrument of its tick, and nothing else trades in it. -/
def WithinDay (state : Instrument × FakeOrderManager) : Action → Prop
  | .call _ data _ => data.instIndex = state.1.instIndex
  | .other leg orderManager => Undisturbed state (leg, orderManager)

def EntersInRoom (paras : StrategyParameters) (state : Instrument × FakeOrderManager) :
    Action → Prop
  | .call .doEnter _ _ => HasRoom paras state.1
  | _ => True

/-- Nothing is held and nothing is earned, as after the start of a day. -/
structure StartsFlat (state : Instrument × FakeOrderManager) : Prop where
  qty : ∀ isLong, state.1.openPositionQty isLong = 0
  cost : ∀ isLong, cumPrice state.1 isLong = 0
  pnl : state.1.pnl = 0
  held : ∀ isLong, sideHeld state.2.posMgr state.1.instIndex isLong = 0
  bookPnl : (position state).getPositionPnl = 0
  tickSize : state.1.tickSize ≠ 0
  tickPrice : state.1.tickPrice =
    getInstrumentUnitMultiplier state.1.instIndex * state.1.tickSize

/-- The book has nothing of an instrument before a day, and the strategy nothing that it keeps. -/
structure RestsFlat (paras : StrategyParameters) (state : Instrument × FakeOrderManager) :
    Prop where
  night : paras.isOverNight = true →
    ∀ isLong, state.1.openPositionQty isLong = 0 ∧ cumPrice state.1 isLong = 0
  held : ∀ isLong, sideHeld state.2.posMgr state.1.instIndex isLong = 0
  bookPnl : (position state).getPositionPnl = 0
  tickSize : state.1.tickSize ≠ 0
  tickPrice : state.1.tickPrice =
    getInstrumentUnitMultiplier state.1.instIndex * state.1.tickSize

theorem terms_initInstrument (paras : StrategyParameters) (leg : Instrument) :
    (leg.initInstrument paras).instIndex = leg.instIndex ∧
      (leg.initInstrument paras).tickSize = leg.tickSize ∧
      (leg.initInstrument paras).tickPrice = leg.tickPrice := by
  unfold Instrument.initInstrument
  split_ifs <;> exact ⟨rfl, rfl, rfl⟩

/-- The start of a day leaves nothing of a strategy that was flat or does not trade overnight. -/
theorem startsFlat_initInstrument {paras : StrategyParameters} {leg : Instrument}
    {orderManager : FakeOrderManager} (h : RestsFlat paras (leg, orderManager)) :
    StartsFlat (leg.initInstrument paras, orderManager) := by
  have hzero : ∀ isLong, (leg.initInstrument paras).openPositionQty isLong = 0 ∧
      cumPrice (leg.initInstrument paras) isLong = 0 := by
    intro isLong
    by_cases hover : paras.isOverNight = true
    · have hflat := h.night hover isLong
      cases isLong <;> simpa [Instrument.initInstrument, hover, apply_ite,
        Instrument.openPositionQty, cumPrice] using hflat
    · cases isLong <;> simp [Instrument.initInstrument, hover, Instrument.openPositionQty, cumPrice]
  obtain ⟨hinst, htickSize, htickPrice⟩ := terms_initInstrument paras leg
  exact
    { qty := fun isLong => (hzero isLong).1
      cost := fun isLong => (hzero isLong).2
      pnl := rfl
      held := by rw [hinst]; exact h.held
      bookPnl := by rw [position, hinst]; exact h.bookPnl
      tickSize := htickSize ▸ h.tickSize
      tickPrice := by rw [htickPrice, hinst, htickSize, h.tickPrice] }

structure Kept (m : TestPositionManager) : Prop where
  flagged : ∀ inst, WellFlagged (m.getPosition inst).1
  multiplier : ∀ inst,
    (m.getPosition inst).1.unitMultiplier = getInstrumentUnitMultiplier inst

theorem kept_runBook (cash : ℚ) (events : List BookEvent) : Kept (runBook cash events) where
  flagged := positionInvariant_wellFlagged.runBook cash fun _ _ _ _ => trivial
  multiplier := positionInvariant_multiplier.runBook cash fun _ _ _ _ => trivial

theorem reconciled_of_startsFlat {state : Instrument × FakeOrderManager}
    (h : StartsFlat state) (hkept : Kept state.2.posMgr) :
    Reconciled state.1.instIndex state where
  instIndex := rfl
  qty isLong := by rw [h.qty, h.held]; rfl
  small isLong := by rw [h.qty]; norm_num
  cost isLong _ := h.cost isLong
  size isLong hne := absurd (h.qty isLong) hne
  tickSize := h.tickSize
  tickPrice := h.tickPrice
  flagged := hkept.flagged _
  multiplier := hkept.multiplier _
  worth x := by
    have hflagged : WellFlagged (position state) := hkept.flagged _
    have hnet : netQty (position state) = 0 := by
      have hlong := h.held true
      have hshort := h.held false
      simp only [sideHeld, held, PositionType.ofFlags, Nat.add_eq_zero_iff] at hlong hshort
      simp [netQty, position, hlong, hshort]
    have hbook : (position state).getPositionPnlAt (position state).lastPrice = 0 := h.bookPnl
    rw [worthAt_flat h.qty h.cost, h.pnl,
      getPositionPnlAt_sub hflagged x (position state).lastPrice, hnet, hbook]
    ring

theorem Reconciled.undisturbed {inst : ℕ} {state state' : Instrument × FakeOrderManager}
    (h : Reconciled inst state) (hsame : Undisturbed state state') : Reconciled inst state' := by
  obtain ⟨hbooks, hposition⟩ := hsame
  have haccount : account state'.1 = account state.1 := congrArg Books.account hbooks
  obtain ⟨hinst, hppl, -⟩ := sameTerms_of_account haccount
  have hqty := openPositionQty_congr haccount
  have htickSize : state'.1.tickSize = state.1.tickSize := congrArg Books.tickSize hbooks
  have htickPrice : state'.1.tickPrice = state.1.tickPrice := congrArg Books.tickPrice hbooks
  have hheld : ∀ isLong, sideHeld state'.2.posMgr state'.1.instIndex isLong =
      sideHeld state.2.posMgr state.1.instIndex isLong := by
    have hbucket : ∀ t, bucketQty (position state') t = bucketQty (position state) t := by
      intro t
      rw [hposition, ← length_bucketUnits, bucketUnits_updatePrice, length_bucketUnits]
    intro isLong
    exact congrArg₂ (· + ·) (hbucket _) (hbucket _)
  refine
    { instIndex := hinst.trans h.instIndex
      qty := fun isLong => by rw [hqty, hheld, h.qty]
      small := fun isLong => by rw [hqty]; exact h.small isLong
      cost := fun isLong hzero => ?_
      size := fun isLong hne => by rw [hppl]; exact h.size isLong (hqty isLong ▸ hne)
      tickSize := htickSize ▸ h.tickSize
      tickPrice := by rw [htickPrice, htickSize, hinst, h.tickPrice]
      flagged := hposition ▸ h.flagged.updatePrice _
      multiplier := by rw [hposition, hinst]; exact h.multiplier
      worth := fun x => by rw [worthAt_congr hbooks, h.worth, hposition]; rfl }
  rw [cumPrice_of_books hbooks]
  exact h.cost isLong (hqty isLong ▸ hzero)

theorem Reconciled.step {byteOrder : ByteOrder} {paras : StrategyParameters} {inst : ℕ}
    {state state' : Instrument × FakeOrderManager} {a : Action} (h : Reconciled inst state)
    (hday : WithinDay state a) (hroom : EntersInRoom paras state a)
    (htake : step byteOrder paras state a = some state') : Reconciled inst state' := by
  cases a with
  | call c data now =>
      have hdata : data.instIndex = inst := hday.trans h.instIndex
      cases c with
      | doEnter => exact h.doEnter hdata hroom htake
      | doExit => exact h.doExit hdata htake
      | liquidate => exact h.liquidate hdata htake
  | other leg orderManager =>
      obtain rfl := Option.some.inj htake
      exact h.undisturbed hday

/-- In a day that starts flat, whose entries are counts that fit, the average-cost profit of
the strategy is the first-in first-out profit of the book whenever nothing is open. -/
theorem pnl_eq_of_run (byteOrder : ByteOrder) (paras : StrategyParameters) (cash : ℚ)
    (events : List BookEvent) {leg : Instrument} {orderManager : FakeOrderManager}
    (hbook : orderManager.posMgr = runBook cash events)
    (hstart : StartsFlat (leg, orderManager)) {actions : List Action}
    {state : Instrument × FakeOrderManager}
    (hrun : Run (step byteOrder paras) (fun s a => WithinDay s a ∧ EntersInRoom paras s a)
      (leg, orderManager) actions state)
    (hflat : ∀ isLong, state.1.openPositionQty isLong = 0) :
    state.1.pnl = (position state).getPositionPnl := by
  have hkept : Kept orderManager.posMgr := hbook ▸ kept_runBook cash events
  have hreconciled : Reconciled leg.instIndex state :=
    hrun.invariant (fun _ _ _ hpermit htake h => h.step hpermit.1 hpermit.2 htake)
      (reconciled_of_startsFlat hstart hkept)
  exact hreconciled.pnl_eq hflat

instance (paras : StrategyParameters) (leg : Instrument) : Decidable (HasRoom paras leg) :=
  inferInstanceAs (Decidable (_ → ∀ _ : Bool, _ → ∀ _ ∈ toInt _, _))

instance (paras : StrategyParameters) (state : Instrument × FakeOrderManager) :
    (a : Action) → Decidable (EntersInRoom paras state a)
  | .call .doEnter _ _ => inferInstanceAs (Decidable (HasRoom _ _))
  | .call .doExit _ _ | .call .liquidate _ _ | .other _ _ => .isTrue trivial

deriving instance DecidableEq for Account, Books

instance (state : Instrument × FakeOrderManager) : (a : Action) → Decidable (WithinDay state a)
  | .call _ _ _ => inferInstanceAs (Decidable (_ = _))
  | .other _ _ => inferInstanceAs (Decidable (_ ∧ _))

def quotedLeg (ppl maxPos : ℚ) : Instrument :=
  { addInstrument ['a'] with
    ppl := ppl
    maxPos := maxPos
    bidPrice := 100
    askPrice := 101 }

theorem startsFlat_quotedLeg (ppl maxPos : ℚ) :
    StartsFlat (quotedLeg ppl maxPos, newManager 0) where
  qty isLong := by cases isLong <;> rfl
  cost isLong := by cases isLong <;> rfl
  pnl := rfl
  held isLong := by cases isLong <;> rfl
  bookPnl := getPositionPnlAt_default _ _
  tickSize := by
    change getInstrumentTickSize (getInstrumentIndex ['a']) ≠ 0
    decide +kernel
  tickPrice := rfl

def shortRoundTrip (entries : ℕ) : List Action :=
  List.replicate entries (.call .doEnter (quoteTick 100) 36000000) ++
    [.call .doExit (quoteTick 100) 36000500]

/-- A short of one lot costs a unit of the price, which stands for ten. -/
theorem pnl_eq_of_run_short :
    ∃ state, Run (step .littleEndian (dayParas true))
        (fun s a => WithinDay s a ∧ EntersInRoom (dayParas true) s a)
        (quotedLeg 1 1, newManager 0) (shortRoundTrip 1) state ∧
      state.1.pnl = -10 ∧ state.1.pnl = (position state).getPositionPnl := by
  have hexecute : ((Run.execute (step .littleEndian (dayParas true))
      (fun s a => WithinDay s a ∧ EntersInRoom (dayParas true) s a)
      (quotedLeg 1 1, newManager 0) (shortRoundTrip 1)).map fun state =>
        (state.1.pnl, decide (∀ isLong, state.1.openPositionQty isLong = 0))) =
      some (-10, true) := by
    decide +kernel
  obtain ⟨state, hrun, hend⟩ := Run.exists_of_execute_map hexecute
  obtain ⟨hpnl, hflat⟩ := Prod.ext_iff.mp hend
  exact ⟨state, hrun, hpnl, pnl_eq_of_run .littleEndian (dayParas true) 0 [] rfl
    (startsFlat_quotedLeg 1 1) hrun (of_decide_eq_true hflat)⟩

/-- A negative size is not booked as a profit, and neither is one that no `int` counts. -/
theorem not_pnl_eq_of_run :
    (StartsFlat (quotedLeg (-3) 1, newManager 0) ∧
      ∃ state, Run (step .littleEndian (dayParas true)) WithinDay
          (quotedLeg (-3) 1, newManager 0) (shortRoundTrip 1) state ∧
        (∀ isLong, state.1.openPositionQty isLong = 0) ∧
          state.1.pnl ≠ (position state).getPositionPnl) ∧
    StartsFlat (quotedLeg (2 ^ 30) (2 ^ 31), newManager 0) ∧
      ∃ state, Run (step .littleEndian (dayParas true)) WithinDay
          (quotedLeg (2 ^ 30) (2 ^ 31), newManager 0) (shortRoundTrip 2) state ∧
        (∀ isLong, state.1.openPositionQty isLong = 0) ∧
          state.1.pnl ≠ (position state).getPositionPnl := by
  have hdays : ∀ day ∈ [((-3, 1), 1), ((2 ^ 30, 2 ^ 31), 2)],
      ((Run.execute (step .littleEndian (dayParas true)) WithinDay
        (quotedLeg day.1.1 day.1.2, newManager 0) (shortRoundTrip day.2)).map fun state =>
          decide ((∀ isLong, state.1.openPositionQty isLong = 0) ∧
            state.1.pnl ≠ (position state).getPositionPnl)) = some true := by
    decide +kernel
  refine ⟨⟨startsFlat_quotedLeg _ _, ?_⟩, startsFlat_quotedLeg _ _, ?_⟩
  · obtain ⟨state, hrun, hend⟩ := Run.exists_of_execute_map (hdays ((-3, 1), 1) (by simp))
    exact ⟨state, hrun, of_decide_eq_true hend⟩
  · obtain ⟨state, hrun, hend⟩ :=
      Run.exists_of_execute_map (hdays ((2 ^ 30, 2 ^ 31), 2) (by simp))
    exact ⟨state, hrun, of_decide_eq_true hend⟩

/-! ### The strategy's own steps -/

/-- What a day may bring: no price jumps, and what is entered fits. -/
def DayStep (libm : MathLibrary) (s : State) : SingleStrategy.Action → Prop
  | .marketData data now => ∀ leg ∈ tickLeg s data.instIndex,
      equityJumps libm s.globalParas data (leg.preTick.getD data) = false ∧
        (isValidEnterTime s.globalParas now = true →
          HasRoom s.globalParas (observe libm s.globalParas data now leg).1)
  | .marketDataBook _ | .timer _ | .otherRequest _ => True
  | .startDay | .startDayOrders _ | .startDayBook _ | .endDay => False

/-- The two accounts of each instrument agree, and there is one instrument for an index. -/
structure AllReconciled (s : State) : Prop where
  distinct : (s.pInstruments.map (·.instIndex)).Nodup
  reconciled : ∀ leg ∈ s.pInstruments, Reconciled leg.instIndex (leg, s.orderManager)

section Steps

variable {byteOrder : ByteOrder} {libm : MathLibrary} {paras : StrategyParameters}
  {data : CTickData} {now self inst : ℕ} {state state' : Instrument × FakeOrderManager}
  {s s' : State}

theorem Reconciled.trade (h : Reconciled inst state) (hdata : data.instIndex = inst)
    (hroom : isValidEnterTime paras now = true → HasRoom paras state.1)
    (htake : trade byteOrder paras data now state = some state') : Reconciled inst state' := by
  obtain ⟨entered, hentered, hrest⟩ := Option.bind_eq_some_iff.mp htake
  obtain ⟨left, hleft, hlast⟩ := Option.bind_eq_some_iff.mp hrest
  have h₁ : Reconciled inst entered :=
    keeps_ite h (fun htime htake => h.doEnter hdata (hroom htime) htake) hentered
  have h₂ : Reconciled inst left := keeps_ite h₁ (fun _ htake => h₁.doExit hdata htake) hleft
  exact keeps_ite h₂ (fun _ htake => h₂.liquidate hdata htake) hlast

theorem Reconciled.trade_other {other : Instrument}
    (h : Reconciled other.instIndex (other, state.2)) (hne : data.instIndex ≠ other.instIndex)
    (htake : SingleStrategy.trade byteOrder paras data now state = some state') :
    Reconciled other.instIndex (other, state'.2) := by
  have hrequest : ∀ (buys : Bool) (orderqty : ℕ) (flag : OpenCloseFlag) (price : ℚ),
      requestInstrument (newOrder data.instIndex buys orderqty flag price) ≠
        some other.instIndex := fun _ _ _ _ heq => hne (Option.some.inj heq)
  rw [trade_eq] at htake
  refine visitAll_invariant (I := fun x => Reconciled other.instIndex (other, x.2))
    (fun b mid mid' _ hsubmit hmid => ?_) htake h
  unfold Branch.submit at hsubmit
  split_ifs at hsubmit
  · obtain ⟨size, -, rfl⟩ := Option.map_eq_some_iff.mp hsubmit
    exact hmid.undisturbed (undisturbed_submitRequest other mid.2 byteOrder (hrequest _ _ _ _))
  · obtain ⟨size, -, rfl⟩ := Option.map_eq_some_iff.mp hsubmit
    exact hmid.undisturbed (undisturbed_submitRequest other mid.2 byteOrder (hrequest _ _ _ _))

/-- A tick leaves the two accounts of its instrument alike, and those of any other. -/
theorem reconciled_onTick {leg : Instrument} {mgr : FakeOrderManager}
    (hdata : data.instIndex = leg.instIndex) (h : Reconciled leg.instIndex (leg, mgr))
    (hjump : equityJumps libm paras data (leg.preTick.getD data) = false)
    (hroom : isValidEnterTime paras now = true →
      HasRoom paras (observe libm paras data now leg).1)
    (htick : onTick byteOrder libm paras data now (leg, mgr) = some state') :
    Reconciled leg.instIndex state' ∧
      ∀ other : Instrument, data.instIndex ≠ other.instIndex →
        Reconciled other.instIndex (other, mgr) →
        Reconciled other.instIndex (other, state'.2) := by
  have hobserved := h.undisturbed (undisturbed_observe libm paras data now leg mgr hjump)
  unfold onTick at htick
  split at htick
  · next observed heq =>
      rw [heq] at hobserved
      obtain rfl := Option.some.inj htick
      exact ⟨hobserved, fun other _ hother => hother⟩
  · next observed heq =>
      rw [heq] at hobserved hroom
      refine ⟨hobserved.trade hdata hroom htick, fun other hne hother => ?_⟩
      exact Reconciled.trade_other hother hne htick

theorem AllReconciled.undisturbed (h : AllReconciled s) {f : Instrument → Instrument}
    (hlegs : s'.pInstruments = s.pInstruments.map f)
    (hf : ∀ leg ∈ s.pInstruments, Undisturbed (leg, s.orderManager) (f leg, s'.orderManager)) :
    AllReconciled s' := by
  have hinst : ∀ leg ∈ s.pInstruments, (f leg).instIndex = leg.instIndex := fun leg hleg =>
    (sameTerms_of_account (congrArg Books.account (hf leg hleg).1)).1
  constructor
  · rw [hlegs, List.map_map]
    exact (List.map_congr_left hinst).symm ▸ h.distinct
  · intro leg hleg
    rw [hlegs] at hleg
    obtain ⟨old, hold, rfl⟩ := List.mem_map.mp hleg
    rw [hinst old hold]
    exact (h.reconciled old hold).undisturbed (hf old hold)

theorem AllReconciled.onMarketData (h : AllReconciled s)
    (hday : DayStep libm s (.marketData data now))
    (htake : s.onMarketData byteOrder libm data now = some s') : AllReconciled s' := by
  obtain ⟨i, hi, hrest⟩ := Option.bind_eq_some_iff.mp htake
  obtain ⟨leg, hleg, hlast⟩ := Option.bind_eq_some_iff.mp hrest
  obtain ⟨⟨leg', mgr⟩, htick, rfl⟩ := Option.map_eq_some_iff.mp hlast
  have hmem := List.mem_of_getElem? hleg
  have hinst := getInstrumentLeg_some hi hleg
  obtain ⟨hjump, hroom⟩ := hday leg (Option.bind_eq_some_iff.mpr ⟨i, hi, hleg⟩)
  obtain ⟨hown, hothers⟩ :=
    reconciled_onTick hinst.symm (h.reconciled leg hmem) hjump hroom htick
  have hindex := map_instIndex_set hleg hown.instIndex
  refine ⟨hindex ▸ h.distinct, fun other hother => ?_⟩
  obtain ⟨k, hk⟩ := List.mem_iff_getElem?.mp hother
  rw [List.getElem?_set] at hk
  split_ifs at hk with hik hlt
  · obtain rfl := Option.some.inj hk
    exact hown.instIndex.symm ▸ hown
  · have hthere := List.mem_of_getElem? hk
    refine hothers other (fun hsame => ?_) (h.reconciled other hthere)
    exact List.nodup_iff_forall_not_duplicate.mp h.distinct _
      (shared_of_ne hik hleg hk hinst hsame.symm)

theorem AllReconciled.step (h : AllReconciled s) {a : SingleStrategy.Action}
    (hday : DayStep libm s a)
    (htake : SingleStrategy.step byteOrder libm self s a = some s') : AllReconciled s' := by
  cases a with
  | startDay => exact hday.elim
  | startDayOrders date => exact hday.elim
  | startDayBook date => exact hday.elim
  | endDay => exact hday.elim
  | marketData data now => exact h.onMarketData hday htake
  | marketDataBook data =>
      obtain rfl := Option.some.inj htake
      exact h.undisturbed (List.map_id _).symm fun leg _ =>
        undisturbed_onMarketData data leg s.orderManager
  | timer eventID =>
      obtain rfl := Option.some.inj htake
      unfold State.onTimer
      split_ifs
      · exact h.undisturbed (s.pInstruments_updateMA libm) fun leg _ =>
          undisturbed_updateMA libm s.globalParas leg s.orderManager
      · exact h
  | otherRequest request =>
      obtain ⟨hother, rfl⟩ := step_otherRequest htake
      exact h.undisturbed (List.map_id _).symm fun leg hleg =>
        undisturbed_submitRequest leg s.orderManager byteOrder (hother leg hleg)

/-- On a day to which no instrument brings anything, the strategy's profit of each instrument is
the book's whenever nothing of it is open. -/
theorem pnl_eq_of_day {cash : ℚ} {events : List BookEvent}
    (hbook : s.orderManager.posMgr = runBook cash events)
    (hdistinct : (s.pInstruments.map (·.instIndex)).Nodup)
    (hrests : ∀ leg ∈ s.pInstruments, RestsFlat s.globalParas (leg, s.orderManager))
    {actions : List SingleStrategy.Action} {t : State}
    (hrun : Run (SingleStrategy.step byteOrder libm self) (DayStep libm) (s.onStartDay self)
      actions t) {leg : Instrument} (hleg : leg ∈ t.pInstruments)
    (hflat : ∀ isLong, leg.openPositionQty isLong = 0) :
    leg.pnl = (position (leg, t.orderManager)).getPositionPnl := by
  have hstart : AllReconciled (s.onStartDay self) := by
    constructor
    · rw [State.onStartDay, List.map_map]
      refine (List.map_congr_left fun leg _ => ?_).symm ▸ hdistinct
      exact (terms_initInstrument s.globalParas leg).1
    · intro leg hleg
      obtain ⟨old, hold, rfl⟩ := List.mem_map.mp hleg
      have hflat := startsFlat_initInstrument (hrests old hold)
      have hstarts : StartsFlat
          (old.initInstrument s.globalParas, (s.onStartDay self).orderManager) :=
        ⟨hflat.qty, hflat.cost, hflat.pnl, hflat.held, hflat.bookPnl, hflat.tickSize,
          hflat.tickPrice⟩
      exact reconciled_of_startsFlat hstarts (hbook ▸ kept_runBook cash events)
  have hend : AllReconciled t :=
    hrun.invariant (fun _ _ _ hday htake h => h.step hday htake) hstart
  exact (hend.reconciled leg hleg).pnl_eq hflat

end Steps

end BluesTrading.StrategyPnl
