import BluesTrading.Foundations.OrderedMap
import BluesTrading.InstrumentInfo
import BluesTrading.OrderData
import BluesTrading.PositionUnits

/-!
`testPositionManger`: the account and the positions of all instruments.
Position entries are created on first access, fills become trades, ticks move
the mark of existing entries, and the day start books the profit into cash.
-/

namespace BluesTrading.PositionManager

open BluesTrading.Foundations
open BluesTrading.InstrumentInfo
open BluesTrading.OrderData
open BluesTrading.PositionBook
open BluesTrading.PositionUnits

/-- `testPositionManger`; of the account only `cash` is ever used. -/
structure TestPositionManager where
  allPositions : OrderedMap ℕ CPosition
  cash : ℚ
  deriving DecidableEq

/-- The trade a filled security order stands for; a sale closes yesterday's
position only. -/
def securityTrade (order : SecurityOrderDetail) : TradeInfo :=
  if order.longshortflag = .flagLong then
    { price := order.tradeprice, qty := order.filledQty,
      isOpen := true, isLong := true, isToday := true }
  else
    { price := order.tradeprice, qty := order.filledQty,
      isOpen := false, isLong := false, isToday := false }

/-- The trade a filled future order stands for. -/
def futureTrade (order : FutureOrderDetail) : TradeInfo :=
  if order.opencloseflag = .flagOpen then
    { price := order.tradeprice, qty := order.filledQty,
      isOpen := true, isLong := decide (order.longshortflag = .flagLong), isToday := true }
  else
    { price := order.tradeprice, qty := order.filledQty,
      isOpen := false, isLong := decide (order.longshortflag = .flagLong),
      isToday := decide (order.opencloseflag = .flagCloseToday) }

def orderInstrument (order : OrderDataDetail) : ℕ :=
  match order.order with
  | .sseOrder _ o => o.instrumentID
  | .cffexOrder _ o => o.instrumentID

def orderStatus (order : OrderDataDetail) : OrderStatus :=
  match order.order with
  | .sseOrder _ o => o.common.orderStatus
  | .cffexOrder _ o => o.common.orderStatus

def orderTrade (order : OrderDataDetail) : TradeInfo :=
  match order.order with
  | .sseOrder _ o => securityTrade o
  | .cffexOrder _ o => futureTrade o

namespace TestPositionManager

def init (cash : ℚ) : TestPositionManager := ⟨OrderedMap.empty, cash⟩

def getPosition (m : TestPositionManager) (inst : ℕ) : CPosition × TestPositionManager :=
  match m.allPositions.find? inst with
  | some pos => (pos, m)
  | none =>
      let newPos : CPosition := { unitMultiplier := getInstrumentUnitMultiplier inst }
      (newPos, { m with allPositions := m.allPositions.insert inst newPos })

def setPosition (m : TestPositionManager) (inst : ℕ) (pos : CPosition) :
    TestPositionManager :=
  { m with allPositions := m.allPositions.insert inst pos }

/-- The position is looked up for every order, traded on only for a fill. -/
def bookTrade (m : TestPositionManager) (inst : ℕ) (status : OrderStatus)
    (trade : TradeInfo) : TestPositionManager :=
  let (pos, m') := m.getPosition inst
  if status = .orderFilled then m'.setPosition inst (pos.addTrade trade) else m'

def handleSecurityOrder (m : TestPositionManager) (order : SecurityOrderDetail) :
    TestPositionManager :=
  m.bookTrade order.instrumentID order.common.orderStatus (securityTrade order)

def handleFutureOrder (m : TestPositionManager) (order : FutureOrderDetail) :
    TestPositionManager :=
  m.bookTrade order.instrumentID order.common.orderStatus (futureTrade order)

def onUpdateOrder (m : TestPositionManager) (order : OrderDataDetail) :
    TestPositionManager :=
  match order.order with
  | .sseOrder _ sseOrder => m.handleSecurityOrder sseOrder
  | .cffexOrder _ cffexOrder => m.handleFutureOrder cffexOrder

def updatePrice (m : TestPositionManager) (data : CTickData) : TestPositionManager :=
  match m.allPositions.find? data.instIndex with
  | some pos => m.setPosition data.instIndex (pos.updatePrice data.lastPrice)
  | none => m

def onMarketData (m : TestPositionManager) (tick : CTickData) : TestPositionManager :=
  m.updatePrice tick

/-- The body of the loop in `resetPositionTodayToYst`, on its loop variable. -/
def moveTodayToYst (pos : CPosition) : CPosition :=
  let todayPos := (pos.getPositions .longToday).map fun item => { item with isToday := false }
  let moved := pos.setPositions .longYst (pos.getPositions .longYst ++ todayPos)
  moved.setPositions .longToday []

/-- The loop variable `each_pair` is a copy of the entry: the moved copies
are discarded at the end of each iteration. -/
def resetPositionTodayToYst (m : TestPositionManager) : TestPositionManager :=
  let _copies := m.allPositions.entries.map fun eachPair => moveTodayToYst eachPair.2
  m

def startDayPosition (pos : CPosition) : CPosition := pos.resetPnl.resetTradeCount

def onStartDay (m : TestPositionManager) (_date : ℕ) : TestPositionManager :=
  let m' := m.resetPositionTodayToYst
  { allPositions := m'.allPositions.mapValues fun _ pos => startDayPosition pos
    cash := m'.cash + m'.allPositions.sumEntries fun _ pos => pos.getPositionPnl }

/-! ### Single steps on the entries -/

theorem onUpdateOrder_eq (m : TestPositionManager) (order : OrderDataDetail) :
    m.onUpdateOrder order =
      m.bookTrade (orderInstrument order) (orderStatus order) (orderTrade order) := by
  unfold onUpdateOrder orderInstrument orderStatus orderTrade
  cases order.order <;> rfl

theorem find?_getPosition (m : TestPositionManager) (inst j : ℕ) :
    (m.getPosition inst).2.allPositions.find? j =
      if j = inst then some (m.getPosition inst).1 else m.allPositions.find? j := by
  unfold getPosition
  cases h : m.allPositions.find? inst with
  | none => simp [OrderedMap.find?_insert]
  | some pos =>
      by_cases hj : j = inst
      · simp [hj, h]
      · simp [hj]

theorem getPosition_fst (m : TestPositionManager) (inst : ℕ) :
    (m.getPosition inst).1 = (m.allPositions.find? inst).getD
      { unitMultiplier := getInstrumentUnitMultiplier inst } := by
  unfold getPosition
  cases m.allPositions.find? inst <;> rfl

theorem getPosition_getPosition (m : TestPositionManager) (inst j : ℕ) :
    ((m.getPosition inst).2.getPosition j).1 = (m.getPosition j).1 := by
  rw [getPosition_fst, find?_getPosition, getPosition_fst m j]
  split_ifs with h
  · rw [h, getPosition_fst, Option.getD_some]
  · rfl

/-- The second book has the positions of the first, and possibly some that a
look-up created. -/
structure LookedUp (m m' : TestPositionManager) : Prop where
  getPosition : ∀ j, (m'.getPosition j).1 = (m.getPosition j).1
  present : ∀ j, m.allPositions.find? j ≠ none → m'.allPositions.find? j ≠ none

theorem lookedUp_refl (m : TestPositionManager) : LookedUp m m := ⟨fun _ => rfl, fun _ => id⟩

theorem LookedUp.trans {m₁ m₂ m₃ : TestPositionManager} (h : LookedUp m₁ m₂)
    (h' : LookedUp m₂ m₃) : LookedUp m₁ m₃ where
  getPosition j := (h'.getPosition j).trans (h.getPosition j)
  present j hj := h'.present j (h.present j hj)

theorem lookedUp_getPosition (m : TestPositionManager) (inst : ℕ) :
    LookedUp m (m.getPosition inst).2 where
  getPosition j := getPosition_getPosition m inst j
  present j hj := by
    rw [find?_getPosition]
    split_ifs
    · exact Option.some_ne_none _
    · exact hj

@[simp] theorem cash_getPosition (m : TestPositionManager) (inst : ℕ) :
    (m.getPosition inst).2.cash = m.cash := by
  unfold getPosition
  cases m.allPositions.find? inst <;> rfl

@[simp] theorem cash_bookTrade (m : TestPositionManager) (inst : ℕ) (status : OrderStatus)
    (trade : TradeInfo) : (m.bookTrade inst status trade).cash = m.cash := by
  unfold bookTrade setPosition
  split_ifs <;> simp

@[simp] theorem cash_onUpdateOrder (m : TestPositionManager) (order : OrderDataDetail) :
    (m.onUpdateOrder order).cash = m.cash := by
  rw [onUpdateOrder_eq, cash_bookTrade]

theorem find?_bookTrade (m : TestPositionManager) (inst j : ℕ) (status : OrderStatus)
    (trade : TradeInfo) :
    (m.bookTrade inst status trade).allPositions.find? j =
      if j = inst then
        some (if status = .orderFilled then (m.getPosition inst).1.addTrade trade
          else (m.getPosition inst).1)
      else m.allPositions.find? j := by
  unfold bookTrade setPosition
  by_cases hstatus : status = .orderFilled
  · simp only [hstatus, if_true, OrderedMap.find?_insert, find?_getPosition]
    split_ifs <;> rfl
  · simp [hstatus, find?_getPosition]

theorem getPosition_bookTrade (m : TestPositionManager) (inst j : ℕ) (status : OrderStatus)
    (trade : TradeInfo) :
    ((m.bookTrade inst status trade).getPosition j).1 =
      if j = inst then
        if status = .orderFilled then (m.getPosition inst).1.addTrade trade
        else (m.getPosition inst).1
      else (m.getPosition j).1 := by
  rw [getPosition_fst, find?_bookTrade]
  by_cases h : j = inst
  · simp only [if_pos h, Option.getD_some]
  · rw [if_neg h, if_neg h, getPosition_fst m j]

theorem allPositions_bookTrade (m : TestPositionManager) (inst : ℕ) (status : OrderStatus)
    (trade : TradeInfo) :
    (m.bookTrade inst status trade).allPositions = m.allPositions.insert inst
      (if status = .orderFilled then (m.getPosition inst).1.addTrade trade
        else (m.getPosition inst).1) := by
  ext1 j
  rw [find?_bookTrade, OrderedMap.find?_insert]

theorem find?_updatePrice (m : TestPositionManager) (data : CTickData) (j : ℕ) :
    (m.updatePrice data).allPositions.find? j =
      if j = data.instIndex then
        (m.allPositions.find? j).map fun pos => pos.updatePrice data.lastPrice
      else m.allPositions.find? j := by
  unfold updatePrice setPosition
  cases h : m.allPositions.find? data.instIndex with
  | none =>
      by_cases hj : j = data.instIndex
      · simp [hj, h]
      · simp [hj]
  | some pos =>
      by_cases hj : j = data.instIndex
      · simp [hj, h]
      · simp [hj, OrderedMap.find?_insert]

@[simp] theorem cash_updatePrice (m : TestPositionManager) (data : CTickData) :
    (m.updatePrice data).cash = m.cash := by
  unfold updatePrice setPosition
  cases m.allPositions.find? data.instIndex <;> rfl

theorem find?_onStartDay (m : TestPositionManager) (date j : ℕ) :
    (m.onStartDay date).allPositions.find? j =
      (m.allPositions.find? j).map startDayPosition :=
  OrderedMap.find?_mapValues _ _ j

theorem getPosition_onMarketData (m : TestPositionManager) (tick : CTickData) (inst : ℕ) :
    ((m.onMarketData tick).getPosition inst).1 = (m.getPosition inst).1 ∨
      ((m.onMarketData tick).getPosition inst).1 =
        (m.getPosition inst).1.updatePrice tick.lastPrice := by
  rw [getPosition_fst, getPosition_fst, onMarketData, find?_updatePrice]
  split_ifs
  · cases m.allPositions.find? inst with
    | none => exact .inl rfl
    | some pos => exact .inr rfl
  · exact .inl rfl

theorem getPosition_onStartDay (m : TestPositionManager) (date inst : ℕ) :
    ((m.onStartDay date).getPosition inst).1 = (m.getPosition inst).1 ∨
      ((m.onStartDay date).getPosition inst).1 = startDayPosition (m.getPosition inst).1 := by
  rw [getPosition_fst, getPosition_fst, find?_onStartDay]
  cases m.allPositions.find? inst with
  | none => exact .inl rfl
  | some pos => exact .inr rfl

theorem getPositions_startDayPosition (pos : CPosition) (t : PositionType) :
    (startDayPosition pos).getPositions t = pos.resetPnl.getPositions t :=
  getPositions_tradeCount pos.resetPnl 0 t

theorem bucketQty_startDayPosition (pos : CPosition) (t : PositionType) :
    bucketQty (startDayPosition pos) t = bucketQty pos t := by
  rw [← bucketQty_resetPnl pos t, bucketQty, bucketQty, getPositions_startDayPosition]

end TestPositionManager

end BluesTrading.PositionManager
