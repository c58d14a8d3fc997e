import BluesTrading.BookInvariants
import BluesTrading.PositionLaws

/-!
What a book of positions is for: it keeps a price for every unit that is held, the oldest first,
and the profit of the units that were closed.  How the units are packed into items is the book's
own affair.  Over every sequence of events the position manager does what this ledger of units
does.
-/

namespace BluesTrading.UnitLedger

open BluesTrading.Foundations
open BluesTrading.BookInvariants
open BluesTrading.InstrumentInfo
open BluesTrading.MarkPrice
open BluesTrading.OrderData
open BluesTrading.PositionBook
open BluesTrading.PositionLaws
open BluesTrading.PositionManager
open BluesTrading.PositionUnits
open BluesTrading.PositionValue
open BluesTrading.PositionWalk

/-! ### The units of one instrument -/

@[ext] structure UnitBook where
  lastPrice : ℚ
  unitMultiplier : ℕ
  realizedPnL : ℚ
  tradeCount : ℕ
  units : PositionType → List ℚ

namespace UnitBook

def empty (unitMultiplier : ℕ) : UnitBook := ⟨0, unitMultiplier, 0, 0, fun _ => []⟩

/-- What some units of a bucket gain at a price. -/
def gain (t : PositionType) (price : ℚ) (units : List ℚ) : ℚ :=
  t.sign * (units.map fun unit => price - unit).sum

def opens (b : UnitBook) (t : PositionType) (price : ℚ) (qty : ℕ) : UnitBook :=
  { b with
    tradeCount := (b.tradeCount + qty) % 2 ^ 32
    units := Function.update b.units t (b.units t ++ List.replicate qty price) }

/-- The oldest units are closed first. -/
def closes (b : UnitBook) (t : PositionType) (price : ℚ) (qty : ℕ) : UnitBook :=
  { b with
    realizedPnL := b.realizedPnL + b.unitMultiplier * gain t price ((b.units t).take qty)
    units := Function.update b.units t ((b.units t).drop qty) }

def trade (b : UnitBook) (info : TradeInfo) : UnitBook :=
  if info.isOpen then b.opens info.bucket info.price info.qty
  else b.closes info.bucket info.price info.qty

theorem gain_append (t : PositionType) (price : ℚ) (us vs : List ℚ) :
    gain t price (us ++ vs) = gain t price us + gain t price vs := by
  rw [gain, gain, gain, List.map_append, List.sum_append, mul_add]

theorem trade_trade (b : UnitBook) (info : TradeInfo) (m n : ℕ) :
    (b.trade { info with qty := m }).trade { info with qty := n } =
      b.trade { info with qty := m + n } := by
  by_cases hopen : info.isOpen = true
  · have hopens : ∀ b qty, trade b { info with qty := qty } = b.opens info.bucket info.price qty :=
      fun _ _ => if_pos hopen
    simp only [hopens, opens, Function.update_self, Function.update_idem, Nat.mod_add_mod,
      Nat.add_assoc, List.append_assoc, List.replicate_append_replicate]
  · have hcloses : ∀ b qty,
        trade b { info with qty := qty } = b.closes info.bucket info.price qty :=
      fun _ _ => if_neg hopen
    simp only [hcloses, closes, Function.update_self, Function.update_idem, List.drop_drop,
      List.take_add, gain_append, mul_add, add_assoc]

/-- The units are bought again at the mark. -/
def startDay (b : UnitBook) : UnitBook :=
  { b with
    realizedPnL := 0
    tradeCount := 0
    units := fun t => List.replicate (b.units t).length b.lastPrice }

def pnlAt (b : UnitBook) (price : ℚ) : ℚ :=
  b.realizedPnL + b.unitMultiplier *
    (gain .shortToday price (b.units .shortToday) + gain .shortYst price (b.units .shortYst) +
      gain .longToday price (b.units .longToday) + gain .longYst price (b.units .longYst))

def pnl (b : UnitBook) : ℚ := b.pnlAt b.lastPrice

end UnitBook

/-- The units of a position, without their items. -/
def unitBook (pos : CPosition) : UnitBook :=
  ⟨pos.lastPrice, pos.unitMultiplier, pos.realizedPnL, pos.tradeCount, bucketUnits pos⟩

theorem unitBook_new (unitMultiplier : ℕ) :
    unitBook { unitMultiplier := unitMultiplier } = .empty unitMultiplier := by
  apply UnitBook.ext
  · rfl
  · rfl
  · rfl
  · rfl
  · funext t
    cases t <;> rfl

theorem unitBook_addTrade (pos : CPosition) (trade : TradeInfo) :
    unitBook (pos.addTrade trade) = (unitBook pos).trade trade := by
  cases hopen : trade.isOpen with
  | true =>
      have hunits : bucketUnits (pos.addTrade trade) =
          Function.update (bucketUnits pos) trade.bucket
            (bucketUnits pos trade.bucket ++ List.replicate trade.qty trade.price) := by
        funext t
        rw [bucketUnits_addTrade_open pos trade hopen, Function.update_apply]
        split_ifs with hbucket
        · rw [hbucket]
        · rfl
      have hcount : (pos.addTrade trade).tradeCount = (pos.tradeCount + trade.qty) % 2 ^ 32 := by
        rw [CPosition.addTrade, if_pos hopen]
        exact tradeCount_setPositions ..
      rw [UnitBook.trade, if_pos hopen, UnitBook.opens, unitBook, hunits, hcount,
        lastPrice_addTrade, unitMultiplier_addTrade, realizedPnL_addTrade_open pos trade hopen]
      rfl
  | false =>
      have hunits : bucketUnits (pos.addTrade trade) =
          Function.update (bucketUnits pos) trade.bucket
            ((bucketUnits pos trade.bucket).drop trade.qty) := by
        funext t
        rw [bucketUnits_addTrade_close pos trade hopen, Function.update_apply]
        split_ifs with hbucket
        · rw [hbucket]
        · rfl
      have hcount : (pos.addTrade trade).tradeCount = pos.tradeCount := by
        simp only [CPosition.addTrade, hopen, Bool.false_eq_true, if_false]
        exact tradeCount_setPositions ..
      have hgain : (pos.addTrade trade).realizedPnL = pos.realizedPnL + pos.unitMultiplier *
          UnitBook.gain trade.bucket trade.price
            ((bucketUnits pos trade.bucket).take trade.qty) := by
        rw [realizedPnL_addTrade_close pos trade hopen, List.sum_map_mul_left]
        rfl
      rw [UnitBook.trade, if_neg (Bool.eq_false_iff.mp hopen), UnitBook.closes, unitBook, hunits,
        hcount, lastPrice_addTrade, unitMultiplier_addTrade, hgain]
      rfl

theorem unitBook_updatePrice (pos : CPosition) (price : ℚ) :
    unitBook (pos.updatePrice price) = { unitBook pos with lastPrice := price } := by
  rw [unitBook, funext (bucketUnits_updatePrice pos price)]
  rfl

theorem unitBook_startDayPosition (pos : CPosition) :
    unitBook (TestPositionManager.startDayPosition pos) = (unitBook pos).startDay := by
  have hunits : bucketUnits (TestPositionManager.startDayPosition pos) =
      fun t => List.replicate (bucketUnits pos t).length pos.lastPrice := by
    funext t
    rw [length_bucketUnits, ← bucketUnits_resetPnl, bucketUnits, bucketUnits,
      TestPositionManager.getPositions_startDayPosition]
  rw [unitBook, hunits, TestPositionManager.startDayPosition]
  simp only [CPosition.resetTradeCount, lastPrice_resetPnl, unitMultiplier_resetPnl]
  rfl

theorem pnlAt_unitBook {pos : CPosition} (h : WellFlagged pos) (price : ℚ) :
    (unitBook pos).pnlAt price = pos.getPositionPnlAt price :=
  (getPositionPnlAt_eq h price).symm

theorem qty_unitBook (pos : CPosition) (t : PositionType) :
    (pos.getTotalQtyAmmount t).qty = ((unitBook pos).units t).length % 2 ^ 32 := by
  rw [getTotalQtyAmmount_qty, ← length_bucketUnits]
  rfl

/-! ### The units of all instruments -/

@[ext] structure Ledger where
  books : OrderedMap ℕ UnitBook
  cash : ℚ

namespace Ledger

def init (cash : ℚ) : Ledger := ⟨OrderedMap.empty, cash⟩

def book (l : Ledger) (inst : ℕ) : UnitBook :=
  (l.books.find? inst).getD (.empty (getInstrumentUnitMultiplier inst))

/-- An instrument that is asked for has a book from then on. -/
def lookUp (l : Ledger) (inst : ℕ) : Ledger :=
  { l with books := l.books.insert inst (l.book inst) }

def fill (l : Ledger) (inst : ℕ) (info : TradeInfo) : Ledger :=
  { l with books := l.books.insert inst ((l.book inst).trade info) }

theorem fill_fill (l : Ledger) (inst : ℕ) (info : TradeInfo) (m n : ℕ) :
    (l.fill inst { info with qty := m }).fill inst { info with qty := n } =
      l.fill inst { info with qty := m + n } := by
  simp only [fill, book, OrderedMap.find?_insert_self, Option.getD_some, OrderedMap.insert_insert,
    UnitBook.trade_trade]

/-- A price for an instrument without a book is lost. -/
def mark (l : Ledger) (inst : ℕ) (price : ℚ) : Ledger :=
  { l with books := l.books.mapValues fun j b =>
      if j = inst then { b with lastPrice := price } else b }

/-- The profit of all instruments becomes cash. -/
def startDay (l : Ledger) : Ledger where
  books := l.books.mapValues fun _ b => b.startDay
  cash := l.cash + l.books.sumEntries fun _ b => b.pnl

def step (l : Ledger) : BookEvent → Ledger
  | .updateOrder order =>
      if orderStatus order = .orderFilled then l.fill (orderInstrument order) (orderTrade order)
      else l.lookUp (orderInstrument order)
  | .getPosition inst => l.lookUp inst
  | .marketData tick => l.mark tick.instIndex tick.lastPrice
  | .startDay _ => l.startDay

def run (cash : ℚ) (events : List BookEvent) : Ledger := events.foldl step (init cash)

end Ledger

def ledger (m : TestPositionManager) : Ledger :=
  ⟨m.allPositions.mapValues fun _ => unitBook, m.cash⟩

theorem book_ledger (m : TestPositionManager) (inst : ℕ) :
    (ledger m).book inst = unitBook (m.getPosition inst).1 := by
  rw [Ledger.book, TestPositionManager.getPosition_fst, ledger, OrderedMap.find?_mapValues]
  cases m.allPositions.find? inst with
  | none => exact (unitBook_new _).symm
  | some pos => rfl

theorem ledger_getPosition (m : TestPositionManager) (inst : ℕ) :
    ledger (m.getPosition inst).2 = (ledger m).lookUp inst := by
  apply Ledger.ext
  · ext1 j
    rw [Ledger.lookUp, OrderedMap.find?_insert, ledger, OrderedMap.find?_mapValues,
      TestPositionManager.find?_getPosition, book_ledger]
    split_ifs
    · rfl
    · exact (OrderedMap.find?_mapValues m.allPositions (fun _ => unitBook) j).symm
  · exact m.cash_getPosition inst

theorem ledger_bookTrade (m : TestPositionManager) (inst : ℕ) (status : OrderStatus)
    (trade : TradeInfo) :
    ledger (m.bookTrade inst status trade) =
      if status = .orderFilled then (ledger m).fill inst trade else (ledger m).lookUp inst := by
  by_cases hfilled : status = .orderFilled
  · apply Ledger.ext
    · rw [if_pos hfilled, ledger, TestPositionManager.allPositions_bookTrade, if_pos hfilled,
        OrderedMap.mapValues_insert, unitBook_addTrade, ← book_ledger]
      rfl
    · rw [if_pos hfilled]
      exact m.cash_bookTrade inst status trade
  · rw [if_neg hfilled, ← ledger_getPosition]
    simp only [TestPositionManager.bookTrade, if_neg hfilled]

theorem ledger_updatePrice (m : TestPositionManager) (data : CTickData) :
    ledger (m.updatePrice data) = (ledger m).mark data.instIndex data.lastPrice := by
  apply Ledger.ext
  · ext1 j
    rw [Ledger.mark, OrderedMap.find?_mapValues, ledger, ledger, OrderedMap.find?_mapValues,
      OrderedMap.find?_mapValues, TestPositionManager.find?_updatePrice]
    cases m.allPositions.find? j with
    | none => split_ifs <;> rfl
    | some pos =>
        split_ifs with hsame
        · simp only [Option.map_some, unitBook_updatePrice]
        · simp only [Option.map_some]
  · exact m.cash_updatePrice data

/-- Every item of the book carries the flags of its queue. -/
def Flagged (m : TestPositionManager) : Prop := ∀ inst, WellFlagged (m.getPosition inst).1

theorem Flagged.init (cash : ℚ) : Flagged (TestPositionManager.init cash) :=
  fun inst => positionInvariant_wellFlagged.new inst

theorem Flagged.step {m : TestPositionManager} (h : Flagged m) (event : BookEvent) :
    Flagged (stepBook m event) :=
  positionInvariant_wellFlagged.stepBook h fun _ _ => trivial

theorem ledger_onStartDay {m : TestPositionManager} (h : Flagged m) (date : ℕ) :
    ledger (m.onStartDay date) = (ledger m).startDay := by
  apply Ledger.ext
  · ext1 j
    rw [Ledger.startDay, OrderedMap.find?_mapValues, ledger, ledger, OrderedMap.find?_mapValues,
      OrderedMap.find?_mapValues, TestPositionManager.find?_onStartDay, Option.map_map,
      Option.map_map]
    congr 1
    funext pos
    exact unitBook_startDayPosition pos
  · have hpnl : (m.allPositions.sumEntries fun _ pos => pos.getPositionPnl) =
        (m.allPositions.mapValues fun _ => unitBook).sumEntries fun _ b => b.pnl := by
      rw [OrderedMap.sumEntries_mapValues]
      apply OrderedMap.sumEntries_congr
      intro inst pos hfound
      have hflagged : WellFlagged pos := by
        have hentry := h inst
        rwa [TestPositionManager.getPosition_fst, hfound] at hentry
      exact (pnlAt_unitBook hflagged pos.lastPrice).symm
    exact congrArg (m.cash + ·) hpnl

theorem ledger_stepBook {m : TestPositionManager} (h : Flagged m) (event : BookEvent) :
    ledger (stepBook m event) = (ledger m).step event := by
  cases event with
  | updateOrder order =>
      rw [stepBook, TestPositionManager.onUpdateOrder_eq]
      exact ledger_bookTrade ..
  | getPosition inst => exact ledger_getPosition m inst
  | marketData tick => exact ledger_updatePrice m tick
  | startDay date => exact ledger_onStartDay h date

theorem flagged_runBook (cash : ℚ) (events : List BookEvent) : Flagged (runBook cash events) :=
  positionInvariant_wellFlagged.runBook cash fun _ _ _ _ => trivial

/-- What is asked of a position is told by its units. -/
structure Shows (b : UnitBook) (pos : CPosition) : Prop where
  lastPrice : pos.lastPrice = b.lastPrice
  pnl : ∀ price, pos.getPositionPnlAt price = b.pnlAt price
  tradeCount : pos.tradeCount = b.tradeCount
  qty : ∀ t, (pos.getTotalQtyAmmount t).qty = (b.units t).length % 2 ^ 32

theorem Shows.getPositionPnl {b : UnitBook} {pos : CPosition} (h : Shows b pos) :
    pos.getPositionPnl = b.pnl := by
  rw [CPosition.getPositionPnl, h.pnl, h.lastPrice]
  rfl

theorem Flagged.shows {m : TestPositionManager} (h : Flagged m) (inst : ℕ) :
    Shows ((ledger m).book inst) (m.getPosition inst).1 := by
  rw [book_ledger]
  exact ⟨rfl, fun price => (pnlAt_unitBook (h inst) price).symm, rfl, qty_unitBook _⟩

theorem ledger_runBook (cash : ℚ) (events : List BookEvent) :
    ledger (runBook cash events) = Ledger.run cash events := by
  induction events using List.reverseRecOn with
  | nil => rfl
  | append_singleton events event ih =>
      rw [runBook, List.foldl_append, Ledger.run, List.foldl_append]
      exact (ledger_stepBook (flagged_runBook cash events) event).trans
        (congrArg (Ledger.step · event) ih)

/-- Over any events that the position manager comes through it is a ledger of units: the same cash,
and for every instrument the same units in every bucket, the same mark, realised gain and count of
trades.  What is asked of a position is told by them. -/
theorem runWalks_refines (cash : ℚ) (events : List (Rooms × BookEvent)) {m : TestPositionManager}
    (hm : runWalks cash events = some m) :
    ledger m = Ledger.run cash (events.map Prod.snd) ∧
      ∀ inst, Shows ((Ledger.run cash (events.map Prod.snd)).book inst) (m.getPosition inst).1 := by
  obtain rfl := eq_runBook_of_runWalks hm
  rw [← ledger_runBook]
  exact ⟨rfl, (flagged_runBook cash _).shows⟩

/-- Of the five units that were marked at the day start one is left. -/
theorem runWalks_refines_reopenedAndSold :
    ∃ m, runWalks 0 reopenedAndSold = some m ∧
      ledger m = Ledger.run 0 (reopenedAndSold.map Prod.snd) ∧
      ((Ledger.run 0 (reopenedAndSold.map Prod.snd)).book 5220000).units .longToday = [103] := by
  obtain ⟨m, hm⟩ := Option.isSome_iff_exists.mp
    (show (runWalks 0 reopenedAndSold).isSome by decide +kernel)
  exact ⟨m, hm, (runWalks_refines 0 reopenedAndSold hm).1, by decide +kernel⟩

end BluesTrading.UnitLedger
