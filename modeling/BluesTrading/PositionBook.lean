import BluesTrading.Foundations.LotQueue
import Mathlib.Algebra.Order.Field.Rat
import Mathlib.Tactic.Linarith
import Mathlib.Tactic.Ring

namespace BluesTrading.PositionBook

open BluesTrading.Foundations

structure TradeInfo where
  price : ℚ
  qty : ℕ
  isOpen : Bool
  isLong : Bool
  isToday : Bool
  deriving DecidableEq

structure PositionItem where
  price : ℚ
  qty : ℕ
  isLong : Bool
  isToday : Bool
  deriving DecidableEq

inductive PositionType
  | longToday
  | longYst
  | shortToday
  | shortYst
  deriving DecidableEq, Repr

namespace PositionType

def isLong : PositionType → Bool
  | .longToday | .longYst => true
  | .shortToday | .shortYst => false

def isToday : PositionType → Bool
  | .longToday | .shortToday => true
  | .longYst | .shortYst => false

def ofFlags : Bool → Bool → PositionType
  | true, true => .longToday
  | true, false => .longYst
  | false, true => .shortToday
  | false, false => .shortYst

@[simp] theorem ofFlags_flags (t : PositionType) : ofFlags t.isLong t.isToday = t := by
  cases t <;> rfl

@[simp] theorem isLong_ofFlags (l d : Bool) : (ofFlags l d).isLong = l := by
  cases l <;> cases d <;> rfl

@[simp] theorem isToday_ofFlags (l d : Bool) : (ofFlags l d).isToday = d := by
  cases l <;> cases d <;> rfl

/-- A long bucket gains when the price rises, a short one when it falls. -/
def sign (t : PositionType) : ℚ := if t.isLong then 1 else -1

end PositionType

/-- `CPosition` with the fields that some operation writes; the default is the
default constructor. -/
structure CPosition where
  lastPrice : ℚ := 0
  unitMultiplier : ℕ := 1
  realizedPnL : ℚ := 0
  tradeCount : ℕ := 0
  longPosition : List PositionItem := []
  longPositionYst : List PositionItem := []
  shortPosition : List PositionItem := []
  shortPositionYst : List PositionItem := []
  deriving DecidableEq

/-- Result of matching one closing trade against a queue: the queue left, the
realised profit and the quantity of the trade that found no position. -/
structure MatchResult where
  queue : List PositionItem
  realizedPnL : ℚ
  qty : ℕ

structure QryAmmount where
  qty : ℕ
  totalAmmount : ℚ

/-- The `while` loop of `addTrade`.  When the oldest item keeps some quantity
the trade has none left, so the loop condition fails at once. -/
def tradeMatchPos (calcDiff : ℚ → ℚ → ℚ) (unitMultiplier : ℕ) :
    TradeInfo → ℚ → List PositionItem → MatchResult
  | trade, realizedPnL, [] => ⟨[], realizedPnL, trade.qty⟩
  | trade, realizedPnL, oldest :: rest =>
      if trade.qty = 0 then ⟨oldest :: rest, realizedPnL, trade.qty⟩
      else
        let matchQty := min oldest.qty trade.qty
        let realizedPnL' :=
          realizedPnL + matchQty * calcDiff trade.price oldest.price * unitMultiplier
        let oldest' := { oldest with qty := oldest.qty - matchQty }
        let trade' := { trade with qty := trade.qty - matchQty }
        if oldest'.qty = 0 then
          tradeMatchPos calcDiff unitMultiplier trade' realizedPnL' rest
        else ⟨oldest' :: rest, realizedPnL', trade'.qty⟩

def shortCalcPrice (tradePrice posPrice : ℚ) : ℚ := tradePrice - posPrice

def longCalcPrice (tradePrice posPrice : ℚ) : ℚ := posPrice - tradePrice

namespace TradeInfo

/-- The bucket a trade works on: an opening trade fills the bucket of its own
side, a closing trade empties the bucket of the other side. -/
def bucket (trade : TradeInfo) : PositionType :=
  if trade.isOpen then PositionType.ofFlags trade.isLong trade.isToday
  else PositionType.ofFlags (!trade.isLong) trade.isToday

def calcDiff (trade : TradeInfo) : ℚ → ℚ → ℚ :=
  if trade.isLong then longCalcPrice else shortCalcPrice

theorem calcDiff_eq (trade : TradeInfo) (hclose : trade.isOpen = false) (u : ℚ) :
    trade.calcDiff trade.price u = trade.bucket.sign * (trade.price - u) := by
  unfold calcDiff bucket PositionType.sign
  cases h : trade.isLong <;> simp [hclose, longCalcPrice, shortCalcPrice]

end TradeInfo

namespace CPosition

def getPositions (pos : CPosition) : PositionType → List PositionItem
  | .longToday => pos.longPosition
  | .shortToday => pos.shortPosition
  | .longYst => pos.longPositionYst
  | .shortYst => pos.shortPositionYst

def setPositions (pos : CPosition) (t : PositionType) (q : List PositionItem) : CPosition :=
  match t with
  | .longToday => { pos with longPosition := q }
  | .shortToday => { pos with shortPosition := q }
  | .longYst => { pos with longPositionYst := q }
  | .shortYst => { pos with shortPositionYst := q }

def updatePrice (pos : CPosition) (price : ℚ) : CPosition :=
  { pos with lastPrice := price }

def resetTradeCount (pos : CPosition) : CPosition := { pos with tradeCount := 0 }

def addPosition (pos : CPosition) (positionItem : PositionItem) : CPosition :=
  let t := PositionType.ofFlags positionItem.isLong positionItem.isToday
  pos.setPositions t (pos.getPositions t ++ [positionItem])

def closeMatch (pos : CPosition) (trade : TradeInfo) : MatchResult :=
  tradeMatchPos trade.calcDiff pos.unitMultiplier trade pos.realizedPnL
    (pos.getPositions trade.bucket)

def addTrade (pos : CPosition) (trade : TradeInfo) : CPosition :=
  if trade.isOpen then
    let pos' := { pos with tradeCount := (pos.tradeCount + trade.qty) % 2 ^ 32 }
    pos'.addPosition ⟨trade.price, trade.qty, trade.isLong, trade.isToday⟩
  else
    let result := pos.closeMatch trade
    { pos.setPositions trade.bucket result.queue with realizedPnL := result.realizedPnL }

def unmatchedQty (pos : CPosition) (trade : TradeInfo) : ℕ :=
  if trade.isOpen then 0 else (pos.closeMatch trade).qty

/-- One pass of a `resetPnl` loop: close an item of bucket `t` at the mark and
open it again. -/
def reopenItem (t : PositionType) (pos : CPosition) (eachPos : PositionItem) : CPosition :=
  let info : TradeInfo :=
    { price := pos.lastPrice, qty := eachPos.qty, isOpen := false,
      isLong := !t.isLong, isToday := t.isToday }
  (pos.addTrade info).addTrade { info with isOpen := true, isLong := t.isLong }

/-- One range-for of `resetPnl`, read as one over the items present when it starts.  The loop
itself walks the deque that it takes from and appends to (`PositionWalk`). -/
def reopenBucket (pos : CPosition) (t : PositionType) : CPosition :=
  (pos.getPositions t).foldl (reopenItem t) pos

def resetPnl (pos : CPosition) : CPosition :=
  let reopened := (((pos.reopenBucket .shortToday).reopenBucket .shortYst).reopenBucket
    .longToday).reopenBucket .longYst
  { reopened with realizedPnL := 0 }

/-- The lambda that adds one queue to the running position profit. -/
def acculumate (unitMultiplier : ℕ) (price : ℚ) (positionPnl : ℚ)
    (positionQueue : List PositionItem) : ℚ :=
  positionQueue.foldl (fun sum each =>
    if each.isLong then sum + (price - each.price) * each.qty * unitMultiplier
    else sum + (each.price - price) * each.qty * unitMultiplier) positionPnl

def getPositionPnlAt (pos : CPosition) (price : ℚ) : ℚ :=
  let acc := acculumate pos.unitMultiplier price
  pos.realizedPnL +
    acc (acc (acc (acc 0 pos.shortPosition) pos.shortPositionYst) pos.longPosition)
      pos.longPositionYst

def getPositionPnl (pos : CPosition) : ℚ := pos.getPositionPnlAt pos.lastPrice

/-- The amount is accumulated with the running quantity, as in the source. -/
def getTotalQtyAmmount (pos : CPosition) (t : PositionType) : QryAmmount :=
  (pos.getPositions t).foldl (fun sum each =>
    let qty := (sum.qty + each.qty) % 2 ^ 32
    ⟨qty, sum.totalAmmount + each.price * qty⟩) ⟨0, 0⟩

end CPosition

end BluesTrading.PositionBook
