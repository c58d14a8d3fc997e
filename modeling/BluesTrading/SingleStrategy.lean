import BluesTrading.OrderManager

/-!
`SingleStrategy`: for each of its instruments it counts the orders it sends as open
positions, whatever becomes of them.  Its callbacks change the counts of one instrument and
submit requests to the order manager.
-/

namespace BluesTrading.SingleStrategy

open BluesTrading.Foundations
open BluesTrading.InstrumentInfo
open BluesTrading.OrderData
open BluesTrading.OrderManager
open BluesTrading.SourceText

/-- The library functions on doubles, of which `abs` may be that of integers. -/
structure MathLibrary where
  abs : ℚ → ℚ
  log : ℚ → ℚ
  pow : ℚ → ℚ → ℚ

/-- The conversion of a double to an `int`, which is not defined out of its range. -/
def toInt (x : ℚ) : Option ℤ :=
  let n := if x < 0 then ⌈x⌉ else ⌊x⌋
  if isInt32 n then some n else none

/-- A number of 32 bits as an `int`. -/
def wrapInt (n : ℤ) : ℤ := n.bmod (2 ^ 32)

def toUInt32 (n : ℤ) : ℕ := (n % 2 ^ 32).toNat

def emptyDepth : Depth := ⟨0, 0⟩

def getBidDepth (tick : CTickData) (index : ℕ) : Depth :=
  if index ≤ tick.bidLevels then tick.depths.getD (index - 1) emptyDepth else emptyDepth

def getAskDepth (tick : CTickData) (index : ℕ) : Depth :=
  if index ≤ tick.askLevels then tick.depths.getD (index - 1 + tick.bidLevels) emptyDepth
  else emptyDepth

structure StrategyParameters where
  oppStartTime : ℕ
  openingTime : ℕ
  exitTime : ℕ
  liquidateTime : ℕ
  peeTime1 : ℕ
  peeTimeEnd1 : ℕ
  peeTime2 : ℕ
  peeTimeEnd2 : ℕ
  maWeight : ℚ
  volMAWeight : ℚ
  isCheckingSizeBeforeTrade : Bool
  isOverNight : Bool
  isMaOvernight : Bool
  isEquity : Bool
  isUsingSizeContrast : Bool
  totalPos : ℚ
  counter : ℤ
  thresholdSelf : ℤ
  tradingIntervalInMSec : ℤ

structure Instrument where
  instIndex : ℕ
  ppl : ℚ := 1
  maxPos : ℚ := 1
  volMultiplier : ℚ := 0
  enterSig : ℚ := 1
  enterProtection : ℚ := 0
  shapeFactor : ℚ := 1
  volumeProtection : ℚ := 1 / 2
  tickSize : ℚ := 1 / 100
  tickPrice : ℚ := 1
  commission : ℚ := 1
  preTick : Option CTickData := none
  midPrice : ℚ := 0
  selfBp : ℚ := 0
  ma : ℚ := -1
  maBy10K : ℚ := -1
  counter2 : ℤ := 0
  longOpenPositionQty : ℤ := 0
  shortOpenPositionQty : ℤ := 0
  cumLongPrice : ℚ := 0
  cumShortPrice : ℚ := 0
  bidPrice : ℚ := 0
  askPrice : ℚ := 0
  bidSize : ℤ := 0
  askSize : ℤ := 0
  preTradeTimeInMS : ℕ := 0
  preOppTimeInMS : ℕ := 0
  preBidOppSize : ℤ := 0
  preAskOppSize : ℤ := 0
  volatility : ℚ := 5
  volatilityMA : ℚ := 5
  volume : ℤ := 0
  preVolume : ℤ := 0
  vol : ℤ := 5
  volMA : ℚ := 5
  logVolDivideMA : ℚ := 1
  pnl : ℚ := 0
  netPnl : ℚ := 0
  numTrades : ℤ := 0
  canLong : Bool := true
  canShort : Bool := true
  oppCounterSelf : ℤ := 0
  stoploss : Bool := false
  lastPx : ℚ := 0
  isValid : Bool := true

/-- The loop body of `AddInstrument`. -/
def addInstrument (inst : Str) : Instrument :=
  let instIndex := getInstrumentIndex inst
  { instIndex := instIndex
    ppl := 1
    maxPos := 1
    volMultiplier := 0
    enterSig := 1
    enterProtection := 0
    shapeFactor := 1 / 2
    tickSize := getInstrumentTickSize instIndex
    tickPrice := getInstrumentUnitMultiplier instIndex * getInstrumentTickSize instIndex
    commission := 5 }

/-- The values that the messages of a configuration set for an instrument. -/
structure LegValues where
  ppl : ℚ
  enterSig : ℚ
  shapeFactor : ℚ
  volMultiplier : ℚ
  volatilityMA : ℚ

def LegValues.set (values : LegValues) (leg : Instrument) : Instrument :=
  { leg with
    ppl := values.ppl
    enterSig := values.enterSig
    shapeFactor := values.shapeFactor
    volMultiplier := values.volMultiplier
    volatilityMA := values.volatilityMA }

namespace Instrument

/-- The times are unsigned numbers of 64 bits. -/
def isReadyToOpp (leg : Instrument) (curTimeInMs minTimeInMS : ℕ) : Bool :=
  curTimeInMs ≥ (leg.preOppTimeInMS + minTimeInMS) % 2 ^ 64 ||
    curTimeInMs ≤ (leg.preOppTimeInMS + minTimeInMS + (2 ^ 64 - 100000)) % 2 ^ 64

def openPositionQty (leg : Instrument) : Bool → ℤ
  | true => leg.longOpenPositionQty
  | false => leg.shortOpenPositionQty

def initInstrument (paras : StrategyParameters) (leg : Instrument) : Instrument :=
  let p := { leg with midPrice := 0, selfBp := 0 }
  let p := if paras.isMaOvernight then p else { p with ma := -1, maBy10K := 0 }
  let p :=
    if paras.isOverNight then p
    else
      { p with
        lastPx := 0
        longOpenPositionQty := 0
        shortOpenPositionQty := 0
        cumLongPrice := 0
        cumShortPrice := 0
        oppCounterSelf := 0 }
  { p with
    pnl := 0
    netPnl := 0
    numTrades := 0
    stoploss := false
    askPrice := 0
    bidPrice := 0
    preAskOppSize := 0
    preBidOppSize := 0
    preTradeTimeInMS := 0
    preOppTimeInMS := 0
    askSize := 0
    bidSize := 0
    canLong := true
    canShort := true
    volume := -1
    preVolume := -1
    vol := -1
    volMA := -1
    logVolDivideMA := 0
    volatility := 0
    counter2 := 0 }

/-- A position is opened before its outcome is known. -/
def addPosition (leg : Instrument) (isLong : Bool) (orderqty now : ℕ) (price : ℚ) : Instrument :=
  let leg := { leg with
    preTradeTimeInMS := now
    numTrades := wrapInt (leg.numTrades + orderqty) }
  if isLong then
    { leg with
      longOpenPositionQty := wrapInt (leg.longOpenPositionQty + orderqty)
      cumLongPrice := leg.cumLongPrice + price * orderqty }
  else
    { leg with
      shortOpenPositionQty := wrapInt (leg.shortOpenPositionQty + orderqty)
      cumShortPrice := leg.cumShortPrice + price * orderqty }

def calculatePnl (paras : StrategyParameters) (isExitLongPosition : Bool) (exitSize : ℤ)
    (exitPx : ℚ) (leg : Instrument) : Instrument :=
  let cost := if paras.isEquity then leg.midPrice * (9 / 5) / 1000 else leg.commission
  if isExitLongPosition ∧ exitSize > 0 then
    let avgPx := leg.cumLongPrice / leg.longOpenPositionQty
    let pnl := exitSize * (exitPx - avgPx) / leg.tickSize * leg.tickPrice
    { leg with
      pnl := leg.pnl + pnl
      netPnl := leg.netPnl + (pnl - exitSize * cost)
      cumLongPrice := leg.cumLongPrice - exitSize * avgPx }
  else if ¬ isExitLongPosition ∧ exitSize > 0 then
    let avgPx := leg.cumShortPrice / leg.shortOpenPositionQty
    let pnl := exitSize * (avgPx - exitPx) / leg.tickSize * leg.tickPrice
    { leg with
      pnl := leg.pnl + pnl
      netPnl := leg.netPnl + (pnl - exitSize * cost)
      cumShortPrice := leg.cumShortPrice - exitSize * avgPx }
  else leg

def removePosition (leg : Instrument) (isLong : Bool) (orderqty now : ℕ) : Instrument :=
  let leg := { leg with preTradeTimeInMS := now }
  if isLong then
    { leg with longOpenPositionQty := wrapInt (leg.longOpenPositionQty - orderqty) }
  else { leg with shortOpenPositionQty := wrapInt (leg.shortOpenPositionQty - orderqty) }

end Instrument

/-! ### A tick -/

section Tick

variable (libm : MathLibrary) (paras : StrategyParameters) (data : CTickData)

/-- The part of `onMarketData` that may return early; the flag is false if it does. -/
def screen (leg : Instrument) : Instrument × Bool :=
  let bid := getBidDepth data 1
  let ask := getAskDepth data 1
  if ¬ leg.isValid then (leg, false)
  else if bid.price = 0 ∨ ask.price = 0 ∨ ask.price ≤ bid.price ∨
      bid.price < 10 * leg.tickSize ∨ ask.price < 10 * leg.tickSize then (leg, false)
  else
    let leg := { leg with midPrice := (bid.price + ask.price) / 2 }
    if leg.ma ≤ 0 then
      ({ leg with ma := leg.midPrice, maBy10K := leg.midPrice / 10000, lastPx := leg.midPrice },
        false)
    else if paras.isMaOvernight ∧ leg.lastPx < 1 then
      ({ leg with lastPx := leg.midPrice, maBy10K := leg.ma / 10000 }, false)
    else
      let preRecord := leg.preTick.getD data
      let leg := { leg with preTick := some data }
      if data.totVol < preRecord.totVol then (leg, false)
      else if libm.abs (bid.price - leg.ma) / bid.price > 1 / 5 ∨
          libm.abs (ask.price - leg.ma) / ask.price > 1 / 5 ∨
          libm.abs (ask.price - bid.price) / bid.price > 1 / 10 ∨
          -- the last quotient is not compared with anything
          libm.abs (data.lastPrice - bid.price) / bid.price ≠ 0 then (leg, false)
      else (leg, true)

/-- The prices of an equity have jumped since the tick before. -/
def equityJumps (preRecord : CTickData) : Bool :=
  let bid := getBidDepth data 1
  let ask := getAskDepth data 1
  paras.isOverNight && paras.isEquity &&
    (libm.abs (ask.price - (getAskDepth preRecord 1).price) / ask.price > 1 / 10 ||
      libm.abs (bid.price - (getBidDepth preRecord 1).price) / bid.price > 1 / 10)

def resetPosition (leg : Instrument) : Instrument :=
  { leg with
    longOpenPositionQty := 0
    shortOpenPositionQty := 0
    cumLongPrice := 0
    cumShortPrice := 0 }

def quote (leg : Instrument) : Instrument :=
  let leg :=
    if leg.maBy10K > 0 then { leg with selfBp := (leg.midPrice - leg.ma) / leg.maBy10K } else leg
  let bid := getBidDepth data 1
  let ask := getAskDepth data 1
  { leg with
    askPrice := ask.price
    bidPrice := bid.price
    askSize := wrapInt ask.size
    bidSize := wrapInt bid.size
    volume := wrapInt data.totVol }

def updateOpp (now : ℕ) (leg : Instrument) : Instrument :=
  let isReadyOpp := leg.isReadyToOpp now (toUInt32 paras.tradingIntervalInMSec)
  let width := leg.enterSig * max 1 (libm.pow leg.volatilityMA leg.volMultiplier)
  let long : ℚ := leg.longOpenPositionQty
  let short : ℚ := leg.shortOpenPositionQty
  if leg.selfBp < min (leg.shapeFactor * leg.logVolDivideMA - width) (-leg.enterProtection) ∧
      leg.logVolDivideMA > leg.volumeProtection ∧
      (paras.isCheckingSizeBeforeTrade → leg.bidSize ≠ leg.preBidOppSize) ∧ isReadyOpp then
    if (long < 1 / 2 ∧ short < 1 / 2 ∧ leg.oppCounterSelf > -paras.thresholdSelf) ∨
        (long > 1 / 2 ∧ leg.oppCounterSelf > 0) ∨
        (short > 1 / 2 ∧ leg.oppCounterSelf > -paras.thresholdSelf) then
      { leg with
        oppCounterSelf := leg.oppCounterSelf - 1
        preBidOppSize := leg.bidSize
        preOppTimeInMS := now }
    else leg
  else if leg.selfBp > min (leg.shapeFactor * leg.logVolDivideMA + width) leg.enterProtection ∧
      leg.logVolDivideMA > leg.volumeProtection ∧
      (paras.isCheckingSizeBeforeTrade → leg.askSize ≠ leg.preAskOppSize) ∧ isReadyOpp then
    if (short < 1 / 2 ∧ long < 1 / 2 ∧ leg.oppCounterSelf < paras.thresholdSelf) ∨
        (short > 1 / 2 ∧ leg.oppCounterSelf < 0) ∨
        (long > 1 / 2 ∧ leg.oppCounterSelf < paras.thresholdSelf) then
      { leg with
        oppCounterSelf := leg.oppCounterSelf + 1
        preAskOppSize := leg.askSize
        preOppTimeInMS := now }
    else leg
  else leg

/-- `now` is within one of the trading periods between two times of the day. -/
def inPeriods (start finish now : ℕ) : Bool :=
  (now > start && now < paras.peeTime1) || (now > paras.peeTimeEnd1 && now < paras.peeTime2) ||
    (now > paras.peeTimeEnd2 && now < finish)

def isValidOppTime (now : ℕ) : Bool := inPeriods paras paras.oppStartTime paras.liquidateTime now

def isValidEnterTime (now : ℕ) : Bool := inPeriods paras paras.openingTime paras.exitTime now

def isValidExitTime (now : ℕ) : Bool := inPeriods paras paras.openingTime paras.liquidateTime now

def isLiquidateTime (now : ℕ) : Bool := now > paras.liquidateTime

end Tick

/-! ### Orders -/

/-- The request of an order; the strategy leaves its price type, time type and hedge flag
unset. -/
def newOrder (instrumentID : ℕ) (isLong : Bool) (orderqty : ℕ) (opencloseflag : OpenCloseFlag)
    (price : ℚ) : OrderRequest :=
  .futureNewOrder .shfe
    { instrumentID := instrumentID
      orderqty := orderqty
      price := price
      opencloseflag := opencloseflag
      pricetype := .priceNone
      timetype := .timeNone
      hedgeflag := .hedgeNone
      longshortflag := if isLong then .flagLong else .flagShort }

section Trade

variable (byteOrder : ByteOrder) (paras : StrategyParameters) (data : CTickData) (now : ℕ)

/-- Open a position of one side.  There is no result if its size is not an `int`. -/
def enter (isLong : Bool) (price : ℚ) (state : Instrument × FakeOrderManager) :
    Option (Instrument × FakeOrderManager) :=
  let (leg, orderManager) := state
  (toInt (leg.ppl + 1 / 2)).map fun size =>
    let orderqty := toUInt32 size
    let request := newOrder data.instIndex isLong orderqty .flagOpen price
    (leg.addPosition isLong orderqty now price, (orderManager.submitRequest byteOrder request).2.1)

/-- Close a position of one side, or a part of it. -/
def leave (isLong : Bool) (price : ℚ) (state : Instrument × FakeOrderManager) :
    Option (Instrument × FakeOrderManager) :=
  let (leg, orderManager) := state
  (toInt (min (leg.ppl + 1 / 2) (leg.openPositionQty isLong))).map fun size =>
    let orderqty := toUInt32 size
    let request := newOrder data.instIndex (!isLong) orderqty .flagClose price
    ((leg.calculatePnl paras isLong (wrapInt orderqty) price).removePosition isLong orderqty now,
      (orderManager.submitRequest byteOrder request).2.1)

def wantsShort (leg : Instrument) : Bool :=
  leg.shortOpenPositionQty < leg.maxPos && leg.longOpenPositionQty = 0 && leg.canShort &&
    leg.selfBp ≥ 0 && leg.oppCounterSelf ≤ -paras.thresholdSelf &&
    (if paras.isUsingSizeContrast then leg.askSize ≥ leg.bidSize else true)

def wantsLong (leg : Instrument) : Bool :=
  leg.longOpenPositionQty < leg.maxPos && leg.shortOpenPositionQty = 0 && leg.canLong &&
    leg.selfBp ≤ 0 && leg.oppCounterSelf ≥ paras.thresholdSelf &&
    (if paras.isUsingSizeContrast then leg.bidSize ≥ leg.askSize else true)

def doEnter (state : Instrument × FakeOrderManager) : Option (Instrument × FakeOrderManager) :=
  if state.1.stoploss then some state
  else
    (if wantsShort paras state.1 then enter byteOrder data now false state.1.bidPrice state
      else some state).bind fun state =>
    if wantsLong paras state.1 then enter byteOrder data now true state.1.askPrice state
    else some state

def leavesLong (leg : Instrument) : Bool :=
  leg.longOpenPositionQty ≠ 0 && (leg.stoploss || (leg.selfBp ≥ 0 && leg.oppCounterSelf ≤ 0 &&
    (if paras.isUsingSizeContrast then leg.askSize ≥ leg.bidSize else true)))

def leavesShort (leg : Instrument) : Bool :=
  leg.shortOpenPositionQty ≠ 0 && (leg.stoploss || (leg.selfBp ≤ 0 && leg.oppCounterSelf ≥ 0 &&
    (if paras.isUsingSizeContrast then leg.bidSize ≥ leg.askSize else true)))

def doExit (state : Instrument × FakeOrderManager) : Option (Instrument × FakeOrderManager) :=
  (if leavesLong paras state.1 then leave byteOrder paras data now true state.1.bidPrice state
    else some state).bind fun state =>
  if leavesShort paras state.1 then leave byteOrder paras data now false state.1.askPrice state
  else some state

def liquidate (state : Instrument × FakeOrderManager) : Option (Instrument × FakeOrderManager) :=
  (if state.1.longOpenPositionQty ≠ 0 then
      leave byteOrder paras data now true state.1.bidPrice state
    else some state).bind fun state =>
  if state.1.shortOpenPositionQty ≠ 0 then
    leave byteOrder paras data now false state.1.askPrice state
  else some state

end Trade

section MarketData

variable (byteOrder : ByteOrder) (libm : MathLibrary) (paras : StrategyParameters)
  (data : CTickData) (now : ℕ)

/-- What a tick changes before anything is traded; the flag is false if nothing will be. -/
def observe (leg : Instrument) : Instrument × Bool :=
  match screen libm paras data leg with
  | (screened, false) => (screened, false)
  | (screened, true) =>
      let reset :=
        if equityJumps libm paras data (leg.preTick.getD data) then resetPosition screened
        else screened
      let quoted := quote data reset
      (if isValidOppTime paras now then updateOpp libm paras now quoted else quoted, true)

def trade (state : Instrument × FakeOrderManager) : Option (Instrument × FakeOrderManager) :=
  (if isValidEnterTime paras now then doEnter byteOrder paras data now state
    else some state).bind fun state =>
  (if isValidExitTime paras now then doExit byteOrder paras data now state
    else some state).bind fun state =>
  if isLiquidateTime paras now ∧ ¬ paras.isOverNight then
    liquidate byteOrder paras data now state
  else some state

def onTick (state : Instrument × FakeOrderManager) : Option (Instrument × FakeOrderManager) :=
  match observe libm paras data now state.1 with
  | (leg, false) => some (leg, state.2)
  | (leg, true) => trade byteOrder paras data now (leg, state.2)

end MarketData

/-! ### The moving averages -/

section UpdateMA

variable (libm : MathLibrary) (paras : StrategyParameters)

/-- The body of the first loop of `updateMA`. -/
def updatePrices (leg : Instrument) : Instrument :=
  if ¬ leg.isValid then leg
  else
    let leg :=
      if leg.ma > 0 ∧ leg.midPrice > 0 then
        let ma := leg.ma * (1 - paras.maWeight) + leg.midPrice * paras.maWeight
        let leg := { leg with
          ma := ma
          maBy10K := ma / 10000
          selfBp := (leg.midPrice - ma) / (ma / 10000) }
        if leg.lastPx > 0 ∧ paras.counter > 100 then
          { leg with
            volatility := leg.volatility + libm.abs (leg.lastPx - leg.midPrice) / leg.maBy10K
            lastPx := leg.midPrice }
        else leg
      else leg
    let leg :=
      if leg.preVolume > 0 then { leg with vol := wrapInt (leg.volume - leg.preVolume) } else leg
    let leg := { leg with preVolume := leg.volume }
    if leg.volMA < 0 ∧ leg.vol > 0 then { leg with volMA := 50 }
    else
      let volMA := leg.volMA * (1 - 1 / 100) + (leg.vol : ℚ) * (1 / 100)
      { leg with volMA := volMA, logVolDivideMA := libm.log (leg.vol / max 1 volMA + 1) }

/-- The other thing that the loop body does: nothing reads the sum. -/
def addPositions (totalPos : ℚ) (leg : Instrument) : ℚ :=
  if ¬ leg.isValid then totalPos
  else totalPos + wrapInt (leg.shortOpenPositionQty + leg.longOpenPositionQty)

def countUpdate (leg : Instrument) : Instrument :=
  if leg.isValid ∧ leg.volume > 0 then { leg with counter2 := leg.counter2 + 1 } else leg

def updateVolatility (leg : Instrument) : Instrument :=
  if leg.isValid ∧ leg.volatility > 0 then
    { leg with
      volatilityMA := leg.volatilityMA * (1 - paras.volMAWeight) +
        leg.volatility / max 1 leg.counter2 * paras.volMAWeight }
  else leg

end UpdateMA

/-! ### The strategy with its order manager -/

structure State where
  globalParas : StrategyParameters
  pInstruments : List Instrument
  orderManager : FakeOrderManager

namespace State

def configured (globalParas : StrategyParameters) (legs : List (Str × LegValues))
    (orderManager : FakeOrderManager) : State where
  globalParas := globalParas
  pInstruments := legs.map fun leg => leg.2.set (addInstrument leg.1)
  orderManager := orderManager

variable (byteOrder : ByteOrder) (libm : MathLibrary) (self : ℕ)

/-- The first instrument of an index, by its place. -/
def getInstrumentLeg (s : State) (instIndex : ℕ) : Option ℕ :=
  s.pInstruments.findIdx? fun leg => leg.instIndex = instIndex

/-- Every day the strategy subscribes to the orders again, and to instruments and a timer. -/
def onStartDay (s : State) : State :=
  { s with
    pInstruments := s.pInstruments.map (·.initInstrument s.globalParas)
    orderManager := { s.orderManager with
      orderdataSubscribers := s.orderManager.orderdataSubscribers.insert self 0 } }

/-- There is no result when there is no instrument of the index. -/
def onMarketData (s : State) (data : CTickData) (now : ℕ) : Option State :=
  (s.getInstrumentLeg data.instIndex).bind fun i =>
    (s.pInstruments[i]?).bind fun leg =>
      (onTick byteOrder libm s.globalParas data now (leg, s.orderManager)).map
        fun (leg, orderManager) =>
          { s with pInstruments := s.pInstruments.set i leg, orderManager := orderManager }

def updateMA (s : State) : State :=
  let legs := s.pInstruments.map (updatePrices libm s.globalParas)
  let totalPos := s.pInstruments.foldl addPositions s.globalParas.totalPos
  let (legs, counter) :=
    if s.globalParas.counter > 100 then (legs.map countUpdate, 0)
    else (legs, s.globalParas.counter + 1)
  { s with
    globalParas := { s.globalParas with totalPos := totalPos, counter := counter }
    pInstruments := legs.map (updateVolatility s.globalParas) }

theorem pInstruments_updateMA (s : State) :
    (s.updateMA libm).pInstruments = s.pInstruments.map fun leg =>
      updateVolatility s.globalParas
        (if s.globalParas.counter > 100 then countUpdate (updatePrices libm s.globalParas leg)
        else updatePrices libm s.globalParas leg) := by
  unfold updateMA
  dsimp only
  split_ifs
  · rw [List.map_map, List.map_map]
    rfl
  · rw [List.map_map]
    rfl

def onTimer (s : State) (eventID : ℕ) : State := if eventID = 2 then s.updateMA libm else s

/-- The last tick is copied, and each position is looked up for the log. -/
def onEndDay (s : State) : State :=
  { s with
    orderManager := { s.orderManager with
      posMgr := s.pInstruments.foldl (fun m leg => (m.getPosition leg.instIndex).2)
        s.orderManager.posMgr } }

end State

/-- The instrument a request opens or closes positions of. -/
def requestInstrument : OrderRequest → Option ℕ
  | .securityNewOrder _ request => some request.instrumentID
  | .futureNewOrder _ request => some request.instrumentID
  | _ => none

/-- The callbacks of the strategy, and those of the order manager and the position manager
behind it.  The day starts and the ticks reach them in any order.  Somebody else may submit
requests for instruments that the strategy does not have. -/
inductive Action
  | startDay
  | startDayOrders (date : ℕ)
  | startDayBook (date : ℕ)
  | marketData (data : CTickData) (now : ℕ)
  | marketDataBook (data : CTickData)
  | timer (eventID : ℕ)
  | endDay
  | otherRequest (request : OrderRequest)

def step (byteOrder : ByteOrder) (libm : MathLibrary) (self : ℕ) (s : State) :
    Action → Option State
  | .startDay => some (s.onStartDay self)
  | .startDayOrders date => some { s with orderManager := s.orderManager.onStartDay date }
  | .startDayBook date =>
      some { s with orderManager := { s.orderManager with
        posMgr := s.orderManager.posMgr.onStartDay date } }
  | .marketData data now => s.onMarketData byteOrder libm data now
  | .marketDataBook data =>
      some { s with orderManager := { s.orderManager with
        posMgr := s.orderManager.posMgr.onMarketData data } }
  | .timer eventID => some (s.onTimer libm eventID)
  | .endDay => some s.onEndDay
  | .otherRequest request =>
      if ∃ leg ∈ s.pInstruments, requestInstrument request = some leg.instIndex then none
      else some { s with orderManager := (s.orderManager.submitRequest byteOrder request).2.1 }

theorem step_otherRequest {byteOrder : ByteOrder} {libm : MathLibrary} {self : ℕ} {s s' : State}
    {request : OrderRequest}
    (htake : step byteOrder libm self s (.otherRequest request) = some s') :
    (∀ leg ∈ s.pInstruments, requestInstrument request ≠ some leg.instIndex) ∧
      s' = { s with orderManager := (s.orderManager.submitRequest byteOrder request).2.1 } := by
  rw [step] at htake
  split_ifs at htake with hown
  exact ⟨fun leg hleg heq => hown ⟨leg, hleg, heq⟩, (Option.some.inj htake).symm⟩

end BluesTrading.SingleStrategy
