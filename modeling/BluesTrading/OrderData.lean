import Mathlib.Data.Rat.Defs

namespace BluesTrading.OrderData

inductive SecurityExchange
  | sse
  | sze
  deriving DecidableEq, Repr

inductive FutureExchange
  | cffex
  | dce
  | shfe
  | czce
  deriving DecidableEq, Repr

inductive OrderPriceType
  | priceNone
  | limitOrder
  | marketOrder
  deriving DecidableEq, Repr

inductive OrderTimeType
  | timeNone
  | ioc
  deriving DecidableEq, Repr

/-- A client may send `flagClose`; the order manager selects the actual type. -/
inductive OpenCloseFlag
  | flagNone
  | flagOpen
  | flagClose
  | flagCloseToday
  | flagCloseYst
  deriving DecidableEq, Repr

inductive HedgeFlag
  | hedgeNone
  | speculation
  | arbitrage
  deriving DecidableEq, Repr

inductive LongShortFlag
  | flagNone
  | flagLong
  | flagShort
  deriving DecidableEq, Repr

inductive OrderStatus
  | orderPendingNew
  | orderNew
  | orderRejected
  | orderCanceled
  | orderFilled
  | orderPartFilled
  deriving DecidableEq, Repr

inductive OrderErrorCode
  | noError
  | notEnoughCash
  | notEnoughInventory
  deriving DecidableEq, Repr

structure CommonOrderStatusDetail where
  orderStatus : OrderStatus
  orderErrorCode : OrderErrorCode
  deriving DecidableEq

structure SecurityNewOrderRequest where
  instrumentID : ℕ
  price : ℚ
  orderqty : ℕ
  longshortflag : LongShortFlag
  deriving DecidableEq

structure FutureNewOrderRequest where
  instrumentID : ℕ
  orderqty : ℕ
  price : ℚ
  opencloseflag : OpenCloseFlag
  pricetype : OrderPriceType
  timetype : OrderTimeType
  hedgeflag : HedgeFlag
  longshortflag : LongShortFlag
  deriving DecidableEq

/-- The request union together with its `requestType` tag.  `unsupported`
stands for the tags that `submitRequest` does not dispatch on. -/
inductive OrderRequest
  | sseSecurityCancel (blueOrderID : ℕ)
  | sseSecurityModify (newOrder : SecurityNewOrderRequest) (blueOrderID : ℕ)
  | securityNewOrder (exchange : SecurityExchange) (request : SecurityNewOrderRequest)
  | futureNewOrder (exchange : FutureExchange) (request : FutureNewOrderRequest)
  | unsupported (requestType : ℕ)
  deriving DecidableEq

structure SecurityOrderDetail where
  instrumentID : ℕ
  orderQty : ℕ
  filledQty : ℕ
  orderprice : ℚ
  tradeprice : ℚ
  longshortflag : LongShortFlag
  common : CommonOrderStatusDetail
  deriving DecidableEq

structure FutureOrderDetail where
  instrumentID : ℕ
  orderqty : ℕ
  price : ℚ
  tradeprice : ℚ
  filledQty : ℕ
  opencloseflag : OpenCloseFlag
  pricetype : OrderPriceType
  timetype : OrderTimeType
  hedgeflag : HedgeFlag
  longshortflag : LongShortFlag
  common : CommonOrderStatusDetail
  deriving DecidableEq

/-- The order union together with the exchange type that selects its member. -/
inductive OrderUnion
  | sseOrder (exchangeType : SecurityExchange) (order : SecurityOrderDetail)
  | cffexOrder (exchangeType : FutureExchange) (order : FutureOrderDetail)
  deriving DecidableEq

structure OrderDataDetail where
  requestid : ℕ
  orderID : ℕ
  order : OrderUnion
  deriving DecidableEq

structure Depth where
  price : ℚ
  size : ℕ
  deriving DecidableEq

/-- A market-data tick; `depths` holds the bids first, then the asks. -/
structure CTickData where
  instIndex : ℕ
  timeInMS : ℕ := 0
  totVol : ℕ := 0
  openinterest : ℕ := 0
  lastPrice : ℚ := 0
  turnover : ℚ := 0
  bidLevels : ℕ := 0
  askLevels : ℕ := 0
  depths : List Depth := []
  deriving DecidableEq

end BluesTrading.OrderData
