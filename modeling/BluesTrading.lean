import BluesTrading.PortfolioConservation
import BluesTrading.DayRoll
import BluesTrading.OrderLookup
import BluesTrading.CloseCoverage
import BluesTrading.ReplayDelivery
import BluesTrading.DayReplaySchedule
import BluesTrading.CacheCompleteness
import BluesTrading.ConfigProduct
import BluesTrading.TimerDelivery
import BluesTrading.DayClock
import BluesTrading.OrderOutcomes
import BluesTrading.DispatchExclusion
import BluesTrading.DayWindow
import BluesTrading.TickArchive
import BluesTrading.CacheProvenance
import BluesTrading.StrategyLedger
import BluesTrading.TimerClosing
import BluesTrading.TickReplay
import BluesTrading.TimerTrace
import BluesTrading.PositionLaws
import BluesTrading.CloseSplit
import BluesTrading.MarkPrice
import BluesTrading.CashBound
import BluesTrading.OrderIds
import BluesTrading.TimerTermination
import BluesTrading.EarlyTimers
import BluesTrading.TickCsvFile
import BluesTrading.RequestSides
import BluesTrading.CacheScan
import BluesTrading.ConfigLines
import BluesTrading.StrategyOrders
import BluesTrading.StrategyExposure
import BluesTrading.StrategyPnl
import BluesTrading.StrategyLimit
import BluesTrading.StrategyTiming
import BluesTrading.TickFilter
import BluesTrading.DispatchProgress
import BluesTrading.LegProperties
import BluesTrading.ConfigChoice
import BluesTrading.TickCsvSafety
import BluesTrading.CookData
import BluesTrading.EmptyPositions
import BluesTrading.BookInvariants
import BluesTrading.TimeText
import BluesTrading.Backtest
import BluesTrading.TestFixture
import BluesTrading.StrategyAverage
import BluesTrading.UnitLedger
import BluesTrading.LotPacking
import BluesTrading.StrategyMessage
