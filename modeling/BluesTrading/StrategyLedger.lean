import BluesTrading.CloseSplit
import BluesTrading.PositionValue
import BluesTrading.SingleStrategy
import Mathlib.Data.List.NodupEquivFin

namespace BluesTrading.StrategyLedger

open BluesTrading.Foundations
open BluesTrading.CloseCoverage
open BluesTrading.CloseSplit
open BluesTrading.InstrumentInfo
open BluesTrading.OrderData
open BluesTrading.OrderManager
open BluesTrading.OrderOutcomes
open BluesTrading.PositionBook
open BluesTrading.PositionManager
open BluesTrading.PositionUnits
open BluesTrading.PositionValue
open BluesTrading.SingleStrategy
open BluesTrading.SourceText

/-- What is held on one side, of today and of yesterday. -/
def sideHeld (m : TestPositionManager) (inst : ℕ) (isLong : Bool) : ℕ :=
  held m inst (.ofFlags isLong true) + held m inst (.ofFlags isLong false)

def sideTotal (m : TestPositionManager) (inst : ℕ) (isLong : Bool) : ℕ :=
  ((m.getPosition inst).1.getTotalQtyAmmount (.ofFlags isLong true)).qty +
    ((m.getPosition inst).1.getTotalQtyAmmount (.ofFlags isLong false)).qty

/-- Both accounts of every instrument are the same. -/
def Agree (s : State) : Prop :=
  ∀ leg ∈ s.pInstruments,
    leg.longOpenPositionQty = sideTotal s.orderManager.posMgr leg.instIndex true ∧
      leg.shortOpenPositionQty = sideTotal s.orderManager.posMgr leg.instIndex false

theorem sideTotal_eq {m : TestPositionManager} {inst : ℕ} {isLong : Bool}
    (h : sideHeld m inst isLong < 2 ^ 32) : sideTotal m inst isLong = sideHeld m inst isLong := by
  unfold sideHeld held at *
  rw [sideTotal, getTotalQtyAmmount_qty, getTotalQtyAmmount_qty, Nat.mod_eq_of_lt (by omega),
    Nat.mod_eq_of_lt (by omega)]

theorem sideHeld_congr {m m' : TestPositionManager} {inst : ℕ}
    (h : ∀ t, held m' inst t = held m inst t) (isLong : Bool) :
    sideHeld m' inst isLong = sideHeld m inst isLong := by
  rw [sideHeld, h, h, sideHeld]

/-! ### The book under the orders of the strategy -/

section Book

variable (byteOrder : ByteOrder) (mgr : FakeOrderManager) (inst : ℕ) (isLong : Bool)
  (orderqty : ℕ) (price : ℚ)

theorem held_fillOrder_open {order : OrderDataDetail}
    (hopen : (orderTrade (tradeOrder order)).isOpen = true) (j : ℕ) (t : PositionType) :
    held (mgr.fillOrder order).posMgr j t = held mgr.posMgr j t +
      if j = orderInstrument order ∧ t = (orderTrade (tradeOrder order)).bucket then
        (orderTrade (tradeOrder order)).qty
      else 0 := by
  rw [held, posMgr_fillOrder, TestPositionManager.getPosition_bookTrade, if_pos rfl]
  by_cases hinst : j = orderInstrument order
  · subst hinst
    rw [if_pos rfl, bucketQty_addTrade_open _ _ hopen]
    by_cases ht : t = (orderTrade (tradeOrder order)).bucket
    · simp [ht, held]
    · simp [ht, held]
  · simp [hinst, held]

theorem orderInstrument_of_mem_generateOrders {m : TestPositionManager} {requestID : ℕ}
    {request : OrderRequest} {order : OrderDataDetail}
    (h : order ∈ (FakeOrderManager.generateOrders m requestID request).1) :
    requestInstrument request = some (orderInstrument order) := by
  cases request with
  | securityNewOrder exch request =>
      obtain rfl := List.mem_singleton.mp h
      rfl
  | futureNewOrder exch request =>
      obtain ⟨_, _, _, _, rfl, -⟩ := exists_of_mem_generateFutureOrder h
      rfl
  | _ => cases h

theorem held_submitRequest_of_ne {request : OrderRequest} {j : ℕ}
    (hj : requestInstrument request ≠ some j) (t : PositionType) :
    held (mgr.submitRequest byteOrder request).2.1.posMgr j t = held mgr.posMgr j t := by
  rw [held, held, getPosition_submitRequest_of_ne mgr byteOrder fun requestID order hmem heq => ?_]
  exact hj (heq ▸ orderInstrument_of_mem_generateOrders hmem)

theorem held_open (j : ℕ) (t : PositionType) :
    held (mgr.submitRequest byteOrder
        (newOrder inst isLong orderqty .flagOpen price)).2.1.posMgr j t =
      held mgr.posMgr j t + if j = inst ∧ t = .ofFlags isLong true then orderqty else 0 := by
  rw [FakeOrderManager.submitRequest_eq]
  simp only [newOrder, FakeOrderManager.handleOrders, FakeOrderManager.generateOrders,
    checkNewOrderRequestValid, generateFutureOrder, if_true, ne_eq, not_true_eq_false, if_false,
    List.foldl_cons, List.foldl_nil, FakeOrderManager.handleOrder]
  rw [held_fillOrder_open _ rfl]
  cases isLong <;> rfl

/-- The order that closes a side. -/
def closeOrder : FutureNewOrderRequest :=
  { instrumentID := inst
    orderqty := orderqty
    price := price
    opencloseflag := .flagClose
    pricetype := .priceNone
    timetype := .timeNone
    hedgeflag := .hedgeNone
    longshortflag := if !isLong then .flagLong else .flagShort }

theorem closedBuckets_closeOrder :
    closedBuckets (closeOrder inst isLong orderqty price).longshortflag =
      (.ofFlags isLong false, .ofFlags isLong true) := by
  cases isLong <;> rfl

theorem held_closeOrder (m : TestPositionManager) :
    todayHeld m (closeOrder inst isLong orderqty price) = held m inst (.ofFlags isLong true) ∧
      ystHeld m (closeOrder inst isLong orderqty price) = held m inst (.ofFlags isLong false) := by
  rw [todayHeld, ystHeld, closedBuckets_closeOrder]
  exact ⟨rfl, rfl⟩

theorem sum_held_closeOrder (m : TestPositionManager) :
    todayHeld m (closeOrder inst isLong orderqty price) +
        ystHeld m (closeOrder inst isLong orderqty price) =
      sideHeld m inst isLong := by
  obtain ⟨htoday, hyst⟩ := held_closeOrder inst isLong orderqty price m
  rw [htoday, hyst, sideHeld]

/-- A closing order that asks for no more than is held is accepted. -/
theorem accepted_closeOrder {m : TestPositionManager} (hqty : orderqty ≤ sideHeld m inst isLong)
    (hsmall : sideHeld m inst isLong < 2 ^ 32) :
    Accepted m (.futureNewOrder .shfe (closeOrder inst isLong orderqty price)) := by
  have htotal := sum_held_closeOrder inst isLong orderqty price m
  have hside : (closeOrder inst isLong orderqty price).longshortflag ≠ .flagNone := by
    cases isLong <;> simp [closeOrder]
  rw [accepted_close_iff m .shfe (by simp [closeOrder]) hside (htotal ▸ hsmall), htotal]
  exact hqty

theorem held_close (hqty : orderqty ≤ sideHeld mgr.posMgr inst isLong)
    (hsmall : sideHeld mgr.posMgr inst isLong < 2 ^ 32) (j : ℕ) (t : PositionType) :
    held (mgr.submitRequest byteOrder
        (newOrder inst (!isLong) orderqty .flagClose price)).2.1.posMgr j t =
      held mgr.posMgr j t -
        ((if inst = j ∧ .ofFlags isLong true = t then
            min (held mgr.posMgr inst (.ofFlags isLong true)) orderqty else 0) +
          if inst = j ∧ .ofFlags isLong false = t then
            orderqty - min (held mgr.posMgr inst (.ofFlags isLong true)) orderqty
          else 0) := by
  have htotal := sum_held_closeOrder inst isLong orderqty price mgr.posMgr
  have hheld := held_submitRequest_close mgr byteOrder .shfe (by simp [closeOrder])
    (htotal ▸ hsmall) (accepted_closeOrder inst isLong orderqty price hqty hsmall) j t
  simp only [closeYstQty, closeTodayQty, (held_closeOrder inst isLong orderqty price _).1,
    closedBuckets_closeOrder] at hheld
  exact hheld

theorem sideHeld_open (j : ℕ) (side : Bool) :
    sideHeld (mgr.submitRequest byteOrder
        (newOrder inst isLong orderqty .flagOpen price)).2.1.posMgr j side =
      sideHeld mgr.posMgr j side + if j = inst ∧ side = isLong then orderqty else 0 := by
  simp only [sideHeld, held_open]
  by_cases hj : j = inst
  · cases isLong <;> cases side <;> simp [hj, PositionType.ofFlags] <;> omega
  · simp [hj]

theorem sideHeld_close (hqty : orderqty ≤ sideHeld mgr.posMgr inst isLong)
    (hsmall : sideHeld mgr.posMgr inst isLong < 2 ^ 32) (j : ℕ) (side : Bool) :
    sideHeld (mgr.submitRequest byteOrder
        (newOrder inst (!isLong) orderqty .flagClose price)).2.1.posMgr j side =
      sideHeld mgr.posMgr j side - if j = inst ∧ side = isLong then orderqty else 0 := by
  unfold sideHeld at hqty ⊢
  rw [held_close byteOrder mgr inst isLong orderqty price hqty hsmall,
    held_close byteOrder mgr inst isLong orderqty price hqty hsmall]
  by_cases hj : inst = j
  · subst hj
    cases isLong <;> cases side <;> simp [PositionType.ofFlags] at hqty ⊢ <;> omega
  · simp [hj, Ne.symm hj]

theorem sideHeld_submitRequest_of_ne {request : OrderRequest} {j : ℕ}
    (hj : requestInstrument request ≠ some j) (side : Bool) :
    sideHeld (mgr.submitRequest byteOrder request).2.1.posMgr j side =
      sideHeld mgr.posMgr j side :=
  sideHeld_congr (held_submitRequest_of_ne byteOrder mgr hj) side

end Book

/-! ### The account of one instrument -/

/-- What the orders of an instrument are computed from and counted in, and what only
they, a day start and a jump of the prices change. -/
structure Account where
  instIndex : ℕ
  ppl : ℚ
  maxPos : ℚ
  longOpenPositionQty : ℤ
  shortOpenPositionQty : ℤ

def account (leg : Instrument) : Account :=
  ⟨leg.instIndex, leg.ppl, leg.maxPos, leg.longOpenPositionQty, leg.shortOpenPositionQty⟩

@[simp] theorem account_screen (libm : MathLibrary) (paras : StrategyParameters)
    (data : CTickData) (leg : Instrument) :
    account (screen libm paras data leg).1 = account leg := by
  unfold screen
  dsimp only
  split_ifs <;> rfl

theorem account_resetPosition {leg : Instrument}
    (hzero : ∀ isLong, leg.openPositionQty isLong = 0) :
    account (resetPosition leg) = account leg := by
  have hlong : leg.longOpenPositionQty = 0 := hzero true
  have hshort : leg.shortOpenPositionQty = 0 := hzero false
  simp [account, resetPosition, hlong, hshort]

@[simp] theorem account_quote (data : CTickData) (leg : Instrument) :
    account (quote data leg) = account leg := by
  unfold quote
  split_ifs <;> rfl

@[simp] theorem account_updateOpp (libm : MathLibrary) (paras : StrategyParameters) (now : ℕ)
    (leg : Instrument) : account (updateOpp libm paras now leg) = account leg := by
  unfold updateOpp
  dsimp only
  split_ifs <;> rfl

@[simp] theorem account_calculatePnl (paras : StrategyParameters) (isLong : Bool) (size : ℤ)
    (price : ℚ) (leg : Instrument) :
    account (leg.calculatePnl paras isLong size price) = account leg := by
  unfold Instrument.calculatePnl
  split_ifs <;> rfl

@[simp] theorem account_updatePrices (libm : MathLibrary) (paras : StrategyParameters)
    (leg : Instrument) : account (updatePrices libm paras leg) = account leg := by
  unfold updatePrices
  dsimp only
  split_ifs <;> rfl

@[simp] theorem account_countUpdate (leg : Instrument) :
    account (countUpdate leg) = account leg := by
  unfold countUpdate
  split_ifs <;> rfl

@[simp] theorem account_updateVolatility (paras : StrategyParameters) (leg : Instrument) :
    account (updateVolatility paras leg) = account leg := by
  unfold updateVolatility
  split_ifs <;> rfl

/-- The book holds what is counted, and one order is enough to close a side. -/
structure Synced (m : TestPositionManager) (leg : Instrument) : Prop where
  qty : ∀ isLong, leg.openPositionQty isLong = sideHeld m leg.instIndex isLong
  small : ∀ isLong, sideHeld m leg.instIndex isLong < 2 ^ 31
  size : ∀ isLong, leg.openPositionQty isLong ≠ 0 →
    (leg.openPositionQty isLong : ℚ) ≤ leg.ppl + 1 / 2
  maxPos : leg.maxPos = 1

theorem openPositionQty_congr {leg leg' : Instrument} (h : account leg' = account leg)
    (isLong : Bool) : leg'.openPositionQty isLong = leg.openPositionQty isLong := by
  cases isLong
  · exact congrArg Account.shortOpenPositionQty h
  · exact congrArg Account.longOpenPositionQty h

/-- What is fixed when the instrument is configured. -/
def SameTerms (leg leg' : Instrument) : Prop :=
  leg'.instIndex = leg.instIndex ∧ leg'.ppl = leg.ppl ∧ leg'.maxPos = leg.maxPos

theorem sameTerms_of_account {leg leg' : Instrument} (h : account leg' = account leg) :
    SameTerms leg leg' :=
  ⟨congrArg Account.instIndex h, congrArg Account.ppl h, congrArg Account.maxPos h⟩

theorem Synced.congr {m m' : TestPositionManager} {leg leg' : Instrument}
    (hleg : account leg' = account leg)
    (hbook : ∀ isLong, sideHeld m' leg.instIndex isLong = sideHeld m leg.instIndex isLong)
    (h : Synced m leg) : Synced m' leg' := by
  obtain ⟨hinst, hppl, hmax⟩ := sameTerms_of_account hleg
  refine ⟨fun isLong => ?_, fun isLong => ?_, fun isLong => ?_, hmax.trans h.maxPos⟩
  · rw [openPositionQty_congr hleg, hinst, hbook, h.qty]
  · rw [hinst, hbook]
    exact h.small isLong
  · rw [openPositionQty_congr hleg, hppl]
    exact h.size isLong

theorem Synced.agree {m : TestPositionManager} {leg : Instrument} (h : Synced m leg)
    (isLong : Bool) : leg.openPositionQty isLong = sideTotal m leg.instIndex isLong := by
  have hsmall := h.small isLong
  rw [h.qty, sideTotal_eq (by omega)]

/-! ### The sizes of the orders -/

theorem wrapInt_of_small {n : ℤ} (hlow : -2 ^ 31 ≤ n) (hhigh : n < 2 ^ 31) : wrapInt n = n := by
  rw [wrapInt, Int.bmod_eq_of_le]
  · exact hlow
  · exact hhigh

theorem toUInt32_of_small {n : ℤ} (hlow : 0 ≤ n) (hhigh : n < 2 ^ 31) :
    (toUInt32 n : ℤ) = n := by
  rw [toUInt32]
  omega

theorem toInt_intCast {n : ℤ} (hlow : -2 ^ 31 ≤ n) (hhigh : n < 2 ^ 31) :
    toInt (n : ℚ) = some n := by
  simp only [toInt, Int.ceil_intCast, Int.floor_intCast, ite_self]
  rw [if_pos]
  simp [isInt32]
  omega

theorem toInt_bounds {x : ℚ} {n : ℤ} (h : toInt x = some n) :
    n < 2 ^ 31 ∧ (0 < n → (n : ℚ) ≤ x) := by
  rw [toInt] at h
  split_ifs at h with hneg hrange hrange
  · obtain rfl := Option.some.inj h
    refine ⟨by simp [isInt32] at hrange; omega, fun hpos => ?_⟩
    have hle : ⌈x⌉ ≤ 0 := Int.ceil_le.mpr (by exact_mod_cast hneg.le)
    omega
  · obtain rfl := Option.some.inj h
    exact ⟨by simp [isInt32] at hrange; omega, fun _ => Int.floor_le x⟩

/-! ### One order -/

section Orders

variable (byteOrder : ByteOrder) (paras : StrategyParameters) (data : CTickData) (now : ℕ)

/-- What the orders of a tick keep, seen from the book before them.  They are of one
instrument; an instrument that is to stay flat has nothing held. -/
structure Following (inst : ℕ) (flat : Prop) (m : TestPositionManager)
    (state : Instrument × FakeOrderManager) : Prop where
  instIndex : state.1.instIndex = inst
  synced : Synced state.2.posMgr state.1
  others : ∀ j isLong, j ≠ inst → sideHeld state.2.posMgr j isLong = sideHeld m j isLong
  flat : flat → ∀ isLong, sideHeld state.2.posMgr inst isLong = 0

theorem openPositionQty_addPosition (leg : Instrument) (isLong : Bool) (orderqty now : ℕ)
    (price : ℚ) (side : Bool) :
    (leg.addPosition isLong orderqty now price).openPositionQty side =
      if side = isLong then wrapInt (leg.openPositionQty side + orderqty)
      else leg.openPositionQty side := by
  cases isLong <;> cases side <;> rfl

theorem SameTerms.removePosition {leg leg' : Instrument} (h : SameTerms leg leg')
    (isLong : Bool) (orderqty now : ℕ) :
    SameTerms leg (leg'.removePosition isLong orderqty now) := by
  cases isLong <;> exact h

theorem openPositionQty_removePosition (leg : Instrument) (isLong : Bool) (orderqty now : ℕ)
    (side : Bool) :
    (leg.removePosition isLong orderqty now).openPositionQty side =
      if side = isLong then wrapInt (leg.openPositionQty side - orderqty)
      else leg.openPositionQty side := by
  cases isLong <;> cases side <;> rfl

/-- The size of an order to enter is a count, and none where nothing may be held. -/
def SizeFits (flat : Prop) (leg : Instrument) : Prop :=
  ∀ size ∈ toInt (leg.ppl + 1 / 2), 0 ≤ size ∧ (flat → size = 0)

variable {inst : ℕ} {flat : Prop} {m : TestPositionManager}
  {state state' : Instrument × FakeOrderManager} (isLong : Bool) {price : ℚ}

theorem Following.order (h : Following inst flat m state)
    (hterms : SameTerms state.1 state'.1) (orderqty : ℕ)
    (hcount : ∀ side, state'.1.openPositionQty side =
      if side = isLong then (orderqty : ℤ) else state.1.openPositionQty side)
    (hbook : ∀ j side, sideHeld state'.2.posMgr j side =
      if j = inst ∧ side = isLong then orderqty else sideHeld state.2.posMgr j side)
    (hsmall : orderqty < 2 ^ 31) (hsize : 0 < orderqty → (orderqty : ℚ) ≤ state.1.ppl + 1 / 2)
    (hflat : flat → orderqty = 0) : Following inst flat m state' where
  instIndex := hterms.1.trans h.instIndex
  synced := by
    obtain ⟨hinst, hppl, hmax⟩ := hterms
    have hold := h.synced
    refine ⟨fun side => ?_, fun side => ?_, fun side hne => ?_, hmax.trans hold.maxPos⟩
    · rw [hcount, hbook, hinst, h.instIndex, ← h.instIndex, hold.qty side]
      by_cases hside : side = isLong
      · simp [hside]
      · simp [hside]
    · rw [hbook, hinst]
      split_ifs
      · exact hsmall
      · exact hold.small side
    · rw [hcount] at hne ⊢
      rw [hppl]
      split_ifs at hne ⊢
      · exact_mod_cast hsize (by omega)
      · exact hold.size side hne
  others j side hj := by
    rw [hbook, if_neg fun hboth => hj hboth.1, h.others j side hj]
  flat hfrozen side := by
    rw [hbook]
    split_ifs
    · exact hflat hfrozen
    · exact h.flat hfrozen side

theorem Following.enter (h : Following inst flat m state) (hdata : data.instIndex = inst)
    (hcount : state.1.openPositionQty isLong = 0) (hsize : SizeFits flat state.1)
    (htake : enter byteOrder data now isLong price state = some state') :
    Following inst flat m state' := by
  obtain ⟨size, hsome, rfl⟩ := Option.map_eq_some_iff.mp htake
  obtain ⟨hnonneg, hflat⟩ := hsize size hsome
  obtain ⟨hsmall, hle⟩ := toInt_bounds hsome
  have hqty : (toUInt32 size : ℤ) = size := toUInt32_of_small hnonneg hsmall
  have hheld : sideHeld state.2.posMgr inst isLong = 0 := by
    have hboth := h.synced.qty isLong
    rw [hcount, h.instIndex] at hboth
    exact_mod_cast hboth.symm
  refine h.order isLong ?_ (toUInt32 size) (fun side => ?_) (fun j side => ?_) (by omega)
    (fun hpos => ?_) (fun hfrozen => ?_)
  · cases isLong <;> exact ⟨rfl, rfl, rfl⟩
  · rw [openPositionQty_addPosition]
    split_ifs with hside
    · rw [hside, hcount, zero_add, hqty, wrapInt_of_small (by omega) hsmall]
    · rfl
  · rw [hdata, sideHeld_open]
    split_ifs with hown
    · rw [hown.1, hown.2, hheld, zero_add]
    · rfl
  · have hcast : ((toUInt32 size : ℕ) : ℚ) = (size : ℚ) := by exact_mod_cast hqty
    rw [hcast]
    exact hle (by omega)
  · have := hflat hfrozen
    omega

theorem Following.leave (h : Following inst flat m state) (hdata : data.instIndex = inst)
    (hcount : state.1.openPositionQty isLong ≠ 0)
    (htake : leave byteOrder paras data now isLong price state = some state') :
    Following inst flat m state' := by
  obtain ⟨size, hsome, rfl⟩ := Option.map_eq_some_iff.mp htake
  have hboth := h.synced.qty isLong
  have hsmall := h.synced.small isLong
  rw [h.instIndex] at hboth hsmall
  -- an order is never smaller than what is held
  rw [min_eq_right (h.synced.size isLong hcount),
    toInt_intCast (by omega) (by omega)] at hsome
  obtain rfl := Option.some.inj hsome
  have hqty : toUInt32 (state.1.openPositionQty isLong) =
      sideHeld state.2.posMgr inst isLong := by
    have := toUInt32_of_small (n := state.1.openPositionQty isLong) (by omega) (by omega)
    omega
  refine h.order isLong ?_ 0 (fun side => ?_) (fun j side => ?_) (by omega) (fun hpos => ?_)
    (fun hfrozen => ?_)
  · exact (sameTerms_of_account (account_calculatePnl ..)).removePosition isLong _ now
  · rw [openPositionQty_removePosition, openPositionQty_congr (account_calculatePnl ..), hqty]
    split_ifs with hside
    · rw [hside, hboth, sub_self]
      rfl
    · rfl
  · rw [hdata, hqty, sideHeld_close _ _ _ _ _ _ le_rfl (by omega)]
    split_ifs with hown
    · rw [hown.1, hown.2, Nat.sub_self]
    · rfl
  · omega
  · rfl

end Orders

/-! ### The orders of a tick -/

section Ticks

variable (byteOrder : ByteOrder) (paras : StrategyParameters) (data : CTickData) (now : ℕ)

/-- A side is entered only while nothing of it is held. -/
theorem qty_of_wants {m : TestPositionManager} {leg : Instrument} (h : Synced m leg) :
    (wantsShort paras leg = true → leg.openPositionQty false = 0) ∧
      (wantsLong paras leg = true → leg.openPositionQty true = 0) := by
  have hbelow : ∀ isLong, (leg.openPositionQty isLong : ℚ) < leg.maxPos →
      leg.openPositionQty isLong = 0 := by
    intro isLong hlt
    rw [h.maxPos] at hlt
    have hlt : leg.openPositionQty isLong < 1 := by exact_mod_cast hlt
    have hqty := h.qty isLong
    omega
  constructor
  · intro hwants
    simp only [wantsShort, Bool.and_eq_true, decide_eq_true_eq] at hwants
    exact hbelow false hwants.1.1.1.1.1
  · intro hwants
    simp only [wantsLong, Bool.and_eq_true, decide_eq_true_eq] at hwants
    exact hbelow true hwants.1.1.1.1.1

def EntriesFit (flat : Prop) (leg : Instrument) : Prop :=
  leg.stoploss = false → wantsShort paras leg ∨ wantsLong paras leg → SizeFits flat leg

variable {inst : ℕ} {flat : Prop} {m : TestPositionManager}
  {state state' : Instrument × FakeOrderManager}

section Parts

variable {byteOrder paras data now} {I : Instrument × FakeOrderManager → Prop}

theorem keeps_ite {P : Prop} [Decidable P] {part : Option (Instrument × FakeOrderManager)}
    (h : I state) (hpart : P → part = some state' → I state')
    (htake : (if P then part else some state) = some state') : I state' := by
  split_ifs at htake with hP
  · exact hpart hP htake
  · obtain rfl := Option.some.inj htake
    exact h

theorem keeps_doExit
    (hleave : ∀ isLong price mid mid', mid.1.openPositionQty isLong ≠ 0 →
      leave byteOrder paras data now isLong price mid = some mid' → I mid → I mid')
    (h : I state) (htake : doExit byteOrder paras data now state = some state') : I state' := by
  obtain ⟨mid, hmid, hrest⟩ := Option.bind_eq_some_iff.mp htake
  have hleft : I mid := by
    refine keeps_ite h (fun hlong hmid => ?_) hmid
    simp only [leavesLong, Bool.and_eq_true, decide_eq_true_eq] at hlong
    exact hleave true _ _ _ hlong.1 hmid h
  refine keeps_ite hleft (fun hshort hrest => ?_) hrest
  simp only [leavesShort, Bool.and_eq_true, decide_eq_true_eq] at hshort
  exact hleave false _ _ _ hshort.1 hrest hleft

theorem keeps_liquidate
    (hleave : ∀ isLong price mid mid', mid.1.openPositionQty isLong ≠ 0 →
      leave byteOrder paras data now isLong price mid = some mid' → I mid → I mid')
    (h : I state) (htake : liquidate byteOrder paras data now state = some state') :
    I state' := by
  obtain ⟨mid, hmid, hrest⟩ := Option.bind_eq_some_iff.mp htake
  have hleft : I mid :=
    keeps_ite h (fun hlong hmid => hleave true _ _ _ hlong hmid h) hmid
  exact keeps_ite hleft (fun hshort hrest => hleave false _ _ _ hshort hrest hleft) hrest

end Parts

theorem Following.doEnter (h : Following inst flat m state) (hdata : data.instIndex = inst)
    (hfit : EntriesFit paras flat state.1)
    (htake : doEnter byteOrder paras data now state = some state') :
    Following inst flat m state' := by
  unfold SingleStrategy.doEnter at htake
  split_ifs at htake with hstop hshort
  · obtain rfl := Option.some.inj htake
    exact h
  · have hsize := hfit (by simpa using hstop) (.inl hshort)
    obtain ⟨mid, hmid, hrest⟩ := Option.bind_eq_some_iff.mp htake
    have hentered := h.enter byteOrder data now false hdata
      ((qty_of_wants paras h.synced).1 hshort) hsize hmid
    refine keeps_ite hentered (fun hlong hrest => ?_) hrest
    refine hentered.enter byteOrder data now true hdata
      ((qty_of_wants paras hentered.synced).2 hlong) ?_ hrest
    -- the size is that of the first order
    obtain ⟨_, -, rfl⟩ := Option.map_eq_some_iff.mp hmid
    exact hsize
  · rw [Option.bind_some] at htake
    refine keeps_ite h (fun hlong htake => ?_) htake
    exact h.enter byteOrder data now true hdata ((qty_of_wants paras h.synced).2 hlong)
      (hfit (by simpa using hstop) (.inr hlong)) htake

theorem Following.doExit (h : Following inst flat m state) (hdata : data.instIndex = inst)
    (htake : doExit byteOrder paras data now state = some state') :
    Following inst flat m state' :=
  keeps_doExit
    (fun isLong _ _ _ hopen htake h =>
      h.leave byteOrder paras data now isLong hdata hopen htake) h htake

theorem Following.liquidate (h : Following inst flat m state) (hdata : data.instIndex = inst)
    (htake : liquidate byteOrder paras data now state = some state') :
    Following inst flat m state' :=
  keeps_liquidate
    (fun isLong _ _ _ hopen htake h =>
      h.leave byteOrder paras data now isLong hdata hopen htake) h htake

theorem Following.trade (h : Following inst flat m state) (hdata : data.instIndex = inst)
    (hfit : isValidEnterTime paras now → EntriesFit paras flat state.1)
    (htake : trade byteOrder paras data now state = some state') :
    Following inst flat m state' := by
  obtain ⟨entered, hentered, hrest⟩ := Option.bind_eq_some_iff.mp htake
  obtain ⟨left, hleft, hlast⟩ := Option.bind_eq_some_iff.mp hrest
  have h₁ : Following inst flat m entered := keeps_ite h
    (fun htime hentered => h.doEnter byteOrder paras data now hdata (hfit htime) hentered) hentered
  have h₂ : Following inst flat m left :=
    keeps_ite h₁ (fun _ hleft => h₁.doExit byteOrder paras data now hdata hleft) hleft
  exact keeps_ite h₂ (fun _ hlast => h₂.liquidate byteOrder paras data now hdata hlast) hlast

end Ticks

/-! ### The callbacks -/

section Callbacks

variable (byteOrder : ByteOrder) (libm : MathLibrary) (self : ℕ)

/-- Several legs have the index. -/
def Shared (s : State) (inst : ℕ) : Prop :=
  List.Duplicate inst (s.pInstruments.map (·.instIndex))

/-- A tick resets no count that is not zero, and what is entered on it fits. -/
def KeepsTick (paras : StrategyParameters) (shared : Prop) (data : CTickData) (now : ℕ)
    (leg : Instrument) : Prop :=
  ((screen libm paras data leg).2 = true →
      equityJumps libm paras data (leg.preTick.getD data) = true →
        ∀ isLong, leg.openPositionQty isLong = 0) ∧
    ((observe libm paras data now leg).2 = true → isValidEnterTime paras now = true →
      EntriesFit paras shared (observe libm paras data now leg).1)

/-- The condition on a callback. -/
def Keeps (s : State) : Action → Prop
  | .startDay => s.globalParas.isOverNight = true ∨
      ∀ leg ∈ s.pInstruments, ∀ isLong, leg.openPositionQty isLong = 0
  | .marketData data now =>
      ∀ leg ∈ (s.getInstrumentLeg data.instIndex).bind (s.pInstruments[·]?),
        KeepsTick libm s.globalParas (Shared s data.instIndex) data now leg
  | _ => True

theorem account_observe {paras : StrategyParameters} {shared : Prop} {data : CTickData}
    {now : ℕ} {leg : Instrument} (h : KeepsTick libm paras shared data now leg) :
    account (observe libm paras data now leg).1 = account leg := by
  have hreset := h.1
  have hscreen := account_screen libm paras data leg
  unfold observe
  split
  · next screened heq => rwa [heq] at hscreen
  · next screened heq =>
      rw [heq] at hscreen hreset
      have hjumped : account (if equityJumps libm paras data (leg.preTick.getD data) then
          resetPosition screened else screened) = account leg := by
        split_ifs with hjump
        · rw [← hscreen]
          exact account_resetPosition fun isLong =>
            (openPositionQty_congr hscreen isLong).trans (hreset rfl hjump isLong)
        · exact hscreen
      by_cases htime : isValidOppTime paras now = true
      · simp [htime, hjumped]
      · simp [htime, hjumped]

theorem account_initInstrument {paras : StrategyParameters} {leg : Instrument}
    (h : paras.isOverNight = true ∨ ∀ isLong, leg.openPositionQty isLong = 0) :
    account (leg.initInstrument paras) = account leg := by
  by_cases hnight : paras.isOverNight = true
  · unfold Instrument.initInstrument
    dsimp only
    rw [if_pos hnight]
    split_ifs <;> rfl
  · have hzero := h.resolve_left hnight
    rw [← account_resetPosition hzero]
    unfold Instrument.initInstrument
    dsimp only
    rw [if_neg hnight]
    split_ifs <;> rfl

theorem getInstrumentLeg_some {s : State} {inst i : ℕ} {leg : Instrument}
    (hi : s.getInstrumentLeg inst = some i) (hleg : s.pInstruments[i]? = some leg) :
    leg.instIndex = inst := by
  obtain ⟨hlt, hfound, -⟩ := List.findIdx?_eq_some_iff_getElem.mp hi
  rw [List.getElem?_eq_getElem hlt] at hleg
  obtain rfl := Option.some.inj hleg
  exact of_decide_eq_true hfound

/-- Both accounts of every leg are the same, and an index of several legs stays flat. -/
structure Ledger (s : State) : Prop where
  synced : ∀ leg ∈ s.pInstruments, Synced s.orderManager.posMgr leg
  flat : ∀ inst, Shared s inst → ∀ isLong, sideHeld s.orderManager.posMgr inst isLong = 0

theorem Ledger.congr {s s' : State} (h : Ledger s) {f : Instrument → Instrument}
    (hlegs : s'.pInstruments = s.pInstruments.map f)
    (hf : ∀ leg ∈ s.pInstruments, account (f leg) = account leg)
    (hbook : ∀ leg ∈ s.pInstruments, ∀ isLong, sideHeld s'.orderManager.posMgr leg.instIndex
      isLong = sideHeld s.orderManager.posMgr leg.instIndex isLong) : Ledger s' where
  synced leg hleg := by
    rw [hlegs] at hleg
    obtain ⟨old, hold, rfl⟩ := List.mem_map.mp hleg
    exact (h.synced old hold).congr (hf old hold) (hbook old hold)
  flat inst hshared isLong := by
    have hindex : s'.pInstruments.map (·.instIndex) = s.pInstruments.map (·.instIndex) := by
      rw [hlegs, List.map_map]
      exact List.map_congr_left fun leg hleg => (sameTerms_of_account (hf leg hleg)).1
    rw [Shared, hindex] at hshared
    obtain ⟨leg, hleg, rfl⟩ := List.mem_map.mp hshared.mem
    rw [hbook leg hleg, h.flat _ hshared isLong]

theorem Ledger.onTick {s : State} (h : Ledger s) {data : CTickData} {now : ℕ}
    {leg : Instrument} (hleg : leg ∈ s.pInstruments) (hinst : leg.instIndex = data.instIndex)
    (hkeeps : KeepsTick libm s.globalParas (Shared s data.instIndex) data now leg)
    {state : Instrument × FakeOrderManager}
    (htake : onTick byteOrder libm s.globalParas data now (leg, s.orderManager) = some state) :
    Following data.instIndex (Shared s data.instIndex) s.orderManager.posMgr state := by
  have hobserved := account_observe libm hkeeps
  have hstart : Following data.instIndex (Shared s data.instIndex) s.orderManager.posMgr
      ((observe libm s.globalParas data now leg).1, s.orderManager) :=
    { instIndex := (sameTerms_of_account hobserved).1.trans hinst
      synced := (h.synced leg hleg).congr hobserved fun _ => rfl
      others := fun _ _ _ => rfl
      flat := h.flat data.instIndex }
  have hentries := hkeeps.2
  unfold SingleStrategy.onTick at htake
  split at htake
  · next observed heq =>
      rw [heq] at hstart
      obtain rfl := Option.some.inj htake
      exact hstart
  · next observed heq =>
      rw [heq] at hstart hentries
      exact hstart.trade byteOrder s.globalParas data now rfl (hentries rfl) htake

theorem shared_of_ne {s : State} {i k inst : ℕ} {leg other : Instrument} (hne : i ≠ k)
    (hi : s.pInstruments[i]? = some leg) (hk : s.pInstruments[k]? = some other)
    (hleg : leg.instIndex = inst) (hother : other.instIndex = inst) : Shared s inst := by
  obtain ⟨hilt, hi⟩ := List.getElem?_eq_some_iff.mp hi
  obtain ⟨hklt, hk⟩ := List.getElem?_eq_some_iff.mp hk
  have hlength : (s.pInstruments.map (·.instIndex)).length = s.pInstruments.length :=
    List.length_map _
  have hget : ∀ n : Fin (s.pInstruments.map (·.instIndex)).length, n.val = i ∨ n.val = k →
      inst = (s.pInstruments.map (·.instIndex)).get n := by
    rintro ⟨n, hn⟩ (rfl | rfl)
    · simp [hi, hleg]
    · simp [hk, hother]
  refine List.duplicate_iff_exists_distinct_get.mpr ?_
  rcases Nat.lt_or_gt_of_ne hne with hlt | hlt
  · exact ⟨⟨i, hlength ▸ hilt⟩, ⟨k, hlength ▸ hklt⟩, hlt, hget _ (.inl rfl), hget _ (.inr rfl)⟩
  · exact ⟨⟨k, hlength ▸ hklt⟩, ⟨i, hlength ▸ hilt⟩, hlt, hget _ (.inr rfl), hget _ (.inl rfl)⟩

theorem map_instIndex_set {legs : List Instrument} {i : ℕ} {leg leg' : Instrument}
    (hleg : legs[i]? = some leg) (hindex : leg'.instIndex = leg.instIndex) :
    (legs.set i leg').map (·.instIndex) = legs.map (·.instIndex) := by
  apply List.ext_getElem?
  intro k
  rw [List.map_set, List.getElem?_set]
  split_ifs with hik hlt
  · rw [← hik, List.getElem?_map, hleg, hindex]
    rfl
  · rw [← hik, List.getElem?_eq_none (not_lt.mp hlt)]
  · rfl

/-- The leg of a tick follows the book; no other leg sees its orders. -/
theorem Ledger.onMarketData {s s' : State} (h : Ledger s) {data : CTickData} {now : ℕ}
    (hkeeps : Keeps libm s (.marketData data now))
    (htake : s.onMarketData byteOrder libm data now = some s') : Ledger s' := by
  obtain ⟨i, hi, hrest⟩ := Option.bind_eq_some_iff.mp htake
  obtain ⟨leg, hleg, hlast⟩ := Option.bind_eq_some_iff.mp hrest
  obtain ⟨⟨leg', mgr⟩, htick, rfl⟩ := Option.map_eq_some_iff.mp hlast
  have hinst := getInstrumentLeg_some hi hleg
  have hfollow := h.onTick byteOrder libm (List.mem_of_getElem? hleg) hinst
    (hkeeps leg (Option.bind_eq_some_iff.mpr ⟨i, hi, hleg⟩)) htick
  have hindex := map_instIndex_set hleg (hfollow.instIndex.trans hinst.symm)
  constructor
  · intro other hother
    obtain ⟨k, hk⟩ := List.mem_iff_getElem?.mp hother
    rw [List.getElem?_set] at hk
    split_ifs at hk with hik hlt
    · obtain rfl := Option.some.inj hk
      exact hfollow.synced
    · refine (h.synced other (List.mem_of_getElem? hk)).congr rfl fun isLong => ?_
      by_cases hsame : other.instIndex = data.instIndex
      · have hshared := shared_of_ne hik hleg hk hinst hsame
        rw [hsame, h.flat _ hshared]
        exact hfollow.flat hshared isLong
      · exact hfollow.others _ _ hsame
  · intro inst hshared isLong
    have hshared : Shared s inst := by rwa [Shared, hindex] at hshared
    by_cases hsame : inst = data.instIndex
    · subst hsame
      exact hfollow.flat hshared isLong
    · rw [← h.flat inst hshared isLong]
      exact hfollow.others _ _ hsame

theorem sideHeld_onStartDay (m : TestPositionManager) (date inst : ℕ) (isLong : Bool) :
    sideHeld (m.onStartDay date) inst isLong = sideHeld m inst isLong := by
  refine sideHeld_congr (fun t => ?_) isLong
  rw [held, held, TestPositionManager.getPosition_fst, TestPositionManager.getPosition_fst,
    TestPositionManager.find?_onStartDay]
  cases m.allPositions.find? inst with
  | none => rfl
  | some pos => exact TestPositionManager.bucketQty_startDayPosition pos t

theorem sideHeld_onMarketData (m : TestPositionManager) (data : CTickData) (inst : ℕ)
    (isLong : Bool) : sideHeld (m.onMarketData data) inst isLong = sideHeld m inst isLong := by
  refine sideHeld_congr (fun t => ?_) isLong
  rw [held, held, TestPositionManager.getPosition_fst, TestPositionManager.getPosition_fst,
    TestPositionManager.onMarketData, TestPositionManager.find?_updatePrice]
  split_ifs with hsame
  · cases m.allPositions.find? inst with
    | none => rfl
    | some pos =>
        have hunits := congrArg List.length (bucketUnits_updatePrice pos data.lastPrice t)
        rwa [length_bucketUnits, length_bucketUnits] at hunits
  · rfl

theorem lookedUp_onEndDay (legs : List Instrument) (m : TestPositionManager) :
    m.LookedUp (legs.foldl (fun m leg => (m.getPosition leg.instIndex).2) m) := by
  induction legs generalizing m with
  | nil => exact m.lookedUp_refl
  | cons leg legs ih => exact (m.lookedUp_getPosition leg.instIndex).trans (ih _)

theorem Ledger.updateMA {s : State} (h : Ledger s) : Ledger (s.updateMA libm) := by
  refine h.congr (s.pInstruments_updateMA libm) (fun leg _ => ?_) fun _ _ _ => rfl
  split_ifs <;> simp

theorem Ledger.step {s s' : State} {a : Action} (h : Ledger s) (hkeeps : Keeps libm s a)
    (htake : step byteOrder libm self s a = some s') : Ledger s' := by
  cases a with
  | startDay =>
      obtain rfl := Option.some.inj htake
      exact h.congr rfl (fun leg hleg => account_initInstrument (hkeeps.imp_right (· leg hleg)))
        fun _ _ _ => rfl
  | startDayOrders date =>
      obtain rfl := Option.some.inj htake
      exact ⟨h.synced, h.flat⟩
  | startDayBook date =>
      obtain rfl := Option.some.inj htake
      exact h.congr (List.map_id _).symm (fun _ _ => rfl) fun leg _ isLong =>
        sideHeld_onStartDay s.orderManager.posMgr date leg.instIndex isLong
  | marketData data now => exact h.onMarketData byteOrder libm hkeeps htake
  | marketDataBook data =>
      obtain rfl := Option.some.inj htake
      exact h.congr (List.map_id _).symm (fun _ _ => rfl) fun leg _ isLong =>
        sideHeld_onMarketData s.orderManager.posMgr data leg.instIndex isLong
  | timer eventID =>
      obtain rfl := Option.some.inj htake
      unfold State.onTimer
      split_ifs
      · exact h.updateMA libm
      · exact h
  | endDay =>
      obtain rfl := Option.some.inj htake
      exact h.congr (List.map_id _).symm (fun _ _ => rfl) fun leg _ isLong =>
        sideHeld_congr (held_lookedUp (lookedUp_onEndDay s.pInstruments s.orderManager.posMgr) _)
          isLong
  | otherRequest request =>
      obtain ⟨hother, rfl⟩ := step_otherRequest htake
      exact h.congr (List.map_id _).symm (fun _ _ => rfl) fun leg hleg isLong =>
        sideHeld_submitRequest_of_ne byteOrder s.orderManager (hother leg hleg) isLong

theorem ledger_configured {globalParas : StrategyParameters} {legs : List (Str × LegValues)}
    {orderManager : FakeOrderManager}
    (hflat : ∀ leg ∈ (State.configured globalParas legs orderManager).pInstruments,
      ∀ isLong, sideHeld orderManager.posMgr leg.instIndex isLong = 0) :
    Ledger (.configured globalParas legs orderManager) where
  synced leg hleg := by
    have hheld := hflat leg hleg
    obtain ⟨⟨name, values⟩, -, rfl⟩ := List.mem_map.mp hleg
    refine ⟨fun isLong => ?_, fun isLong => ?_, fun isLong hne => ?_, rfl⟩
    · refine Eq.trans ?_ (congrArg Nat.cast (hheld isLong).symm)
      cases isLong <;> rfl
    · exact lt_of_eq_of_lt (hheld isLong) (Nat.two_pow_pos 31)
    · cases isLong <;> exact absurd rfl hne
  flat inst hshared isLong := by
    obtain ⟨leg, hleg, rfl⟩ := List.mem_map.mp hshared.mem
    exact hflat leg hleg isLong

end Callbacks

/-! ### Runs -/

instance (s : State) : Decidable (Agree s) := inferInstanceAs (Decidable (∀ _ ∈ _, _))

instance (flat : Prop) [Decidable flat] (leg : Instrument) : Decidable (SizeFits flat leg) :=
  inferInstanceAs (Decidable (∀ _ ∈ toInt _, _))

instance (paras : StrategyParameters) (flat : Prop) [Decidable flat] (leg : Instrument) :
    Decidable (EntriesFit paras flat leg) := inferInstanceAs (Decidable (_ → _ → _))

instance (libm : MathLibrary) (paras : StrategyParameters) (shared : Prop) [Decidable shared]
    (data : CTickData) (now : ℕ) (leg : Instrument) :
    Decidable (KeepsTick libm paras shared data now leg) :=
  inferInstanceAs (Decidable ((_ → _ → _) ∧ (_ → _ → _)))

instance (s : State) (inst : ℕ) : Decidable (Shared s inst) :=
  inferInstanceAs (Decidable (List.Duplicate _ _))

instance (libm : MathLibrary) (s : State) : (a : Action) → Decidable (Keeps libm s a)
  | .startDay => inferInstanceAs (Decidable (_ ∨ _))
  | .marketData _ _ => inferInstanceAs (Decidable (∀ _ ∈ Option.bind _ _, _))
  | .startDayOrders _ | .startDayBook _ | .marketDataBook _ | .timer _ | .endDay
    | .otherRequest _ => .isTrue trivial

/-- In a run that starts flat, whose day starts keep positions overnight or find none,
whose price jumps find none, and whose entries are counts of an index of one leg, the
strategy and the book agree in every state. -/
theorem agree_of_keeps (byteOrder : ByteOrder) (libm : MathLibrary) (self : ℕ)
    (globalParas : StrategyParameters) (legs : List (Str × LegValues))
    (orderManager : FakeOrderManager)
    (hflat : ∀ leg ∈ (State.configured globalParas legs orderManager).pInstruments,
      ∀ isLong, sideHeld orderManager.posMgr leg.instIndex isLong = 0)
    {actions : List Action} {s : State}
    (hrun : Run (step byteOrder libm self) (Keeps libm)
      (.configured globalParas legs orderManager) actions s) : Agree s := by
  have hledger : Ledger s :=
    hrun.invariant (fun _ _ _ hkeeps htake h => h.step byteOrder libm self hkeeps htake)
      (ledger_configured hflat)
  intro leg hleg
  exact ⟨(hledger.synced leg hleg).agree true, (hledger.synced leg hleg).agree false⟩

/-- Orders of at most one lot, from nine to half past two without a break. -/
def dayParas (isOverNight : Bool) : StrategyParameters where
  oppStartTime := 52200000
  openingTime := 32400000
  exitTime := 52200000
  liquidateTime := 52200000
  peeTime1 := 52200000
  peeTimeEnd1 := 52200000
  peeTime2 := 52200000
  peeTimeEnd2 := 52200000
  maWeight := 1 / 100
  volMAWeight := 1 / 100
  isCheckingSizeBeforeTrade := false
  isOverNight := isOverNight
  isMaOvernight := false
  isEquity := false
  isUsingSizeContrast := false
  totalPos := 0
  counter := 0
  thresholdSelf := 0
  tradingIntervalInMSec := 500

def oneLot : LegValues := ⟨1, 1, 1 / 2, 0, 5⟩

def quoteTick (bid : ℚ) : CTickData where
  instIndex := 10200000
  lastPrice := bid
  bidLevels := 1
  askLevels := 1
  depths := [⟨bid, 10⟩, ⟨bid + 1, 10⟩]

/-- A short is entered on the second tick and kept until the next day. -/
def shortDay : List Action :=
  [.startDay, .marketData (quoteTick 100) 36000000, .marketData (quoteTick 101) 36000500, .endDay,
    .startDay]

def exactMath : MathLibrary := ⟨fun x => |x|, id, fun x _ => x⟩

theorem agree_of_keeps_overNight :
    ∃ s, Run (step .littleEndian exactMath 0) (Keeps exactMath)
        (.configured (dayParas true) [(['a'], oneLot)] (newManager 0)) shortDay s ∧
      Agree s ∧ sideTotal s.orderManager.posMgr 10200000 false = 1 := by
  have hexecute : ((Run.execute (step .littleEndian exactMath 0) (Keeps exactMath)
      (.configured (dayParas true) [(['a'], oneLot)] (newManager 0)) shortDay).map fun s =>
        sideTotal s.orderManager.posMgr 10200000 false) = some 1 := by
    decide +kernel
  obtain ⟨s, hrun, hheld⟩ := Run.exists_of_execute_map hexecute
  exact ⟨s, hrun, agree_of_keeps .littleEndian exactMath 0 _ _ _ (by decide +kernel) hrun, hheld⟩

/-- The next day's start forgets a short that the book still has. -/
theorem not_agree_nextDay :
    ¬ ∀ (byteOrder : ByteOrder) (libm : MathLibrary) (self : ℕ)
      (globalParas : StrategyParameters) (legs : List (Str × LegValues))
      (orderManager : FakeOrderManager),
      (∀ leg ∈ (State.configured globalParas legs orderManager).pInstruments,
        ∀ isLong, sideHeld orderManager.posMgr leg.instIndex isLong = 0) →
      ∀ actions s, Run (step byteOrder libm self) (fun _ _ => True)
        (.configured globalParas legs orderManager) actions s → Agree s := by
  intro h
  have hexecute : ((Run.execute (step .littleEndian exactMath 0) (fun _ _ => True)
      (.configured (dayParas false) [(['a'], oneLot)] (newManager 0)) shortDay).map fun s =>
        decide (Agree s)) = some false := by
    decide +kernel
  obtain ⟨s, hrun, hagree⟩ := Run.exists_of_execute_map hexecute
  exact of_decide_eq_false hagree (h _ _ _ _ _ _ (by decide +kernel) _ s hrun)

end BluesTrading.StrategyLedger
