import BluesTrading.StrategyTiming

namespace BluesTrading.TickFilter

open BluesTrading.Foundations
open BluesTrading.OrderData
open BluesTrading.OrderManager
open BluesTrading.SingleStrategy
open BluesTrading.SourceText
open BluesTrading.StrategyExposure
open BluesTrading.StrategyLedger
open BluesTrading.StrategyOrders
open BluesTrading.StrategyTiming

/-- A tick whose prices are close to each other and to the average. -/
@[mk_iff] structure Plausible (data : CTickData) (leg : Instrument) : Prop where
  bid_pos : 0 < (getBidDepth data 1).price
  bid_lt_ask : (getBidDepth data 1).price < (getAskDepth data 1).price
  bid_le_last : (getBidDepth data 1).price ≤ data.lastPrice
  last_le_ask : data.lastPrice ≤ (getAskDepth data 1).price
  spread_le : (getAskDepth data 1).price - (getBidDepth data 1).price ≤
    1 / 10 * (getBidDepth data 1).price
  bid_near : |(getBidDepth data 1).price - leg.ma| ≤ 1 / 5 * (getBidDepth data 1).price
  ask_near : |(getAskDepth data 1).price - leg.ma| ≤ 1 / 5 * (getAskDepth data 1).price
  volume : (leg.preTick.getD data).totVol ≤ data.totVol
  ma_pos : 0 < leg.ma
  tenTicks : 10 * leg.tickSize ≤ (getBidDepth data 1).price
  lastPx : 1 ≤ leg.lastPx

structure Accepted (libm : MathLibrary) (paras : StrategyParameters) (data : CTickData) (now : ℕ)
    (leg : Instrument) : Prop where
  passes : (observe libm paras data now leg).2 = true
  askPrice : (observe libm paras data now leg).1.askPrice = (getAskDepth data 1).price
  bidPrice : (observe libm paras data now leg).1.bidPrice = (getBidDepth data 1).price
  askSize : (observe libm paras data now leg).1.askSize = wrapInt (getAskDepth data 1).size
  bidSize : (observe libm paras data now leg).1.bidSize = wrapInt (getBidDepth data 1).size
  volume : (observe libm paras data now leg).1.volume = wrapInt data.totVol

section Screen

variable {libm : MathLibrary} {paras : StrategyParameters} {data : CTickData} {leg : Instrument}

theorem not_lt_tolerance {x y c : ℚ} (hy : 0 < y) : ¬ |x| / y > c ↔ |x| ≤ c * y := by
  rw [not_lt, div_le_iff₀ hy]

/-- Of all its tests, a plausible tick can only fail that of the last price. -/
theorem screen_plausible (habs : ∀ x, libm.abs x = |x|) (h : Plausible data leg)
    (hvalid : leg.isValid = true) :
    (screen libm paras data leg).2 = true ↔ data.lastPrice = (getBidDepth data 1).price := by
  have hbid := h.bid_pos
  have hask : 0 < (getAskDepth data 1).price := hbid.trans h.bid_lt_ask
  have hquotes : ¬ ((getBidDepth data 1).price = 0 ∨ (getAskDepth data 1).price = 0 ∨
      (getAskDepth data 1).price ≤ (getBidDepth data 1).price ∨
      (getBidDepth data 1).price < 10 * leg.tickSize ∨
      (getAskDepth data 1).price < 10 * leg.tickSize) := by
    have := h.tenTicks
    have := h.bid_lt_ask
    rintro (heq | heq | hle | hlt | hlt) <;> linarith
  have hspread : |(getAskDepth data 1).price - (getBidDepth data 1).price| ≤
      1 / 10 * (getBidDepth data 1).price := by
    rw [abs_of_pos (sub_pos.mpr h.bid_lt_ask)]
    exact h.spread_le
  unfold screen
  dsimp only
  rw [if_neg (not_not.mpr hvalid), if_neg hquotes, if_neg (not_le.mpr h.ma_pos),
    if_neg (fun hnight => not_lt.mpr h.lastPx hnight.2), if_neg (not_lt.mpr h.volume)]
  simp only [habs]
  by_cases hlast : data.lastPrice = (getBidDepth data 1).price
  · rw [if_neg]
    · exact iff_of_true rfl hlast
    · rw [not_or, not_or, not_or]
      refine ⟨(not_lt_tolerance hbid).mpr h.bid_near, (not_lt_tolerance hask).mpr h.ask_near,
        (not_lt_tolerance hbid).mpr hspread, ?_⟩
      simp [hlast]
  · rw [if_pos]
    · exact iff_of_false Bool.false_ne_true hlast
    · -- the quotient that is not compared with a tolerance
      refine .inr (.inr (.inr (div_ne_zero ?_ hbid.ne')))
      exact abs_ne_zero.mpr (sub_ne_zero.mpr hlast)

theorem accepted_iff_passes {now : ℕ} :
    Accepted libm paras data now leg ↔ (screen libm paras data leg).2 = true := by
  have hquoted : ∀ leg, (quote data leg).askPrice = (getAskDepth data 1).price ∧
      (quote data leg).bidPrice = (getBidDepth data 1).price ∧
      (quote data leg).askSize = wrapInt (getAskDepth data 1).size ∧
      (quote data leg).bidSize = wrapInt (getBidDepth data 1).size ∧
      (quote data leg).volume = wrapInt data.totVol := by
    intro leg
    unfold quote
    split_ifs <;> simp
  have hopp : ∀ leg, (updateOpp libm paras now leg).askPrice = leg.askPrice ∧
      (updateOpp libm paras now leg).bidPrice = leg.bidPrice ∧
      (updateOpp libm paras now leg).askSize = leg.askSize ∧
      (updateOpp libm paras now leg).bidSize = leg.bidSize ∧
      (updateOpp libm paras now leg).volume = leg.volume := by
    intro leg
    unfold updateOpp
    dsimp only
    split_ifs <;> simp
  constructor
  · intro h
    have hpasses := h.passes
    rw [observe_eq_quoted] at hpasses
    by_contra hscreen
    rw [if_neg hscreen] at hpasses
    exact Bool.false_ne_true hpasses
  · intro hscreen
    have hobserve := observe_eq_quoted libm paras data now leg
    rw [if_pos hscreen] at hobserve
    have hall : (observe libm paras data now leg).1.askPrice = (getAskDepth data 1).price ∧
        (observe libm paras data now leg).1.bidPrice = (getBidDepth data 1).price ∧
        (observe libm paras data now leg).1.askSize = wrapInt (getAskDepth data 1).size ∧
        (observe libm paras data now leg).1.bidSize = wrapInt (getBidDepth data 1).size ∧
        (observe libm paras data now leg).1.volume = wrapInt data.totVol := by
      rw [hobserve]
      unfold quoted
      dsimp only
      split_ifs <;> simp only [hopp, hquoted, and_self]
    obtain ⟨haskPrice, hbidPrice, haskSize, hbidSize, hvolume⟩ := hall
    exact ⟨by rw [hobserve], haskPrice, hbidPrice, haskSize, hbidSize, hvolume⟩

end Screen

theorem isValid_removePosition (leg : Instrument) (isLong : Bool) (orderqty now : ℕ) :
    (leg.removePosition isLong orderqty now).isValid = leg.isValid := by
  cases isLong <;> rfl

theorem isValid_invariant (byteOrder : ByteOrder) (libm : MathLibrary)
    (paras : StrategyParameters) :
    LegInvariant byteOrder libm paras fun leg => leg.isValid = true where
  init leg h := by
    rw [← h]
    unfold Instrument.initInstrument
    dsimp only
    split_ifs <;> rfl
  prices leg h := by
    rw [← h]
    unfold updatePrices
    dsimp only
    split_ifs <;> rfl
  count leg h := by
    rw [← h]
    unfold countUpdate
    split_ifs <;> rfl
  volatility leg h := by
    rw [← h]
    unfold updateVolatility
    split_ifs <;> rfl
  screen data leg h := by
    rw [← h]
    unfold screen
    dsimp only
    split_ifs <;> rfl
  reset _ h := h
  quote data leg h := by
    rw [← h]
    unfold quote
    split_ifs <;> rfl
  opp now below above leg h := by
    rw [← h]
    unfold countOpp
    split_ifs <;> rfl
  orders data now signals b state state' _ htake h := by
    unfold Branch.submit at htake
    split_ifs at htake
    · obtain ⟨_, -, rfl⟩ := Option.map_eq_some_iff.mp htake
      rw [← h]
      cases b.isLong <;> rfl
    · obtain ⟨size, -, rfl⟩ := Option.map_eq_some_iff.mp htake
      have hpnl : (state.1.calculatePnl paras b.isLong (wrapInt (toUInt32 size))
          (b.price state.1)).isValid = state.1.isValid := by
        unfold Instrument.calculatePnl
        split_ifs <;> rfl
      exact (isValid_removePosition ..).trans (hpnl.trans h)

/-- In every state of a run, a plausible tick is accepted if and only if its last price is the
bid. -/
theorem accepted_iff (byteOrder : ByteOrder) (libm : MathLibrary) (self : ℕ)
    (habs : ∀ x, libm.abs x = |x|) (globalParas : StrategyParameters)
    (legs : List (Str × LegValues)) (orderManager : FakeOrderManager) {actions : List Action}
    {s : State} (hrun : Run (step byteOrder libm self) (fun _ _ => True)
      (.configured globalParas legs orderManager) actions s)
    {data : CTickData} {leg : Instrument} (hleg : tickLeg s data.instIndex = some leg)
    (h : Plausible data leg) (now : ℕ) :
    Accepted libm s.globalParas data now leg ↔ data.lastPrice = (getBidDepth data 1).price := by
  obtain ⟨events, hevents⟩ := run_stepBy hrun
  have hstart : ∀ leg ∈ (State.configured globalParas legs orderManager).pInstruments,
      leg.isValid = true := List.forall_mem_map.mpr fun _ _ => rfl
  have hvalid := (LegInvariant.run
    (fun totalPos counter => isValid_invariant byteOrder libm
      { globalParas with totalPos := totalPos, counter := counter }) rfl hstart hevents).2
  obtain ⟨i, -, hget⟩ := Option.bind_eq_some_iff.mp hleg
  rw [accepted_iff_passes]
  exact screen_plausible habs h (hvalid leg (List.mem_of_getElem? hget))

def plausibleTick (lastPrice : ℚ) : CTickData := { quoteTick 100 with lastPrice := lastPrice }

def firstTick : List Action := [.marketData (quoteTick 100) 36000000]

instance (data : CTickData) (leg : Instrument) : Decidable (Plausible data leg) :=
  decidable_of_iff' _ (plausible_iff data leg)

theorem accepted_iff_bid :
    ∃ s leg, Run (step .littleEndian exactMath 0) (fun _ _ => True)
        (.configured (dayParas true) [(['a'], oneLot)] (newManager 0)) firstTick s ∧
      tickLeg s 10200000 = some leg ∧
      (Accepted exactMath s.globalParas (plausibleTick 100) 36000500 leg ↔
        (plausibleTick 100).lastPrice = (getBidDepth (plausibleTick 100) 1).price) := by
  have hexecute : ((Run.execute (step .littleEndian exactMath 0) (fun _ _ => True)
      (.configured (dayParas true) [(['a'], oneLot)] (newManager 0)) firstTick).map fun s =>
        (tickLeg s 10200000).any fun leg => decide (Plausible (plausibleTick 100) leg)) =
      some true := by
    decide +kernel
  obtain ⟨s, hrun, hany⟩ := Run.exists_of_execute_map hexecute
  obtain ⟨leg, hleg, hplausible⟩ := (Option.any_eq_true _ _).mp hany
  exact ⟨s, leg, hrun, hleg, accepted_iff .littleEndian exactMath 0 (fun _ => rfl) _ _ _ hrun hleg
    (of_decide_eq_true hplausible) 36000500⟩

/-- A trade at the ask makes the strategy discard the tick. -/
theorem not_accepted_ask :
    ¬ ∀ (byteOrder : ByteOrder) (libm : MathLibrary) (self : ℕ), (∀ x, libm.abs x = |x|) →
      ∀ (globalParas : StrategyParameters) (legs : List (Str × LegValues))
        (orderManager : FakeOrderManager) (actions : List Action) (s : State),
      Run (step byteOrder libm self) (fun _ _ => True) (.configured globalParas legs orderManager)
        actions s →
      ∀ (data : CTickData) (leg : Instrument), tickLeg s data.instIndex = some leg →
        Plausible data leg → ∀ now, Accepted libm s.globalParas data now leg := by
  intro h
  have hexecute : ((Run.execute (step .littleEndian exactMath 0) (fun _ _ => True)
      (.configured (dayParas true) [(['a'], oneLot)] (newManager 0)) firstTick).map fun s =>
        (tickLeg s 10200000).any fun leg => decide (Plausible (plausibleTick 101) leg ∧
          (observe exactMath s.globalParas (plausibleTick 101) 36000500 leg).2 = false)) =
      some true := by
    decide +kernel
  obtain ⟨s, hrun, hany⟩ := Run.exists_of_execute_map hexecute
  obtain ⟨leg, hleg, hboth⟩ := (Option.any_eq_true _ _).mp hany
  obtain ⟨hclean, hdiscarded⟩ := of_decide_eq_true hboth
  have haccepted := h _ _ _ (fun _ => rfl) _ _ _ _ s hrun (plausibleTick 101) leg hleg hclean
    36000500
  exact Bool.false_ne_true (hdiscarded.symm.trans haccepted.passes)

end BluesTrading.TickFilter
