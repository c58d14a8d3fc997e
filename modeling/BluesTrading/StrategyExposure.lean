import BluesTrading.StrategyLedger
import BluesTrading.StrategyOrders

namespace BluesTrading.StrategyExposure

open BluesTrading.Foundations
open BluesTrading.OrderData
open BluesTrading.OrderManager
open BluesTrading.SingleStrategy
open BluesTrading.StrategyLedger
open BluesTrading.StrategyOrders
open BluesTrading.SourceText

/-- What has been paid or got for the open position of one side. -/
def cumPrice (leg : Instrument) : Bool → ℚ
  | true => leg.cumLongPrice
  | false => leg.cumShortPrice

/-- What only orders, counts of opportunities, day starts and price jumps change. -/
structure Standing where
  account : Account
  cumLongPrice : ℚ
  cumShortPrice : ℚ
  oppCounterSelf : ℤ
  preTradeTimeInMS : ℕ
  preOppTimeInMS : ℕ

def standing (leg : Instrument) : Standing :=
  ⟨account leg, leg.cumLongPrice, leg.cumShortPrice, leg.oppCounterSelf, leg.preTradeTimeInMS,
    leg.preOppTimeInMS⟩

@[simp] theorem standing_screen (libm : MathLibrary) (paras : StrategyParameters)
    (data : CTickData) (leg : Instrument) :
    standing (screen libm paras data leg).1 = standing leg := by
  unfold screen
  dsimp only
  split_ifs <;> rfl

@[simp] theorem standing_quote (data : CTickData) (leg : Instrument) :
    standing (quote data leg) = standing leg := by
  unfold quote
  split_ifs <;> rfl

@[simp] theorem standing_updatePrices (libm : MathLibrary) (paras : StrategyParameters)
    (leg : Instrument) : standing (updatePrices libm paras leg) = standing leg := by
  unfold updatePrices
  dsimp only
  split_ifs <;> rfl

@[simp] theorem standing_countUpdate (leg : Instrument) :
    standing (countUpdate leg) = standing leg := by
  unfold countUpdate
  split_ifs <;> rfl

@[simp] theorem standing_updateVolatility (paras : StrategyParameters) (leg : Instrument) :
    standing (updateVolatility paras leg) = standing leg := by
  unfold updateVolatility
  split_ifs <;> rfl

theorem account_initInstrument_day {paras : StrategyParameters} (leg : Instrument)
    (h : ¬ paras.isOverNight = true) :
    account (leg.initInstrument paras) = account (resetPosition leg) := by
  unfold Instrument.initInstrument
  dsimp only
  rw [if_neg h]
  split_ifs <;> rfl

theorem cumPrice_congr {leg leg' : Instrument} (h : standing leg' = standing leg)
    (isLong : Bool) : cumPrice leg' isLong = cumPrice leg isLong := by
  cases isLong
  · exact congrArg Standing.cumShortPrice h
  · exact congrArg Standing.cumLongPrice h

/-! ### The sizes of the orders -/

theorem toInt_of_nonneg {x : ℚ} {n : ℤ} (hx : 0 ≤ x) (h : toInt x = some n) :
    n = ⌊x⌋ ∧ 0 ≤ n ∧ n < 2 ^ 31 := by
  have hsmall := (toInt_bounds h).1
  rw [toInt, if_neg (not_lt.mpr hx)] at h
  split_ifs at h
  obtain rfl := Option.some.inj h
  exact ⟨rfl, Int.floor_nonneg.mpr hx, hsmall⟩

theorem isSome_toInt {x : ℚ} (hlow : 0 ≤ x) (hhigh : x < 2 ^ 31) : (toInt x).isSome := by
  have hfloor : ⌊x⌋ < 2 ^ 31 := Int.floor_lt.mpr (by exact_mod_cast hhigh)
  have hnonneg : 0 ≤ ⌊x⌋ := Int.floor_nonneg.mpr hlow
  have hrange : isInt32 ⌊x⌋ = true := by
    simp [isInt32]
    omega
  rw [toInt, if_neg (not_lt.mpr hlow), if_pos hrange]
  rfl

section Orders

variable {byteOrder : ByteOrder} {paras : StrategyParameters} {data : CTickData} {now : ℕ}
  {isLong : Bool} {price : ℚ} {state state' : Instrument × FakeOrderManager}

theorem leg_of_enter (hppl : 0 ≤ state.1.ppl + 1 / 2)
    (h : enter byteOrder data now isLong price state = some state') :
    ∃ orderqty : ℕ, (orderqty : ℤ) = ⌊state.1.ppl + 1 / 2⌋ ∧ orderqty < 2 ^ 31 ∧
      state'.1 = state.1.addPosition isLong orderqty now price := by
  obtain ⟨size, hsize, rfl⟩ := Option.map_eq_some_iff.mp h
  obtain ⟨hfloor, hnonneg, hsmall⟩ := toInt_of_nonneg hppl hsize
  have hqty := toUInt32_of_small hnonneg hsmall
  exact ⟨toUInt32 size, by rw [hqty, hfloor], by omega, rfl⟩

theorem leg_of_leave (hppl : 0 ≤ state.1.ppl + 1 / 2)
    (hqty : 0 ≤ state.1.openPositionQty isLong)
    (h : leave byteOrder paras data now isLong price state = some state') :
    ∃ orderqty : ℕ,
      (orderqty : ℤ) = min ⌊state.1.ppl + 1 / 2⌋ (state.1.openPositionQty isLong) ∧
      orderqty < 2 ^ 31 ∧
      state'.1 = (state.1.calculatePnl paras isLong orderqty price).removePosition isLong
        orderqty now := by
  obtain ⟨size, hsize, rfl⟩ := Option.map_eq_some_iff.mp h
  obtain ⟨hfloor, hnonneg, hsmall⟩ :=
    toInt_of_nonneg (le_min hppl (by exact_mod_cast hqty)) hsize
  have horder := toUInt32_of_small hnonneg hsmall
  refine ⟨toUInt32 size, ?_, by omega, ?_⟩
  · rw [horder, hfloor, Int.floor_mono.map_min, Int.floor_intCast]
  · dsimp only
    rw [horder, wrapInt_of_small (by omega) hsmall]

end Orders

section Cost

variable (leg : Instrument) (isLong : Bool) (orderqty now : ℕ) (price : ℚ) (side : Bool)

theorem cumPrice_addPosition :
    cumPrice (leg.addPosition isLong orderqty now price) side =
      if side = isLong then cumPrice leg side + price * orderqty else cumPrice leg side := by
  cases isLong <;> cases side <;> rfl

theorem cumPrice_removePosition :
    cumPrice (leg.removePosition isLong orderqty now) side = cumPrice leg side := by
  cases isLong <;> cases side <;> rfl

/-- The cost of what is left is its part of the cost of the side. -/
theorem cumPrice_calculatePnl (paras : StrategyParameters) :
    cumPrice (leg.calculatePnl paras isLong orderqty price) side =
      if side = isLong then
        cumPrice leg side - orderqty * (cumPrice leg side / leg.openPositionQty side)
      else cumPrice leg side := by
  by_cases hqty : orderqty = 0
  · subst hqty
    cases isLong <;> simp [Instrument.calculatePnl]
  · have hpos : 0 < orderqty := Nat.pos_of_ne_zero hqty
    cases isLong <;> cases side <;>
      simp [Instrument.calculatePnl, hpos, cumPrice, Instrument.openPositionQty]

end Cost

/-! ### One side at a time -/

/-- What holds of an instrument between two callbacks. -/
structure Sound (thresholdSelf : ℤ) (leg : Instrument) : Prop where
  qty_nonneg : ∀ isLong, 0 ≤ leg.openPositionQty isLong
  oneSide : leg.openPositionQty true = 0 ∨ leg.openPositionQty false = 0
  opp_ge : -thresholdSelf ≤ leg.oppCounterSelf
  opp_le : leg.oppCounterSelf ≤ thresholdSelf
  cumPrice_eq_zero : ∀ isLong, leg.openPositionQty isLong = 0 → cumPrice leg isLong = 0

/-- The same with what it rests on: an order of the given size is an `int`, and a side is
entered only while nothing of it is open. -/
structure Exposed (thresholdSelf : ℤ) (leg : Instrument) : Prop
    extends Sound thresholdSelf leg where
  ppl_nonneg : 0 ≤ leg.ppl
  ppl_small : leg.ppl < 2 ^ 31 - 1
  maxPos : leg.maxPos = 1
  qty_small : ∀ isLong, leg.openPositionQty isLong < 2 ^ 31

namespace Exposed

variable {thresholdSelf : ℤ} {leg leg' : Instrument}

/-- Nothing else of an instrument counts. -/
theorem congr (h : Exposed thresholdSelf leg) (haccount : account leg' = account leg)
    (hcost : ∀ isLong, cumPrice leg' isLong = cumPrice leg isLong)
    (hopp : -thresholdSelf ≤ leg'.oppCounterSelf ∧ leg'.oppCounterSelf ≤ thresholdSelf) :
    Exposed thresholdSelf leg' := by
  obtain ⟨-, hppl, hmax⟩ := sameTerms_of_account haccount
  have hqty := openPositionQty_congr haccount
  exact
    { qty_nonneg := fun isLong => (hqty isLong).symm ▸ h.qty_nonneg isLong
      oneSide := by rw [hqty, hqty]; exact h.oneSide
      opp_ge := hopp.1
      opp_le := hopp.2
      cumPrice_eq_zero := fun isLong => by
        rw [hqty, hcost]
        exact h.cumPrice_eq_zero isLong
      ppl_nonneg := hppl ▸ h.ppl_nonneg
      ppl_small := hppl ▸ h.ppl_small
      maxPos := hmax ▸ h.maxPos
      qty_small := fun isLong => (hqty isLong).symm ▸ h.qty_small isLong }

theorem of_standing (h : Exposed thresholdSelf leg) (heq : standing leg' = standing leg) :
    Exposed thresholdSelf leg' := by
  have hopp : leg'.oppCounterSelf = leg.oppCounterSelf := congrArg Standing.oppCounterSelf heq
  exact h.congr (congrArg Standing.account heq) (cumPrice_congr heq)
    (hopp ▸ ⟨h.opp_ge, h.opp_le⟩)

theorem resetPosition (h : Exposed thresholdSelf leg) :
    Exposed thresholdSelf (resetPosition leg) where
  qty_nonneg isLong := by cases isLong <;> exact le_rfl
  oneSide := .inl rfl
  opp_ge := h.opp_ge
  opp_le := h.opp_le
  cumPrice_eq_zero isLong _ := by cases isLong <;> rfl
  ppl_nonneg := h.ppl_nonneg
  ppl_small := h.ppl_small
  maxPos := h.maxPos
  qty_small isLong := by cases isLong <;> exact Int.pow_pos (by norm_num)

theorem initInstrument (h : Exposed thresholdSelf leg) (paras : StrategyParameters) :
    Exposed thresholdSelf (leg.initInstrument paras) := by
  have hle : -thresholdSelf ≤ 0 ∧ 0 ≤ thresholdSelf := by
    have := h.opp_ge
    have := h.opp_le
    omega
  by_cases hnight : paras.isOverNight = true
  · refine h.congr (account_initInstrument (.inl hnight)) (fun isLong => ?_) ?_
    · cases isLong <;> simp [Instrument.initInstrument, hnight, cumPrice] <;> split_ifs <;> rfl
    · have hopp : (leg.initInstrument paras).oppCounterSelf = leg.oppCounterSelf := by
        simp only [Instrument.initInstrument, hnight, if_true]
        split_ifs <;> rfl
      exact hopp ▸ ⟨h.opp_ge, h.opp_le⟩
  · have hreset := h.resetPosition
    refine hreset.congr ?_ (fun isLong => ?_) ?_
    · exact account_initInstrument_day leg hnight
    · cases isLong <;>
        simp [Instrument.initInstrument, hnight, cumPrice, SingleStrategy.resetPosition]
    · simpa [Instrument.initInstrument, hnight] using hle

theorem countOpp {paras : StrategyParameters} (h : Exposed paras.thresholdSelf leg) (now : ℕ)
    (below above : Bool) :
    Exposed paras.thresholdSelf (countOpp paras now below above leg) := by
  have hge := h.opp_ge
  have hle := h.opp_le
  refine h.congr ?_ (fun isLong => ?_) ?_
  · unfold StrategyOrders.countOpp
    split_ifs <;> rfl
  · unfold StrategyOrders.countOpp
    split_ifs <;> cases isLong <;> rfl
  · unfold StrategyOrders.countOpp
    split_ifs with hbelow hdown habove hup
    · simp only [mayCountDown, decide_eq_true_eq] at hdown
      rcases hdown with hopp | hopp | hopp <;> simp only <;> omega
    · exact ⟨hge, hle⟩
    · simp only [mayCountUp, decide_eq_true_eq] at hup
      rcases hup with hopp | hopp | hopp <;> simp only <;> omega
    · exact ⟨hge, hle⟩
    · exact ⟨hge, hle⟩

/-- One side is changed while nothing of the other is open. -/
theorem order (h : Exposed thresholdSelf leg) (isLong : Bool) (qty : ℤ)
    (hterms : SameTerms leg leg') (hopp : leg'.oppCounterSelf = leg.oppCounterSelf)
    (hother : leg.openPositionQty (!isLong) = 0)
    (hcount : ∀ side, leg'.openPositionQty side =
      if side = isLong then qty else leg.openPositionQty side)
    (hkeep : cumPrice leg' (!isLong) = cumPrice leg (!isLong))
    (hcost : qty = 0 → cumPrice leg' isLong = 0) (hnonneg : 0 ≤ qty) (hsmall : qty < 2 ^ 31) :
    Exposed thresholdSelf leg' := by
  obtain ⟨-, hppl, hmax⟩ := hterms
  have hown : leg'.openPositionQty isLong = qty := by simp [hcount]
  have hrest : leg'.openPositionQty (!isLong) = 0 := by simp [hcount, hother]
  refine
    { qty_nonneg := fun side => ?_
      oneSide := ?_
      opp_ge := hopp ▸ h.opp_ge
      opp_le := hopp ▸ h.opp_le
      cumPrice_eq_zero := fun side hside => ?_
      ppl_nonneg := hppl ▸ h.ppl_nonneg
      ppl_small := hppl ▸ h.ppl_small
      maxPos := hmax ▸ h.maxPos
      qty_small := fun side => ?_ }
  · rcases Bool.eq_or_eq_not side isLong with rfl | rfl
    · rwa [hown]
    · rw [hrest]
  · cases isLong
    · exact .inl hrest
    · exact .inr hrest
  · rcases Bool.eq_or_eq_not side isLong with rfl | rfl
    · exact hcost (hown ▸ hside)
    · rw [hkeep, h.cumPrice_eq_zero _ hother]
  · rcases Bool.eq_or_eq_not side isLong with rfl | rfl
    · rwa [hown]
    · rw [hrest]
      norm_num

variable {byteOrder : ByteOrder} {paras : StrategyParameters} {data : CTickData} {now : ℕ}
  {isLong : Bool} {price : ℚ} {state state' : Instrument × FakeOrderManager}

theorem enter (h : Exposed thresholdSelf state.1)
    (hbelow : state.1.openPositionQty isLong < state.1.maxPos)
    (hother : state.1.openPositionQty (!isLong) = 0)
    (htake : enter byteOrder data now isLong price state = some state') :
    Exposed thresholdSelf state'.1 := by
  have hppl : 0 ≤ state.1.ppl + 1 / 2 := by linarith [h.ppl_nonneg]
  obtain ⟨orderqty, -, hsmall, hleg⟩ := leg_of_enter hppl htake
  -- the limit is one lot
  have hzero : state.1.openPositionQty isLong = 0 := by
    rw [h.maxPos] at hbelow
    have hlt : state.1.openPositionQty isLong < 1 := by exact_mod_cast hbelow
    have hnonneg := h.qty_nonneg isLong
    omega
  rw [hleg]
  refine h.order isLong orderqty ?_ ?_ hother (fun side => ?_) ?_ (fun hqty => ?_) (by omega)
    (by omega)
  · cases isLong <;> exact ⟨rfl, rfl, rfl⟩
  · cases isLong <;> rfl
  · rw [openPositionQty_addPosition]
    split_ifs with hside
    · rw [hside, hzero, zero_add, wrapInt_of_small (by omega) (by omega)]
    · rfl
  · rw [cumPrice_addPosition, if_neg (by simp)]
  · rw [cumPrice_addPosition, if_pos rfl, h.cumPrice_eq_zero isLong hzero]
    simp [Int.natCast_eq_zero.mp hqty]

theorem leave (h : Exposed thresholdSelf state.1)
    (hheld : state.1.openPositionQty isLong ≠ 0)
    (htake : leave byteOrder paras data now isLong price state = some state') :
    Exposed thresholdSelf state'.1 := by
  have hppl : 0 ≤ state.1.ppl + 1 / 2 := by linarith [h.ppl_nonneg]
  have hnonneg := h.qty_nonneg isLong
  have hsmall := h.qty_small isLong
  obtain ⟨orderqty, hsize, -, hleg⟩ := leg_of_leave hppl hnonneg htake
  have hother : state.1.openPositionQty (!isLong) = 0 := by
    cases isLong
    · exact h.oneSide.resolve_right hheld
    · exact h.oneSide.resolve_left hheld
  have hle : (orderqty : ℤ) ≤ state.1.openPositionQty isLong := hsize ▸ min_le_right _ _
  rw [hleg]
  refine h.order isLong (state.1.openPositionQty isLong - orderqty) ?_ ?_ hother (fun side => ?_)
    ?_ (fun hqty => ?_) (by omega) (by omega)
  · exact (sameTerms_of_account (account_calculatePnl ..)).removePosition isLong _ now
  · unfold Instrument.calculatePnl
    split_ifs <;> cases isLong <;> rfl
  · rw [openPositionQty_removePosition, openPositionQty_congr (account_calculatePnl ..)]
    split_ifs with hside
    · rw [hside, wrapInt_of_small (by omega) (by omega)]
    · rfl
  · rw [cumPrice_removePosition, cumPrice_calculatePnl, if_neg (by simp)]
  · -- all of the side is left, and with it all of its cost
    have hall : (orderqty : ℚ) = state.1.openPositionQty isLong := by
      exact_mod_cast (sub_eq_zero.mp hqty).symm
    have hne : (state.1.openPositionQty isLong : ℚ) ≠ 0 := by exact_mod_cast hheld
    rw [cumPrice_removePosition, cumPrice_calculatePnl, if_pos rfl, hall,
      mul_div_cancel₀ _ hne, sub_self]

theorem submit {signals : Instrument → Branch → Bool} :
    KeptByOrders byteOrder paras data now signals fun state => Exposed thresholdSelf state.1 := by
  intro b state state' htaken htake h
  unfold Branch.submit at htake
  split_ifs at htake with hopen
  · obtain ⟨hbelow, hother⟩ := of_taken_open hopen htaken
    exact h.enter hbelow hother htake
  · exact h.leave (of_taken_close (Bool.eq_false_iff.mpr hopen) htaken) htake

theorem isSome_submit {b : Branch} (h : Exposed thresholdSelf state.1) :
    (b.submit byteOrder paras data now state).isSome := by
  have hlow : 0 ≤ state.1.ppl + 1 / 2 := by linarith [h.ppl_nonneg]
  have hhigh : state.1.ppl + 1 / 2 < 2 ^ 31 := by linarith [h.ppl_small]
  unfold Branch.submit
  split_ifs with hopen
  · exact Option.isSome_map.trans (isSome_toInt hlow hhigh)
  · have hqty : (0 : ℚ) ≤ state.1.openPositionQty b.isLong := by
      exact_mod_cast h.qty_nonneg b.isLong
    exact Option.isSome_map.trans
      (isSome_toInt (le_min hlow hqty) (lt_of_le_of_lt (min_le_left _ _) hhigh))

theorem invariant (byteOrder : ByteOrder) (libm : MathLibrary) (paras : StrategyParameters) :
    LegInvariant byteOrder libm paras (Exposed paras.thresholdSelf) where
  init _ h := h.initInstrument paras
  prices leg h := h.of_standing (standing_updatePrices libm paras leg)
  count leg h := h.of_standing (standing_countUpdate leg)
  volatility leg h := h.of_standing (standing_updateVolatility paras leg)
  screen data leg h := h.of_standing (standing_screen libm paras data leg)
  reset _ h := h.resetPosition
  quote data leg h := h.of_standing (standing_quote data leg)
  opp now below above _ h := h.countOpp now below above
  orders _ _ _ := Exposed.submit

theorem exposed_configured {globalParas : StrategyParameters} {legs : List (Str × LegValues)}
    {orderManager : FakeOrderManager} (hthreshold : 0 ≤ globalParas.thresholdSelf)
    (hppl : ∀ leg ∈ legs, 0 ≤ leg.2.ppl ∧ leg.2.ppl < 2 ^ 31 - 1) :
    ∀ leg ∈ (State.configured globalParas legs orderManager).pInstruments,
      Exposed globalParas.thresholdSelf leg := by
  refine List.forall_mem_map.mpr fun leg hleg => ?_
  exact
    { qty_nonneg := fun isLong => by cases isLong <;> exact le_rfl
      oneSide := .inl rfl
      opp_ge := by simpa [LegValues.set, addInstrument] using hthreshold
      opp_le := hthreshold
      cumPrice_eq_zero := fun isLong _ => by cases isLong <;> rfl
      ppl_nonneg := (hppl leg hleg).1
      ppl_small := (hppl leg hleg).2
      maxPos := rfl
      qty_small := fun isLong => by cases isLong <;> exact Int.pow_pos (by norm_num) }

end Exposed

/-- Every tick of an instrument that the strategy has comes to an end. -/
theorem Exposed.isSome_onMarketDataBy {byteOrder : ByteOrder} {libm : MathLibrary} {s : State}
    (h : ∀ leg ∈ s.pInstruments, Exposed s.globalParas.thresholdSelf leg) {data : CTickData}
    (hleg : (tickLeg s data.instIndex).isSome) (now : ℕ) (signals : Signals) :
    (onMarketDataBy byteOrder libm s data now signals).isSome := by
  obtain ⟨leg, hfound⟩ := Option.isSome_iff_exists.mp hleg
  obtain ⟨i, hi, hget⟩ := Option.bind_eq_some_iff.mp hfound
  rw [onMarketDataBy, hi, Option.bind_some, hget, Option.bind_some, Option.isSome_map]
  have hobserved : Exposed _ (observeBy libm s.globalParas data now signals leg).1 :=
    (Exposed.invariant byteOrder libm s.globalParas).observeBy (h leg (List.mem_of_getElem? hget))
  unfold onTickBy
  split
  · rfl
  · next observed heq =>
      rw [heq] at hobserved
      exact isSome_visitAll Exposed.submit (fun _ _ _ h => h.isSome_submit) hobserved

/-- The calls of `calculatePnl` on a tick: the side, and the instrument that it is called
with. -/
def pnlCalls (byteOrder : ByteOrder) (libm : MathLibrary) (s : State) (data : CTickData)
    (now : ℕ) (signals : Signals) : List (Bool × Instrument) :=
  (tickSubmissions byteOrder libm s data now signals).filterMap fun call =>
    if call.1.isOpen then none else some (call.1.isLong, call.2)

theorem qty_of_mem_pnlCalls {byteOrder : ByteOrder} {libm : MathLibrary} {s : State}
    {data : CTickData} {now : ℕ} {signals : Signals} {call : Bool × Instrument}
    (h : call ∈ pnlCalls byteOrder libm s data now signals) :
    call.2.openPositionQty call.1 ≠ 0 := by
  obtain ⟨⟨b, leg⟩, hcall, hsome⟩ := List.mem_filterMap.mp h
  split_ifs at hsome with hopen
  obtain rfl := Option.some.inj hsome
  unfold tickSubmissions at hcall
  split at hcall
  · have htaken := (of_mem_submissions (I := fun _ => True) (fun _ _ _ _ _ _ => trivial) hcall
      trivial).1
    exact of_taken_close (Bool.eq_false_iff.mpr hopen) htaken
  · cases hcall

/-- In every state of a run the strategy holds one side at most of each instrument, counts
opportunities up to the threshold and carries no cost of nothing; and it never divides by
an open position of zero. -/
theorem sound_of_run (byteOrder : ByteOrder) (libm : MathLibrary) (self : ℕ)
    (globalParas : StrategyParameters) (legs : List (Str × LegValues))
    (orderManager : FakeOrderManager) (hthreshold : 0 ≤ globalParas.thresholdSelf)
    (hppl : ∀ leg ∈ legs, 0 ≤ leg.2.ppl ∧ leg.2.ppl < 2 ^ 31 - 1)
    {events : List SignalledAction} {s : State}
    (hrun : Run (stepBy byteOrder libm self) (fun _ _ => True)
      (.configured globalParas legs orderManager) events s) :
    (∀ leg ∈ s.pInstruments, Sound globalParas.thresholdSelf leg) ∧
      ∀ data now signals, ∀ call ∈ pnlCalls byteOrder libm s data now signals,
        call.2.openPositionQty call.1 ≠ 0 := by
  have hinvariant : ∀ totalPos counter, LegInvariant byteOrder libm
      { globalParas with totalPos := totalPos, counter := counter }
      (Exposed globalParas.thresholdSelf) := fun totalPos counter =>
    Exposed.invariant byteOrder libm
      { globalParas with totalPos := totalPos, counter := counter }
  have hlegs := (LegInvariant.run hinvariant rfl
    (Exposed.exposed_configured hthreshold hppl) hrun).2
  exact ⟨fun leg hleg => (hlegs leg hleg).toSound,
    fun data now signals call hcall => qty_of_mem_pnlCalls hcall⟩

def shortSignals : Signals where
  passes _ := true
  jumps _ := false
  below _ := false
  above _ := false
  trades _ b := b = .enter false

def shortEvents : List SignalledAction :=
  [(.startDay, shortSignals), (.marketData (quoteTick 100) 36000000, shortSignals)]

theorem sound_of_run_short :
    ∃ s, Run (stepBy .littleEndian exactMath 0) (fun _ _ => True)
        (.configured (dayParas true) [(['a'], oneLot)] (newManager 0)) shortEvents s ∧
      s.pInstruments.map (·.shortOpenPositionQty) = [1] ∧
      ∀ leg ∈ s.pInstruments, Sound 0 leg := by
  have hexecute : ((Run.execute (stepBy .littleEndian exactMath 0) (fun _ _ => True)
      (.configured (dayParas true) [(['a'], oneLot)] (newManager 0)) shortEvents).map fun s =>
        s.pInstruments.map (·.shortOpenPositionQty)) = some [1] := by
    decide +kernel
  obtain ⟨s, hrun, hheld⟩ := Run.exists_of_execute_map hexecute
  exact ⟨s, hrun, hheld, (sound_of_run .littleEndian exactMath 0 _ _ _ (by decide)
    (by decide +kernel) hrun).1⟩

end BluesTrading.StrategyExposure
