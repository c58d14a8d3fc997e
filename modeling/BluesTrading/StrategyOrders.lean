import BluesTrading.Foundations.Runs
import BluesTrading.SingleStrategy

namespace BluesTrading.StrategyOrders

open BluesTrading.Foundations
open BluesTrading.OrderData
open BluesTrading.OrderManager
open BluesTrading.SingleStrategy

/-- A branch of `doEnter`, `doExit` or `liquidate` that submits an order. -/
inductive Branch
  | enter (isLong : Bool)
  | exit (isLong : Bool)
  | liquidate (isLong : Bool)
deriving DecidableEq

namespace Branch

def isLong : Branch → Bool
  | enter isLong => isLong
  | exit isLong => isLong
  | liquidate isLong => isLong

def isOpen : Branch → Bool
  | enter _ => true
  | _ => false

/-- A buy pays the ask and a sale gets the bid. -/
def price (b : Branch) (leg : Instrument) : ℚ :=
  if b.isOpen = b.isLong then leg.askPrice else leg.bidPrice

end Branch

/-- The order in which a tick tries them. -/
def branches : List Branch :=
  [.enter false, .enter true, .exit true, .exit false, .liquidate true, .liquidate false]

section Visit

variable (byteOrder : ByteOrder) (paras : StrategyParameters) (data : CTickData) (now : ℕ)

/-- The condition of a branch, with the outcome of what it compares of prices and sizes. -/
def Branch.taken (leg : Instrument) (signal : Bool) : Branch → Bool
  | enter false => isValidEnterTime paras now && !leg.stoploss &&
      leg.shortOpenPositionQty < leg.maxPos && leg.longOpenPositionQty = 0 && leg.canShort &&
      leg.oppCounterSelf ≤ -paras.thresholdSelf && signal
  | enter true => isValidEnterTime paras now && !leg.stoploss &&
      leg.longOpenPositionQty < leg.maxPos && leg.shortOpenPositionQty = 0 && leg.canLong &&
      leg.oppCounterSelf ≥ paras.thresholdSelf && signal
  | exit true => isValidExitTime paras now && leg.longOpenPositionQty ≠ 0 &&
      (leg.stoploss || leg.oppCounterSelf ≤ 0 && signal)
  | exit false => isValidExitTime paras now && leg.shortOpenPositionQty ≠ 0 &&
      (leg.stoploss || leg.oppCounterSelf ≥ 0 && signal)
  | liquidate true => isLiquidateTime paras now && !paras.isOverNight &&
      leg.longOpenPositionQty ≠ 0
  | liquidate false => isLiquidateTime paras now && !paras.isOverNight &&
      leg.shortOpenPositionQty ≠ 0

/-- What the strategy compares: a sale wants a high price, a purchase a low one. -/
def signal (leg : Instrument) (b : Branch) : Bool :=
  if b.isOpen = b.isLong then
    leg.selfBp ≤ 0 && (if paras.isUsingSizeContrast then leg.bidSize ≥ leg.askSize else true)
  else leg.selfBp ≥ 0 && (if paras.isUsingSizeContrast then leg.askSize ≥ leg.bidSize else true)

def Branch.submit (b : Branch) (state : Instrument × FakeOrderManager) :
    Option (Instrument × FakeOrderManager) :=
  if b.isOpen then SingleStrategy.enter byteOrder data now b.isLong (b.price state.1) state
  else leave byteOrder paras data now b.isLong (b.price state.1) state

variable (signals : Instrument → Branch → Bool)

def visit (b : Branch) (state : Instrument × FakeOrderManager) :
    Option (Instrument × FakeOrderManager) :=
  if b.taken paras now state.1 (signals state.1 b) then b.submit byteOrder paras data now state
  else some state

def visitAll : List Branch → Instrument × FakeOrderManager →
    Option (Instrument × FakeOrderManager)
  | [], state => some state
  | b :: bs, state => (visit byteOrder paras data now signals b state).bind (visitAll bs)

/-- The branches that submit an order, each with the instrument as it finds it. -/
def submissions : List Branch → Instrument × FakeOrderManager → List (Branch × Instrument)
  | [], _ => []
  | b :: bs, state =>
      (if b.taken paras now state.1 (signals state.1 b) then [(b, state.1)] else []) ++
        ((visit byteOrder paras data now signals b state).map (submissions bs)).getD []

def KeptByOrders (I : Instrument × FakeOrderManager → Prop) : Prop :=
  ∀ (b : Branch) (state state' : Instrument × FakeOrderManager),
    b.taken paras now state.1 (signals state.1 b) = true →
      b.submit byteOrder paras data now state = some state' → I state → I state'

variable {byteOrder paras data now signals}

theorem visitAll_append (bs cs : List Branch) (state : Instrument × FakeOrderManager) :
    visitAll byteOrder paras data now signals (bs ++ cs) state =
      (visitAll byteOrder paras data now signals bs state).bind
        (visitAll byteOrder paras data now signals cs) := by
  induction bs generalizing state with
  | nil => rfl
  | cons b bs ih =>
      rw [List.cons_append, visitAll, visitAll, Option.bind_assoc]
      exact Option.bind_congr fun mid _ => ih mid

theorem visitAll_pair (b c : Branch) (state : Instrument × FakeOrderManager) :
    visitAll byteOrder paras data now signals [b, c] state =
      (visit byteOrder paras data now signals b state).bind
        (visit byteOrder paras data now signals c) := by
  simp only [visitAll, Option.bind_fun_some]

theorem of_taken_open {b : Branch} (hopen : b.isOpen = true) {leg : Instrument} {signal : Bool}
    (h : b.taken paras now leg signal = true) :
    leg.openPositionQty b.isLong < leg.maxPos ∧ leg.openPositionQty (!b.isLong) = 0 := by
  cases b with
  | enter isLong =>
      cases isLong
      · simp only [Branch.taken, Bool.and_eq_true, decide_eq_true_eq] at h
        exact ⟨h.1.1.1.1.2, h.1.1.1.2⟩
      · simp only [Branch.taken, Bool.and_eq_true, decide_eq_true_eq] at h
        exact ⟨h.1.1.1.1.2, h.1.1.1.2⟩
  | exit isLong => cases hopen
  | liquidate isLong => cases hopen

theorem of_taken_close {b : Branch} (hopen : b.isOpen = false) {leg : Instrument} {signal : Bool}
    (h : b.taken paras now leg signal = true) : leg.openPositionQty b.isLong ≠ 0 := by
  cases b with
  | enter isLong => cases hopen
  | exit isLong =>
      cases isLong
      · simp only [Branch.taken, Bool.and_eq_true, decide_eq_true_eq] at h
        exact h.1.2
      · simp only [Branch.taken, Bool.and_eq_true, decide_eq_true_eq] at h
        exact h.1.2
  | liquidate isLong =>
      cases isLong
      · simp only [Branch.taken, Bool.and_eq_true, decide_eq_true_eq] at h
        exact h.2
      · simp only [Branch.taken, Bool.and_eq_true, decide_eq_true_eq] at h
        exact h.2

theorem visitAll_invariant {I : Instrument × FakeOrderManager → Prop}
    (hsubmit : KeptByOrders byteOrder paras data now signals I)
    {bs : List Branch} {state state' : Instrument × FakeOrderManager}
    (h : visitAll byteOrder paras data now signals bs state = some state') (hstart : I state) :
    I state' := by
  induction bs generalizing state with
  | nil =>
      obtain rfl := Option.some.inj h
      exact hstart
  | cons b bs ih =>
      obtain ⟨mid, hmid, hrest⟩ := Option.bind_eq_some_iff.mp h
      refine ih hrest ?_
      unfold visit at hmid
      split_ifs at hmid with htaken
      · exact hsubmit b state mid htaken hmid hstart
      · obtain rfl := Option.some.inj hmid
        exact hstart

theorem isSome_visitAll {I : Instrument × FakeOrderManager → Prop}
    (hsubmit : KeptByOrders byteOrder paras data now signals I)
    (hsome : ∀ (b : Branch) state, b.taken paras now state.1 (signals state.1 b) = true →
      I state → (b.submit byteOrder paras data now state).isSome)
    {bs : List Branch} {state : Instrument × FakeOrderManager} (hstart : I state) :
    (visitAll byteOrder paras data now signals bs state).isSome := by
  induction bs generalizing state with
  | nil => rfl
  | cons b bs ih =>
      rw [visitAll, visit]
      split_ifs with htaken
      · obtain ⟨mid, hmid⟩ := Option.isSome_iff_exists.mp (hsome b state htaken hstart)
        rw [hmid, Option.bind_some]
        exact ih (hsubmit b state mid htaken hmid hstart)
      · rw [Option.bind_some]
        exact ih hstart

theorem of_mem_submissions {I : Instrument × FakeOrderManager → Prop}
    (hsubmit : KeptByOrders byteOrder paras data now signals I)
    {bs : List Branch} {state : Instrument × FakeOrderManager} {call : Branch × Instrument}
    (h : call ∈ submissions byteOrder paras data now signals bs state) (hstart : I state) :
    call.1.taken paras now call.2 (signals call.2 call.1) = true ∧ ∃ mgr, I (call.2, mgr) := by
  induction bs generalizing state with
  | nil => cases h
  | cons b bs ih =>
      rcases List.mem_append.mp h with hhere | hlater
      · split_ifs at hhere with htaken
        · obtain rfl := List.mem_singleton.mp hhere
          exact ⟨htaken, state.2, hstart⟩
        · cases hhere
      · cases hmid : visit byteOrder paras data now signals b state with
        | none => simp [hmid] at hlater
        | some mid =>
            rw [hmid] at hlater
            refine ih hlater ?_
            have hone : visitAll byteOrder paras data now signals [b] state = some mid := by
              rw [visitAll, hmid]
              rfl
            exact visitAll_invariant hsubmit hone hstart

theorem stoploss_of_enter {isLong : Bool} {price : ℚ}
    {state state' : Instrument × FakeOrderManager}
    (h : enter byteOrder data now isLong price state = some state') :
    state'.1.stoploss = state.1.stoploss := by
  obtain ⟨size, -, rfl⟩ := Option.map_eq_some_iff.mp h
  cases isLong <;> rfl

theorem doEnter_eq (state : Instrument × FakeOrderManager) :
    (if isValidEnterTime paras now then doEnter byteOrder paras data now state else some state) =
      visitAll byteOrder paras data now (signal paras) [.enter false, .enter true] state := by
  by_cases htime : isValidEnterTime paras now = true
  · by_cases hstop : state.1.stoploss = true
    · simp [visitAll, visit, Branch.taken, doEnter, hstop]
    · have hshort : wantsShort paras state.1 =
          Branch.taken paras now state.1 (signal paras state.1 (.enter false)) (.enter false) := by
        simp [wantsShort, Branch.taken, signal, Branch.isOpen, Branch.isLong, htime, hstop]
        grind
      have hlong : ∀ mid : Instrument × FakeOrderManager, mid.1.stoploss = state.1.stoploss →
          wantsLong paras mid.1 =
            Branch.taken paras now mid.1 (signal paras mid.1 (.enter true)) (.enter true) := by
        intro mid hmid
        simp [wantsLong, Branch.taken, signal, Branch.isOpen, Branch.isLong, htime, hmid, hstop]
        grind
      rw [if_pos htime, visitAll_pair, doEnter, if_neg hstop]
      unfold visit
      rw [hshort]
      refine Option.bind_congr fun mid hmid => ?_
      have hkept : mid.1.stoploss = state.1.stoploss := by
        split_ifs at hmid
        · exact stoploss_of_enter hmid
        · obtain rfl := Option.some.inj hmid
          rfl
      rw [hlong mid hkept]
      rfl
  · simp [visitAll, visit, Branch.taken, htime]

theorem doExit_eq (state : Instrument × FakeOrderManager) :
    (if isValidExitTime paras now then doExit byteOrder paras data now state else some state) =
      visitAll byteOrder paras data now (signal paras) [.exit true, .exit false] state := by
  by_cases htime : isValidExitTime paras now = true
  · have hlong : ∀ leg, leavesLong paras leg =
        Branch.taken paras now leg (signal paras leg (.exit true)) (.exit true) := by
      intro leg
      simp [leavesLong, Branch.taken, signal, Branch.isOpen, Branch.isLong, htime]
      grind
    have hshort : ∀ leg, leavesShort paras leg =
        Branch.taken paras now leg (signal paras leg (.exit false)) (.exit false) := by
      intro leg
      simp [leavesShort, Branch.taken, signal, Branch.isOpen, Branch.isLong, htime]
      grind
    rw [if_pos htime, visitAll_pair, doExit]
    simp only [hlong, hshort]
    rfl
  · simp [visitAll, visit, Branch.taken, htime]

theorem liquidate_eq (state : Instrument × FakeOrderManager) :
    (if isLiquidateTime paras now ∧ ¬ paras.isOverNight then
        liquidate byteOrder paras data now state else some state) =
      visitAll byteOrder paras data now (signal paras) [.liquidate true, .liquidate false]
        state := by
  by_cases htime : isLiquidateTime paras now = true ∧ ¬ paras.isOverNight = true
  · have htaken : ∀ leg isLong, Branch.taken paras now leg (signal paras leg (.liquidate isLong))
        (.liquidate isLong) = true ↔ leg.openPositionQty isLong ≠ 0 := by
      intro leg isLong
      cases isLong <;> simp [Branch.taken, htime, Instrument.openPositionQty]
    rw [if_pos htime, visitAll_pair, liquidate]
    unfold visit
    simp only [htaken]
    rfl
  · rw [if_neg htime, visitAll_pair]
    have hskip : ∀ isLong (mid : Instrument × FakeOrderManager),
        visit byteOrder paras data now (signal paras) (.liquidate isLong) mid = some mid := by
      intro isLong mid
      cases isLong <;> simp [visit, Branch.taken] <;> grind
    rw [hskip, Option.bind_some, hskip]

theorem trade_eq (state : Instrument × FakeOrderManager) :
    trade byteOrder paras data now state =
      visitAll byteOrder paras data now (signal paras) branches state := by
  have hsplit : branches = [.enter false, .enter true] ++
      ([.exit true, .exit false] ++ [.liquidate true, .liquidate false]) := rfl
  rw [hsplit, visitAll_append, ← doEnter_eq, trade]
  refine Option.bind_congr fun entered _ => ?_
  rw [visitAll_append, ← doExit_eq]
  refine Option.bind_congr fun left _ => ?_
  rw [← liquidate_eq]

end Visit

/-! ### Ticks with any outcome of the comparisons -/

/-- The conditions on prices and averages, as functions of the instrument that they are
tested on, by which they may also be constants. -/
structure Signals where
  passes : Instrument → Bool
  jumps : Instrument → Bool
  below : Instrument → Bool
  above : Instrument → Bool
  trades : Instrument → Branch → Bool

section Signals

variable (byteOrder : ByteOrder) (libm : MathLibrary) (paras : StrategyParameters)
  (data : CTickData) (now : ℕ)

def isBelow (leg : Instrument) : Bool :=
  leg.selfBp < min (leg.shapeFactor * leg.logVolDivideMA -
      leg.enterSig * max 1 (libm.pow leg.volatilityMA leg.volMultiplier)) (-leg.enterProtection) ∧
    leg.logVolDivideMA > leg.volumeProtection ∧
    (paras.isCheckingSizeBeforeTrade → leg.bidSize ≠ leg.preBidOppSize) ∧
    leg.isReadyToOpp now (toUInt32 paras.tradingIntervalInMSec)

def isAbove (leg : Instrument) : Bool :=
  leg.selfBp > min (leg.shapeFactor * leg.logVolDivideMA +
      leg.enterSig * max 1 (libm.pow leg.volatilityMA leg.volMultiplier)) leg.enterProtection ∧
    leg.logVolDivideMA > leg.volumeProtection ∧
    (paras.isCheckingSizeBeforeTrade → leg.askSize ≠ leg.preAskOppSize) ∧
    leg.isReadyToOpp now (toUInt32 paras.tradingIntervalInMSec)

def mayCountDown (leg : Instrument) : Bool :=
  let long : ℚ := leg.longOpenPositionQty
  let short : ℚ := leg.shortOpenPositionQty
  (long < 1 / 2 ∧ short < 1 / 2 ∧ leg.oppCounterSelf > -paras.thresholdSelf) ∨
    (long > 1 / 2 ∧ leg.oppCounterSelf > 0) ∨
    (short > 1 / 2 ∧ leg.oppCounterSelf > -paras.thresholdSelf)

def mayCountUp (leg : Instrument) : Bool :=
  let long : ℚ := leg.longOpenPositionQty
  let short : ℚ := leg.shortOpenPositionQty
  (short < 1 / 2 ∧ long < 1 / 2 ∧ leg.oppCounterSelf < paras.thresholdSelf) ∨
    (short > 1 / 2 ∧ leg.oppCounterSelf < 0) ∨
    (long > 1 / 2 ∧ leg.oppCounterSelf < paras.thresholdSelf)

def countOpp (below above : Bool) (leg : Instrument) : Instrument :=
  if below then
    if mayCountDown paras leg then
      { leg with
        oppCounterSelf := leg.oppCounterSelf - 1
        preBidOppSize := leg.bidSize
        preOppTimeInMS := now }
    else leg
  else if above then
    if mayCountUp paras leg then
      { leg with
        oppCounterSelf := leg.oppCounterSelf + 1
        preAskOppSize := leg.askSize
        preOppTimeInMS := now }
    else leg
  else leg

theorem updateOpp_eq (leg : Instrument) :
    updateOpp libm paras now leg =
      countOpp paras now (isBelow libm paras now leg) (isAbove libm paras now leg) leg := by
  simp only [updateOpp, countOpp, isBelow, isAbove, mayCountDown, mayCountUp, decide_eq_true_eq]

def exactSignals : Signals where
  passes leg := (screen libm paras data leg).2
  jumps leg := equityJumps libm paras data (leg.preTick.getD data)
  below := isBelow libm paras now
  above := isAbove libm paras now
  trades := signal paras

variable (signals : Signals)

def observeBy (leg : Instrument) : Instrument × Bool :=
  let screened := (screen libm paras data leg).1
  if signals.passes leg then
    let reset := if signals.jumps leg then resetPosition screened else screened
    let quoted := quote data reset
    (if isValidOppTime paras now then
        countOpp paras now (signals.below quoted) (signals.above quoted) quoted
      else quoted, true)
  else (screened, false)

def onTickBy (state : Instrument × FakeOrderManager) : Option (Instrument × FakeOrderManager) :=
  match observeBy libm paras data now signals state.1 with
  | (leg, false) => some (leg, state.2)
  | (leg, true) =>
      visitAll byteOrder paras data now signals.trades branches (leg, state.2)

theorem observe_eq (leg : Instrument) :
    observe libm paras data now leg =
      observeBy libm paras data now (exactSignals libm paras data now) leg := by
  simp only [observe, observeBy, exactSignals, updateOpp_eq]
  split
  · next screened heq => simp [heq]
  · next screened heq => simp [heq]

theorem onTick_eq (state : Instrument × FakeOrderManager) :
    onTick byteOrder libm paras data now state =
      onTickBy byteOrder libm paras data now (exactSignals libm paras data now) state := by
  simp only [onTick, onTickBy, observe_eq, trade_eq]
  rfl

end Signals

/-! ### The strategy -/

abbrev SignalledAction := Action × Signals

section Step

variable (byteOrder : ByteOrder) (libm : MathLibrary) (self : ℕ)

def onMarketDataBy (s : State) (data : CTickData) (now : ℕ) (signals : Signals) :
    Option State :=
  (s.getInstrumentLeg data.instIndex).bind fun i =>
    (s.pInstruments[i]?).bind fun leg =>
      (onTickBy byteOrder libm s.globalParas data now signals (leg, s.orderManager)).map
        fun (leg, orderManager) =>
          { s with pInstruments := s.pInstruments.set i leg, orderManager := orderManager }

def stepBy (s : State) : SignalledAction → Option State
  | (.marketData data now, signals) => onMarketDataBy byteOrder libm s data now signals
  | (a, _) => step byteOrder libm self s a

def tickLeg (s : State) (inst : ℕ) : Option Instrument :=
  (s.getInstrumentLeg inst).bind (s.pInstruments[·]?)

def tickSubmissions (s : State) (data : CTickData) (now : ℕ) (signals : Signals) :
    List (Branch × Instrument) :=
  match (tickLeg s data.instIndex).map (observeBy libm s.globalParas data now signals) with
  | some (leg, true) =>
      submissions byteOrder s.globalParas data now signals.trades branches (leg, s.orderManager)
  | _ => []

def withExactSignals (s : State) : Action → SignalledAction
  | .marketData data now => (.marketData data now, exactSignals libm s.globalParas data now)
  | a => (a, ⟨fun _ => false, fun _ => false, fun _ => false, fun _ => false, fun _ _ => false⟩)

theorem step_eq (s : State) (a : Action) :
    step byteOrder libm self s a = stepBy byteOrder libm self s (withExactSignals libm s a) := by
  cases a with
  | marketData data now =>
      simp only [step, State.onMarketData, onTick_eq]
      rfl
  | _ => rfl

variable {byteOrder libm self}

theorem run_stepBy {C : State → Action → Prop} {s s' : State} {actions : List Action}
    (hrun : Run (step byteOrder libm self) C s actions s') :
    ∃ events, Run (stepBy byteOrder libm self) (fun _ _ => True) s events s' := by
  induction hrun with
  | nil s => exact ⟨[], .nil s⟩
  | cons _ htake _ ih =>
      obtain ⟨events, hevents⟩ := ih
      exact ⟨_, .cons trivial (step_eq byteOrder libm self _ _ ▸ htake) hevents⟩

/-- Only the counter of the moving averages and the sum of the positions change. -/
theorem globalParas_stepBy {s s' : State} {a : SignalledAction}
    (htake : stepBy byteOrder libm self s a = some s') :
    ∃ totalPos counter,
      s'.globalParas = { s.globalParas with totalPos := totalPos, counter := counter } := by
  obtain ⟨a, signals⟩ := a
  cases a with
  | marketData data now =>
      obtain ⟨i, -, hrest⟩ := Option.bind_eq_some_iff.mp htake
      obtain ⟨leg, -, hlast⟩ := Option.bind_eq_some_iff.mp hrest
      obtain ⟨_, -, rfl⟩ := Option.map_eq_some_iff.mp hlast
      exact ⟨_, _, rfl⟩
  | timer eventID =>
      obtain rfl := Option.some.inj htake
      unfold State.onTimer
      split_ifs
      · exact ⟨_, _, rfl⟩
      · exact ⟨_, _, rfl⟩
  | otherRequest request =>
      obtain ⟨-, rfl⟩ := @step_otherRequest _ libm self _ _ _ htake
      exact ⟨_, _, rfl⟩
  | _ =>
      obtain rfl := Option.some.inj htake
      exact ⟨_, _, rfl⟩

/-- A property of single instruments that all parts of the callbacks keep. -/
structure LegInvariant (byteOrder : ByteOrder) (libm : MathLibrary) (paras : StrategyParameters)
    (P : Instrument → Prop) : Prop where
  init : ∀ leg, P leg → P (leg.initInstrument paras)
  prices : ∀ leg, P leg → P (updatePrices libm paras leg)
  count : ∀ leg, P leg → P (countUpdate leg)
  volatility : ∀ leg, P leg → P (updateVolatility paras leg)
  screen : ∀ data leg, P leg → P (screen libm paras data leg).1
  reset : ∀ leg, P leg → P (resetPosition leg)
  quote : ∀ data leg, P leg → P (quote data leg)
  opp : ∀ now below above leg, P leg → P (countOpp paras now below above leg)
  orders : ∀ data now signals, KeptByOrders byteOrder paras data now signals fun state => P state.1

namespace LegInvariant

variable {paras : StrategyParameters} {P : Instrument → Prop} {data : CTickData} {now : ℕ}
  {signals : Signals}

theorem observeBy (hP : LegInvariant byteOrder libm paras P) {leg : Instrument} (h : P leg) :
    P (observeBy libm paras data now signals leg).1 := by
  have hscreened := hP.screen data leg h
  unfold StrategyOrders.observeBy
  dsimp only
  split_ifs
  · exact hP.opp _ _ _ _ (hP.quote _ _ (hP.reset _ hscreened))
  · exact hP.opp _ _ _ _ (hP.quote _ _ hscreened)
  · exact hP.quote _ _ (hP.reset _ hscreened)
  · exact hP.quote _ _ hscreened
  · exact hscreened

theorem onTickBy (hP : LegInvariant byteOrder libm paras P)
    {state state' : Instrument × FakeOrderManager}
    (htake : onTickBy byteOrder libm paras data now signals state = some state')
    (h : P state.1) : P state'.1 := by
  have hobserved : P (StrategyOrders.observeBy libm paras data now signals state.1).1 :=
    hP.observeBy h
  unfold StrategyOrders.onTickBy at htake
  split at htake
  · next leg heq =>
      rw [heq] at hobserved
      obtain rfl := Option.some.inj htake
      exact hobserved
  · next leg heq =>
      rw [heq] at hobserved
      exact visitAll_invariant (hP.orders data now signals.trades) htake hobserved

theorem updateMA {s : State} (hP : LegInvariant byteOrder libm s.globalParas P)
    (h : ∀ leg ∈ s.pInstruments, P leg) : ∀ leg ∈ (s.updateMA libm).pInstruments, P leg := by
  rw [State.pInstruments_updateMA]
  refine List.forall_mem_map.mpr fun leg hleg => hP.volatility _ ?_
  have hprices := hP.prices leg (h leg hleg)
  split_ifs
  · exact hP.count _ hprices
  · exact hprices

theorem stepBy {s s' : State} {a : SignalledAction}
    (hP : LegInvariant byteOrder libm s.globalParas P)
    (htake : stepBy byteOrder libm self s a = some s') (h : ∀ leg ∈ s.pInstruments, P leg) :
    ∀ leg ∈ s'.pInstruments, P leg := by
  obtain ⟨a, signals⟩ := a
  cases a with
  | startDay =>
      obtain rfl := Option.some.inj htake
      exact List.forall_mem_map.mpr fun leg hleg => hP.init leg (h leg hleg)
  | marketData data now =>
      obtain ⟨i, -, hrest⟩ := Option.bind_eq_some_iff.mp htake
      obtain ⟨leg, hleg, hlast⟩ := Option.bind_eq_some_iff.mp hrest
      obtain ⟨state, hstate, rfl⟩ := Option.map_eq_some_iff.mp hlast
      intro other hother
      rcases List.mem_or_eq_of_mem_set hother with hold | rfl
      · exact h other hold
      · exact hP.onTickBy hstate (h leg (List.mem_of_getElem? hleg))
  | timer eventID =>
      obtain rfl := Option.some.inj htake
      unfold State.onTimer
      split_ifs
      · exact hP.updateMA h
      · exact h
  | otherRequest request =>
      obtain ⟨-, rfl⟩ := @step_otherRequest _ libm self _ _ _ htake
      exact h
  | _ =>
      obtain rfl := Option.some.inj htake
      exact h

/-- Such a property holds in every state of a run, whatever the timer has made of the counter and
the sum there. -/
theorem run (hP : ∀ totalPos counter,
      LegInvariant byteOrder libm { paras with totalPos := totalPos, counter := counter } P)
    {C : State → SignalledAction → Prop} {s s' : State} {events : List SignalledAction}
    (hparas : s.globalParas = paras) (h : ∀ leg ∈ s.pInstruments, P leg)
    (hrun : Run (StrategyOrders.stepBy byteOrder libm self) C s events s') :
    (∃ totalPos counter,
        s'.globalParas = { paras with totalPos := totalPos, counter := counter }) ∧
      ∀ leg ∈ s'.pInstruments, P leg := by
  refine hrun.invariant (fun t a u _ htake hinv => ?_)
    (I := fun s => (∃ totalPos counter,
        s.globalParas = { paras with totalPos := totalPos, counter := counter }) ∧
      ∀ leg ∈ s.pInstruments, P leg) ⟨⟨paras.totalPos, paras.counter, hparas⟩, h⟩
  obtain ⟨⟨totalPos, counter, hold⟩, hlegs⟩ := hinv
  obtain ⟨totalPos', counter', hnew⟩ := globalParas_stepBy htake
  refine ⟨⟨totalPos', counter', by rw [hnew, hold]⟩, ?_⟩
  have hthere := hP totalPos counter
  rw [← hold] at hthere
  exact hthere.stepBy htake hlegs

end LegInvariant

end Step

end BluesTrading.StrategyOrders
