import BluesTrading.Foundations.SpacedEvents
import BluesTrading.StrategyExposure

namespace BluesTrading.StrategyTiming

open BluesTrading.Foundations
open BluesTrading.OrderData
open BluesTrading.OrderManager
open BluesTrading.SingleStrategy
open BluesTrading.SourceText
open BluesTrading.StrategyExposure
open BluesTrading.StrategyLedger
open BluesTrading.StrategyOrders

/-- The times are unsigned numbers of 64 bits, as those of `isReadyToOpp`. -/
def isReadyToTrade (leg : Instrument) (curTimeInMs minTimeInMS : ℕ) : Bool :=
  curTimeInMs ≥ (leg.preTradeTimeInMS + minTimeInMS) % 2 ^ 64 ||
    curTimeInMs ≤ (leg.preTradeTimeInMS + minTimeInMS + (2 ^ 64 - 100000)) % 2 ^ 64

/-- What lets a time through before the interval is over: the subtraction of 100,000 ms
wraps, or the time is that much too early. -/
def Escapes (pre interval now : ℕ) : Prop :=
  pre + interval < 100000 ∨ now + 100000 ≤ pre + interval

instance (pre interval now : ℕ) : Decidable (Escapes pre interval now) :=
  inferInstanceAs (Decidable (_ ∨ _))

theorem ready_iff {pre interval now : ℕ} (hpre : pre < 2 ^ 32) (hinterval : interval < 2 ^ 32)
    (hnow : now < 2 ^ 32) :
    (now ≥ (pre + interval) % 2 ^ 64 ∨
        now ≤ (pre + interval + (2 ^ 64 - 100000)) % 2 ^ 64) ↔
      pre + interval ≤ now ∨ Escapes pre interval now := by
  unfold Escapes
  omega

theorem isReadyToOpp_iff {leg : Instrument} {interval now : ℕ}
    (hpre : leg.preOppTimeInMS < 2 ^ 32) (hinterval : interval < 2 ^ 32) (hnow : now < 2 ^ 32) :
    leg.isReadyToOpp now interval = true ↔
      leg.preOppTimeInMS + interval ≤ now ∨ Escapes leg.preOppTimeInMS interval now := by
  rw [← ready_iff hpre hinterval hnow]
  simp [Instrument.isReadyToOpp]

theorem toUInt32_lt (n : ℤ) : toUInt32 n < 2 ^ 32 := by
  rw [toUInt32]
  omega

/-! ### The instrument of a tick -/

section TickLeg

theorem tickLeg_eq_find? (s : State) (inst : ℕ) :
    tickLeg s inst = s.pInstruments.find? fun leg => leg.instIndex = inst := by
  rw [List.find?_eq_bind_findIdx?_getElem?]
  rfl

variable {s : State} {inst : ℕ} {leg : Instrument}

theorem find?_set_leg {legs : List Instrument} {i : ℕ} {leg leg' : Instrument}
    (hi : legs.findIdx? (fun leg => leg.instIndex = inst) = some i) (hleg : legs[i]? = some leg)
    (hindex : leg'.instIndex = leg.instIndex) (j : ℕ) :
    (legs.set i leg').find? (fun leg => leg.instIndex = j) =
      if j = inst then some leg' else legs.find? fun leg => leg.instIndex = j := by
  have hfind : (legs.set i leg').findIdx? (fun leg => leg.instIndex = j) =
      legs.findIdx? fun leg => leg.instIndex = j := by
    have hboth := congrArg (List.findIdx? fun index => decide (index = j))
      (map_instIndex_set hleg hindex)
    rwa [List.findIdx?_map, List.findIdx?_map] at hboth
  obtain ⟨hlt, hfound, -⟩ := List.findIdx?_eq_some_iff_getElem.mp hi
  rw [List.find?_eq_bind_findIdx?_getElem?, List.find?_eq_bind_findIdx?_getElem?, hfind]
  split_ifs with hj
  · rw [hj, hi, Option.bind_some, List.getElem?_set_self hlt]
  · refine Option.bind_congr fun k hk => ?_
    obtain ⟨hklt, hkfound, -⟩ := List.findIdx?_eq_some_iff_getElem.mp hk
    have hne : i ≠ k := by
      rintro rfl
      exact hj ((of_decide_eq_true hkfound).symm.trans (of_decide_eq_true hfound))
    exact List.getElem?_set_ne hne

theorem find?_map_leg {f : Instrument → Instrument} (hf : ∀ leg, (f leg).instIndex = leg.instIndex)
    (legs : List Instrument) (j : ℕ) :
    (legs.map f).find? (fun leg => leg.instIndex = j) =
      (legs.find? fun leg => leg.instIndex = j).map f := by
  rw [List.find?_map]
  simp [hf]

theorem standing_instIndex {leg leg' : Instrument} (h : standing leg' = standing leg) :
    leg'.instIndex = leg.instIndex :=
  congrArg (fun standing => standing.account.instIndex) h

theorem instIndex_invariant (byteOrder : ByteOrder) (libm : MathLibrary)
    (paras : StrategyParameters) (inst : ℕ) :
    LegInvariant byteOrder libm paras fun leg => leg.instIndex = inst where
  init leg h := by
    rw [← h]
    unfold Instrument.initInstrument
    dsimp only
    split_ifs <;> rfl
  prices leg h := (standing_instIndex (standing_updatePrices libm paras leg)).trans h
  count leg h := (standing_instIndex (standing_countUpdate leg)).trans h
  volatility leg h := (standing_instIndex (standing_updateVolatility paras leg)).trans h
  screen data leg h := (standing_instIndex (standing_screen libm paras data leg)).trans h
  reset _ h := h
  quote data leg h := (standing_instIndex (standing_quote data leg)).trans h
  opp now below above leg h := by
    rw [← h]
    unfold countOpp
    split_ifs <;> rfl
  orders data now signals b state state' _ htake h := by
    unfold Branch.submit at htake
    split_ifs at htake
    · obtain ⟨size, -, rfl⟩ := Option.map_eq_some_iff.mp htake
      rw [← h]
      cases b.isLong <;> rfl
    · obtain ⟨size, -, rfl⟩ := Option.map_eq_some_iff.mp htake
      have hpnl := account_calculatePnl paras b.isLong (wrapInt (toUInt32 size)) (b.price state.1)
        state.1
      exact ((sameTerms_of_account hpnl).removePosition b.isLong (toUInt32 size) now).1.trans h

variable {byteOrder : ByteOrder} {libm : MathLibrary} {self : ℕ}

/-- What a callback within a day does to an instrument: it is that of a tick, or it keeps
its standing. -/
theorem tickLeg_step {s' : State} {a : Action} {leg' : Instrument} (hday : a ≠ .startDay)
    (htake : step byteOrder libm self s a = some s') (hfound : tickLeg s' inst = some leg') :
    ∃ leg, tickLeg s inst = some leg ∧
      ((∃ data now mgr, a = .marketData data now ∧ data.instIndex = inst ∧
          onTick byteOrder libm s.globalParas data now (leg, s.orderManager) =
            some (leg', mgr)) ∨
        (∀ data now, a = .marketData data now → data.instIndex ≠ inst) ∧
          standing leg' = standing leg) := by
  cases a with
  | startDay => exact absurd rfl hday
  | marketData data now =>
      obtain ⟨i, hi, hrest⟩ := Option.bind_eq_some_iff.mp htake
      obtain ⟨leg, hleg, hlast⟩ := Option.bind_eq_some_iff.mp hrest
      obtain ⟨⟨new, mgr⟩, htick, rfl⟩ := Option.map_eq_some_iff.mp hlast
      have hnew : new.instIndex = leg.instIndex := by
        rw [onTick_eq] at htick
        exact (instIndex_invariant byteOrder libm s.globalParas leg.instIndex).onTickBy htick rfl
      rw [tickLeg_eq_find?, find?_set_leg hi hleg hnew] at hfound
      split_ifs at hfound with hinst
      · obtain rfl := Option.some.inj hfound
        refine ⟨leg, ?_, .inl ⟨data, now, mgr, rfl, hinst.symm, htick⟩⟩
        rw [hinst]
        exact Option.bind_eq_some_iff.mpr ⟨i, hi, hleg⟩
      · rw [← tickLeg_eq_find?] at hfound
        refine ⟨leg', hfound, .inr ⟨fun data' now' heq => ?_, rfl⟩⟩
        obtain ⟨rfl, -⟩ := Action.marketData.inj heq
        exact fun hsame => hinst hsame.symm
  | timer eventID =>
      obtain rfl := Option.some.inj htake
      have hkept : ∃ f : Instrument → Instrument, (∀ leg, standing (f leg) = standing leg) ∧
          (s.onTimer libm eventID).pInstruments = s.pInstruments.map f := by
        unfold State.onTimer
        split_ifs
        · refine ⟨_, fun leg => ?_, s.pInstruments_updateMA libm⟩
          split_ifs <;> simp
        · exact ⟨id, fun _ => rfl, (List.map_id _).symm⟩
      obtain ⟨f, hf, hlegs⟩ := hkept
      rw [tickLeg_eq_find?, hlegs, find?_map_leg fun leg => standing_instIndex (hf leg),
        ← tickLeg_eq_find?] at hfound
      obtain ⟨leg, hleg, rfl⟩ := Option.map_eq_some_iff.mp hfound
      exact ⟨leg, hleg, .inr ⟨fun _ _ heq => (by cases heq), hf leg⟩⟩
  | otherRequest request =>
      obtain ⟨-, rfl⟩ := step_otherRequest htake
      exact ⟨leg', hfound, .inr ⟨fun _ _ heq => (by cases heq), rfl⟩⟩
  | _ =>
      obtain rfl := Option.some.inj htake
      exact ⟨leg', hfound, .inr ⟨fun _ _ heq => (by cases heq), rfl⟩⟩

end TickLeg

/-! ### A day -/

/-- The strategy within a day with its clock, and the log of one kind of events, each of an
instrument. -/
structure Day where
  state : State
  clock : ℕ
  log : List (ℕ × ℕ)

def morning (self : ℕ) (s : State) (clock : ℕ) : Day := ⟨s.onStartDay self, clock, []⟩

/-- The clock is an unsigned number of 32 bits and does not decrease. -/
def WithinDay (d : Day) : Action → Prop
  | .startDay => False
  | .marketData _ now => d.clock ≤ now ∧ now < 2 ^ 32
  | _ => True

instance (d : Day) : (a : Action) → Decidable (WithinDay d a)
  | .startDay => .isFalse id
  | .marketData _ _ => inferInstanceAs (Decidable (_ ∧ _))
  | .startDayOrders _ | .startDayBook _ | .marketDataBook _ | .timer _ | .endDay
    | .otherRequest _ => .isTrue trivial

section Day

variable (byteOrder : ByteOrder) (libm : MathLibrary) (self : ℕ)
  (count : State → CTickData → ℕ → ℕ)

def dayStep (d : Day) (a : Action) : Option Day :=
  (step byteOrder libm self d.state a).map fun s =>
    match a with
    | .marketData data now =>
        ⟨s, now, d.log ++ List.replicate (count d.state data now) (data.instIndex, now)⟩
    | _ => ⟨s, d.clock, d.log⟩

/-- Each instrument remembers the time of its last event, which is not before the start of
the day. -/
structure Remembers (pre : Instrument → ℕ) (interval start : ℕ) (d : Day) : Prop where
  interval_eq : toUInt32 d.state.globalParas.tradingIntervalInMSec = interval
  start_le : start ≤ d.clock
  stamped : ∀ inst leg, tickLeg d.state inst = some leg → Stamped inst d.log (pre leg)
  pre_le : ∀ inst leg, tickLeg d.state inst = some leg → pre leg ≤ d.clock
  start_le_log : ∀ event ∈ d.log, start ≤ event.2

/-- The events of a tick are counted in what its instrument remembers. -/
structure CountsBy (pre : Instrument → ℕ) : Prop where
  standing : ∀ leg leg', standing leg' = standing leg → pre leg' = pre leg
  tick : ∀ s data now leg leg' mgr, tickLeg s data.instIndex = some leg →
    onTick byteOrder libm s.globalParas data now (leg, s.orderManager) = some (leg', mgr) →
      pre leg' = if count s data now = 0 then pre leg else now
  init : ∀ paras (leg : Instrument), pre (leg.initInstrument paras) = 0

variable {byteOrder libm self count} {pre : Instrument → ℕ} {interval start : ℕ} {d d' : Day}

theorem remembers_morning (hcounts : CountsBy byteOrder libm count pre) (s : State)
    (clock : ℕ) : Remembers pre (toUInt32 s.globalParas.tradingIntervalInMSec) clock
      (morning self s clock) := by
  have hzero : ∀ inst leg, tickLeg (morning self s clock).state inst = some leg →
      pre leg = 0 := by
    intro inst leg hleg
    rw [tickLeg_eq_find?] at hleg
    obtain ⟨old, -, rfl⟩ := List.mem_map.mp (List.mem_of_find?_eq_some hleg)
    exact hcounts.init _ old
  refine ⟨rfl, le_rfl, fun inst leg hleg => ?_, fun inst leg hleg => ?_, List.forall_mem_nil _⟩
  · rw [hzero inst leg hleg]
    exact .nil inst
  · rw [hzero inst leg hleg]
    exact Nat.zero_le clock

theorem globalParas_step {s s' : State} {a : Action}
    (htake : step byteOrder libm self s a = some s') :
    s'.globalParas.tradingIntervalInMSec = s.globalParas.tradingIntervalInMSec := by
  rw [step_eq] at htake
  obtain ⟨totalPos, counter, hparas⟩ := globalParas_stepBy htake
  rw [hparas]

theorem remembered_of_step (hcounts : CountsBy byteOrder libm count pre) {s s' : State}
    {a : Action} (hday : a ≠ .startDay) (htake : step byteOrder libm self s a = some s')
    {inst : ℕ} {leg' : Instrument} (hfound : tickLeg s' inst = some leg') :
    ∃ leg, tickLeg s inst = some leg ∧
      ((∃ data now, a = .marketData data now ∧ data.instIndex = inst ∧
          pre leg' = if count s data now = 0 then pre leg else now) ∨
        (∀ data now, a = .marketData data now → data.instIndex ≠ inst) ∧ pre leg' = pre leg) := by
  obtain ⟨leg, hleg, ⟨data, now, mgr, rfl, rfl, htick⟩ | ⟨hne, hstanding⟩⟩ :=
    tickLeg_step hday htake hfound
  · exact ⟨leg, hleg, .inl ⟨data, now, rfl, rfl, hcounts.tick _ _ _ _ _ _ hleg htick⟩⟩
  · exact ⟨leg, hleg, .inr ⟨hne, hcounts.standing leg leg' hstanding⟩⟩

theorem Remembers.step (hcounts : CountsBy byteOrder libm count pre)
    (h : Remembers pre interval start d) {a : Action} (hwithin : WithinDay d a)
    (htake : dayStep byteOrder libm self count d a = some d') :
    Remembers pre interval start d' := by
  obtain ⟨s', hstep, rfl⟩ := Option.map_eq_some_iff.mp htake
  have hday : a ≠ .startDay := by
    rintro rfl
    exact hwithin
  have hinterval : toUInt32 s'.globalParas.tradingIntervalInMSec = interval := by
    rw [globalParas_step hstep, h.interval_eq]
  -- a callback that is not a tick changes nothing that is remembered
  have hother : (∀ data now, a ≠ .marketData data now) →
      Remembers pre interval start ⟨s', d.clock, d.log⟩ := by
    intro hnot
    refine ⟨hinterval, h.start_le, fun inst leg' hfound => ?_, fun inst leg' hfound => ?_,
      h.start_le_log⟩ <;>
      obtain ⟨leg, hleg, ⟨data, now, heq, -⟩ | ⟨-, heq⟩⟩ :=
        remembered_of_step hcounts hday hstep hfound
    · exact absurd heq (hnot data now)
    · exact heq ▸ h.stamped inst leg hleg
    · exact absurd heq (hnot data now)
    · exact heq ▸ h.pre_le inst leg hleg
  cases a with
  | marketData data now =>
      obtain ⟨hclock, -⟩ := hwithin
      refine ⟨hinterval, h.start_le.trans hclock, fun inst leg' hfound => ?_,
        fun inst leg' hfound => ?_, fun event hevent => ?_⟩
      · obtain ⟨leg, hleg, ⟨_, _, htick, rfl, heq⟩ | ⟨hne, heq⟩⟩ :=
          remembered_of_step hcounts hday hstep hfound
        · obtain ⟨rfl, rfl⟩ := Action.marketData.inj htick
          rw [heq]
          exact (h.stamped _ leg hleg).append_replicate ((h.pre_le _ leg hleg).trans hclock) _
        · rw [heq]
          exact (h.stamped _ leg hleg).append_replicate_of_ne (hne data now rfl) now _
      · obtain ⟨leg, hleg, ⟨_, _, htick, rfl, heq⟩ | ⟨-, heq⟩⟩ :=
          remembered_of_step hcounts hday hstep hfound
        · obtain ⟨rfl, rfl⟩ := Action.marketData.inj htick
          rw [heq]
          split_ifs
          · exact (h.pre_le _ leg hleg).trans hclock
          · exact le_rfl
        · exact heq ▸ (h.pre_le _ leg hleg).trans hclock
      · rcases List.mem_append.mp hevent with hold | hthis
        · exact h.start_le_log event hold
        · rw [List.eq_of_mem_replicate hthis]
          exact h.start_le.trans hclock
  | _ => exact hother fun _ _ => by rintro ⟨⟩

/-- The events of a tick are far enough from those before them. -/
def Late (pre : Instrument → ℕ) (interval : ℕ) (d : Day) (data : CTickData) (now count : ℕ)
    (leg : Instrument) : Prop :=
  (0 < count → stamps data.instIndex d.log ≠ [] → pre leg + interval ≤ now) ∧
    (1 < count → interval = 0)

/-- The log of a run is spaced if and only if every tick is late where its instrument has a
condition that says so. -/
theorem spaced_iff (hcounts : CountsBy byteOrder libm count pre) {InTime : Day → Action → Prop}
    (hother : ∀ d a, (∀ data now, a ≠ .marketData data now) → InTime d a)
    (htick : ∀ d data now leg, Remembers pre interval start d →
      WithinDay d (.marketData data now) → tickLeg d.state data.instIndex = some leg →
        (onTick byteOrder libm d.state.globalParas data now (leg, d.state.orderManager)).isSome →
          (InTime d (.marketData data now) ↔
            Late pre interval d data now (count d.state data now) leg))
    {actions : List Action} (h : Remembers pre interval start d)
    (hrun : Run (dayStep byteOrder libm self count) WithinDay d actions d') :
    Spaced interval d'.log ↔ Spaced interval d.log ∧
      Run (dayStep byteOrder libm self count) (fun d a => WithinDay d a ∧ InTime d a) d actions
        d' := by
  refine hrun.good_iff (G := fun d => Spaced interval d.log)
    (fun d a d' h hwithin htake => ⟨Remembers.step hcounts h hwithin htake, ?_⟩) h
  obtain ⟨s', hstep, rfl⟩ := Option.map_eq_some_iff.mp htake
  cases a with
  | marketData data now =>
      obtain ⟨i, hi, hrest⟩ := Option.bind_eq_some_iff.mp hstep
      obtain ⟨leg, hget, hlast⟩ := Option.bind_eq_some_iff.mp hrest
      have hleg : tickLeg d.state data.instIndex = some leg :=
        Option.bind_eq_some_iff.mpr ⟨i, hi, hget⟩
      have hends : (onTick byteOrder libm d.state.globalParas data now
          (leg, d.state.orderManager)).isSome := by
        obtain ⟨_, hends, -⟩ := Option.map_eq_some_iff.mp hlast
        rw [hends]
        rfl
      rw [htick d data now leg h hwithin hleg hends]
      exact (h.stamped _ leg hleg).spaced_append_replicate_iff
        ((h.pre_le _ leg hleg).trans hwithin.1) _
  | _ => exact (and_iff_left (hother d _ fun _ _ => by rintro ⟨⟩)).symm

end Day

/-! ### Opportunities -/

section Opportunities

variable (libm : MathLibrary) (paras : StrategyParameters) (data : CTickData) (now : ℕ)

def quoted (leg : Instrument) : Instrument :=
  let screened := (screen libm paras data leg).1
  quote data
    (if equityJumps libm paras data (leg.preTick.getD data) then resetPosition screened
      else screened)

/-- The conditions of `updateOpp` without the interval, on one side of the average. -/
def belowBand (leg : Instrument) : Bool :=
  leg.selfBp < min (leg.shapeFactor * leg.logVolDivideMA -
      leg.enterSig * max 1 (libm.pow leg.volatilityMA leg.volMultiplier)) (-leg.enterProtection) ∧
    leg.logVolDivideMA > leg.volumeProtection ∧
    (paras.isCheckingSizeBeforeTrade → leg.bidSize ≠ leg.preBidOppSize)

def aboveBand (leg : Instrument) : Bool :=
  leg.selfBp > min (leg.shapeFactor * leg.logVolDivideMA +
      leg.enterSig * max 1 (libm.pow leg.volatilityMA leg.volMultiplier)) leg.enterProtection ∧
    leg.logVolDivideMA > leg.volumeProtection ∧
    (paras.isCheckingSizeBeforeTrade → leg.askSize ≠ leg.preAskOppSize)

/-- A branch of `updateOpp` that changes the counter would be taken, were it not for the
interval. -/
def opportunity (leg : Instrument) : Bool :=
  if belowBand libm paras leg then mayCountDown paras leg
  else aboveBand libm paras leg && mayCountUp paras leg

def findsOpp (leg : Instrument) : Bool :=
  (screen libm paras data leg).2 && isValidOppTime paras now &&
    opportunity libm paras (quoted libm paras data leg)

def changesOpp (leg : Instrument) : Bool :=
  (observe libm paras data now leg).1.oppCounterSelf ≠ leg.oppCounterSelf

theorem observe_eq_quoted (leg : Instrument) :
    observe libm paras data now leg =
      if (screen libm paras data leg).2 then
        (if isValidOppTime paras now then updateOpp libm paras now (quoted libm paras data leg)
          else quoted libm paras data leg, true)
      else ((screen libm paras data leg).1, false) := by
  unfold observe quoted
  split
  · next screened heq => simp [heq]
  · next screened heq => simp [heq]

theorem updateOpp_change (leg : Instrument) :
    ((updateOpp libm paras now leg).oppCounterSelf ≠ leg.oppCounterSelf ↔
        opportunity libm paras leg = true ∧
          leg.isReadyToOpp now (toUInt32 paras.tradingIntervalInMSec) = true) ∧
      (updateOpp libm paras now leg).preOppTimeInMS =
        if (updateOpp libm paras now leg).oppCounterSelf = leg.oppCounterSelf then
          leg.preOppTimeInMS
        else now := by
  have hbelow : isBelow libm paras now leg = (belowBand libm paras leg &&
      leg.isReadyToOpp now (toUInt32 paras.tradingIntervalInMSec)) := by
    rw [Bool.eq_iff_iff]
    simp [isBelow, belowBand, and_assoc]
  have habove : isAbove libm paras now leg = (aboveBand libm paras leg &&
      leg.isReadyToOpp now (toUInt32 paras.tradingIntervalInMSec)) := by
    rw [Bool.eq_iff_iff]
    simp [isAbove, aboveBand, and_assoc]
  rw [updateOpp_eq, hbelow, habove]
  unfold countOpp opportunity
  cases leg.isReadyToOpp now (toUInt32 paras.tradingIntervalInMSec)
  · simp
  · cases belowBand libm paras leg
    · cases aboveBand libm paras leg
      · simp
      · cases mayCountUp paras leg <;> simp
    · cases mayCountDown paras leg <;> simp

theorem quoted_standing (leg : Instrument) :
    (quoted libm paras data leg).oppCounterSelf = leg.oppCounterSelf ∧
      (quoted libm paras data leg).preOppTimeInMS = leg.preOppTimeInMS ∧
      (quoted libm paras data leg).preTradeTimeInMS = leg.preTradeTimeInMS := by
  have hscreen := standing_screen libm paras data leg
  have hscreened : (screen libm paras data leg).1.oppCounterSelf = leg.oppCounterSelf ∧
      (screen libm paras data leg).1.preOppTimeInMS = leg.preOppTimeInMS ∧
      (screen libm paras data leg).1.preTradeTimeInMS = leg.preTradeTimeInMS :=
    ⟨congrArg Standing.oppCounterSelf hscreen, congrArg Standing.preOppTimeInMS hscreen,
      congrArg Standing.preTradeTimeInMS hscreen⟩
  have hquote : ∀ leg : Instrument, (quote data leg).oppCounterSelf = leg.oppCounterSelf ∧
      (quote data leg).preOppTimeInMS = leg.preOppTimeInMS ∧
      (quote data leg).preTradeTimeInMS = leg.preTradeTimeInMS := fun leg =>
    ⟨congrArg Standing.oppCounterSelf (standing_quote data leg),
      congrArg Standing.preOppTimeInMS (standing_quote data leg),
      congrArg Standing.preTradeTimeInMS (standing_quote data leg)⟩
  unfold quoted
  dsimp only
  split_ifs
  · exact ⟨(hquote _).1.trans hscreened.1, (hquote _).2.1.trans hscreened.2.1,
      (hquote _).2.2.trans hscreened.2.2⟩
  · exact ⟨(hquote _).1.trans hscreened.1, (hquote _).2.1.trans hscreened.2.1,
      (hquote _).2.2.trans hscreened.2.2⟩

theorem observe_change (leg : Instrument) :
    (changesOpp libm paras data now leg = true ↔ findsOpp libm paras data now leg = true ∧
        leg.isReadyToOpp now (toUInt32 paras.tradingIntervalInMSec) = true) ∧
      (observe libm paras data now leg).1.preOppTimeInMS =
        if changesOpp libm paras data now leg then now else leg.preOppTimeInMS := by
  obtain ⟨hopp, hpre, -⟩ := quoted_standing libm paras data leg
  obtain ⟨hchange, htime⟩ := updateOpp_change libm paras now (quoted libm paras data leg)
  have hready : (quoted libm paras data leg).isReadyToOpp now
      (toUInt32 paras.tradingIntervalInMSec) =
        leg.isReadyToOpp now (toUInt32 paras.tradingIntervalInMSec) := by
    unfold Instrument.isReadyToOpp
    rw [hpre]
  rw [hready, hopp] at hchange
  rw [hopp, hpre] at htime
  have hscreen := standing_screen libm paras data leg
  have hkept : (screen libm paras data leg).1.oppCounterSelf = leg.oppCounterSelf :=
    congrArg Standing.oppCounterSelf hscreen
  have hkeptTime : (screen libm paras data leg).1.preOppTimeInMS = leg.preOppTimeInMS :=
    congrArg Standing.preOppTimeInMS hscreen
  unfold changesOpp findsOpp
  rw [observe_eq_quoted]
  by_cases hpasses : (screen libm paras data leg).2 = true
  · by_cases hnow : isValidOppTime paras now = true
    · simp only [hpasses, hnow, if_true, Bool.true_and, decide_eq_true_eq, ne_eq]
      refine ⟨hchange, ?_⟩
      rw [htime]
      split_ifs <;> simp_all
    · simp [hpasses, hnow, hopp, hpre]
  · simp [hpasses, hkept, hkeptTime]

end Opportunities

theorem preOppTimeInMS_leave (leg : Instrument) (paras : StrategyParameters) (isLong : Bool)
    (size : ℤ) (price : ℚ) (orderqty now : ℕ) :
    ((leg.calculatePnl paras isLong size price).removePosition isLong orderqty
      now).preOppTimeInMS = leg.preOppTimeInMS := by
  have hpnl : (leg.calculatePnl paras isLong size price).preOppTimeInMS = leg.preOppTimeInMS := by
    unfold Instrument.calculatePnl
    split_ifs <;> rfl
  rw [← hpnl]
  cases isLong <;> rfl

theorem preOppTimeInMS_onTick {byteOrder : ByteOrder} {libm : MathLibrary}
    {paras : StrategyParameters} {data : CTickData} {now : ℕ}
    {state state' : Instrument × FakeOrderManager}
    (htake : onTick byteOrder libm paras data now state = some state') :
    state'.1.preOppTimeInMS = (observe libm paras data now state.1).1.preOppTimeInMS := by
  unfold onTick at htake
  split at htake
  · next leg heq =>
      obtain rfl := Option.some.inj htake
      rw [heq]
  · next leg heq =>
      rw [heq]
      rw [trade_eq] at htake
      refine visitAll_invariant (I := fun state => state.1.preOppTimeInMS = leg.preOppTimeInMS)
        ?_ htake rfl
      intro b state state' _ htake h
      unfold Branch.submit at htake
      split_ifs at htake
      · obtain ⟨_, -, rfl⟩ := Option.map_eq_some_iff.mp htake
        rw [← h]
        cases b.isLong <;> rfl
      · obtain ⟨_, -, rfl⟩ := Option.map_eq_some_iff.mp htake
        exact (preOppTimeInMS_leave ..).trans h

section OppChanges

variable (byteOrder : ByteOrder) (libm : MathLibrary) (self : ℕ)

def oppChanges (s : State) (data : CTickData) (now : ℕ) : ℕ :=
  (tickLeg s data.instIndex).elim 0 fun leg =>
    if changesOpp libm s.globalParas data now leg then 1 else 0

/-- A tick that finds an opportunity, not the first of its instrument on that day, does not
get past the interval before it is over. -/
def OppInTime (d : Day) : Action → Prop
  | .marketData data now => ∀ leg ∈ tickLeg d.state data.instIndex,
      findsOpp libm d.state.globalParas data now leg → stamps data.instIndex d.log ≠ [] →
        now < leg.preOppTimeInMS + toUInt32 d.state.globalParas.tradingIntervalInMSec →
          ¬ Escapes leg.preOppTimeInMS (toUInt32 d.state.globalParas.tradingIntervalInMSec) now
  | _ => True

instance (libm : MathLibrary) (d : Day) : (a : Action) → Decidable (OppInTime libm d a)
  | .marketData _ _ => inferInstanceAs (Decidable (∀ _ ∈ tickLeg _ _, _ → _ → _ → _))
  | .startDay | .startDayOrders _ | .startDayBook _ | .marketDataBook _ | .timer _ | .endDay
    | .otherRequest _ => .isTrue trivial

theorem countsBy_oppChanges :
    CountsBy byteOrder libm (oppChanges libm) (·.preOppTimeInMS) where
  standing _ _ h := congrArg Standing.preOppTimeInMS h
  tick s data now leg leg' mgr hleg htick := by
    rw [preOppTimeInMS_onTick htick, (observe_change libm s.globalParas data now leg).2,
      oppChanges, hleg, Option.elim_some]
    split_ifs <;> simp_all
  init paras leg := rfl

/-- Within a day, the changes of the counter of an instrument are the interval apart if and
only if no opportunity gets past it too early. -/
theorem oppChanges_spaced_iff (s : State) (clock : ℕ) {actions : List Action} {d : Day}
    (hrun : Run (dayStep byteOrder libm self (oppChanges libm)) WithinDay (morning self s clock)
      actions d) :
    Spaced (toUInt32 s.globalParas.tradingIntervalInMSec) d.log ↔
      Run (dayStep byteOrder libm self (oppChanges libm))
        (fun d a => WithinDay d a ∧ OppInTime libm d a) (morning self s clock) actions d := by
  have hcounts := countsBy_oppChanges byteOrder libm
  refine (spaced_iff hcounts (fun d a hnot => ?_) (fun d data now leg h hwithin hleg hends => ?_)
    (remembers_morning hcounts s clock) hrun).trans (and_iff_right (spaced_nil _))
  · cases a with
    | marketData data now => exact absurd rfl (hnot data now)
    | _ => trivial
  · have hpre : leg.preOppTimeInMS < 2 ^ 32 := (h.pre_le _ leg hleg).trans_lt
      (hwithin.1.trans_lt hwithin.2)
    obtain ⟨hchange, -⟩ := observe_change libm d.state.globalParas data now leg
    rw [isReadyToOpp_iff hpre (toUInt32_lt _) hwithin.2] at hchange
    have hcount : oppChanges libm d.state data now =
        if changesOpp libm d.state.globalParas data now leg then 1 else 0 := by
      rw [oppChanges, hleg, Option.elim_some]
    simp only [OppInTime, hleg, Option.mem_def, Option.some.injEq, forall_eq', Late, hcount]
    rw [h.interval_eq] at hchange ⊢
    split_ifs with hchanges
    · obtain ⟨hfinds, hready⟩ := hchange.mp hchanges
      constructor
      · intro hintime
        refine ⟨fun _ hne => ?_, fun hmany => absurd hmany (lt_irrefl 1)⟩
        rcases hready with hover | hescapes
        · exact hover
        · exact not_lt.mp fun hearly => hintime hfinds hne hearly hescapes
      · rintro ⟨hlate, -⟩ - hne hearly
        exact absurd (hlate one_pos hne) (not_le.mpr hearly)
    · refine iff_of_true (fun hfinds _ _ hescapes => hchanges ?_)
        ⟨fun hpos => absurd hpos (lt_irrefl 0), fun hmany => absurd hmany (by omega)⟩
      exact hchange.mpr ⟨hfinds, .inr hescapes⟩

end OppChanges

def countingParas (tradingIntervalInMSec : ℤ) : StrategyParameters :=
  { dayParas true with
    oppStartTime := 0
    openingTime := 86400000
    exitTime := 86400000
    liquidateTime := 86400000
    peeTime1 := 86400000
    peeTimeEnd1 := 86400000
    peeTime2 := 86400000
    peeTimeEnd2 := 86400000
    thresholdSelf := 3
    tradingIntervalInMSec := tradingIntervalInMSec }

def volumeTick (bid : ℚ) (totVol : ℕ) : CTickData := { quoteTick bid with totVol := totVol }

/-- The logarithm of the volumes below, and what stands for that of zero. -/
def tableMath : MathLibrary where
  abs x := |x|
  log x := if x = 503 / 103 then 15858 / 10000 else -1000
  pow x y := if y = 0 then 1 else x

def fallingDay (again : ℕ) : List Action :=
  [.marketData (volumeTick 100 100) 100, .marketData (volumeTick 100 100) 200, .timer 2,
    .marketData (volumeTick 100 300) 300, .timer 2, .marketData (volumeTick 100 500) 400, .timer 2,
    .marketData (volumeTick 99 500) 1000, .marketData (volumeTick 99 500) again]

def countingDay : Day :=
  morning 0 (.configured (countingParas 500) [(['a'], oneLot)] (newManager 0)) 0

theorem oppChanges_spaced_later :
    ∃ d, Run (dayStep .littleEndian tableMath 0 (oppChanges tableMath)) WithinDay countingDay
        (fallingDay 1500) d ∧
      d.log = [(10200000, 1000), (10200000, 1500)] ∧
      (Spaced 500 d.log ↔ Run (dayStep .littleEndian tableMath 0 (oppChanges tableMath))
        (fun d a => WithinDay d a ∧ OppInTime tableMath d a) countingDay (fallingDay 1500) d) := by
  have hexecute : ((Run.execute (dayStep .littleEndian tableMath 0 (oppChanges tableMath)) WithinDay
      countingDay (fallingDay 1500)).map (·.log)) = some [(10200000, 1000), (10200000, 1500)] := by
    decide +kernel
  obtain ⟨d, hrun, hlog⟩ := Run.exists_of_execute_map hexecute
  exact ⟨d, hrun, hlog, oppChanges_spaced_iff .littleEndian tableMath 0 _ 0 hrun⟩

/-- Early in the day a second change gets past the interval at once. -/
theorem not_oppChanges_spaced :
    ¬ ∀ (byteOrder : ByteOrder) (libm : MathLibrary) (self : ℕ) (s : State) (clock : ℕ)
      (actions : List Action) (d : Day),
      Run (dayStep byteOrder libm self (oppChanges libm)) WithinDay (morning self s clock)
        actions d → Spaced (toUInt32 s.globalParas.tradingIntervalInMSec) d.log := by
  intro h
  have hexecute : ((Run.execute (dayStep .littleEndian tableMath 0 (oppChanges tableMath)) WithinDay
      countingDay (fallingDay 1001)).map (·.log)) = some [(10200000, 1000), (10200000, 1001)] := by
    decide +kernel
  obtain ⟨d, hrun, hlog⟩ := Run.exists_of_execute_map hexecute
  have hspaced := h _ _ _ _ _ _ d hrun 10200000
  rw [hlog] at hspaced
  revert hspaced
  decide

/-! ### Orders -/

section Orders

variable {byteOrder : ByteOrder} {libm : MathLibrary} {paras : StrategyParameters}
  {data : CTickData} {now : ℕ} {signals : Instrument → Branch → Bool}

theorem preTradeTimeInMS_submit {b : Branch} {state state' : Instrument × FakeOrderManager}
    (htake : b.submit byteOrder paras data now state = some state') :
    state'.1.preTradeTimeInMS = now := by
  unfold Branch.submit at htake
  split_ifs at htake
  · obtain ⟨_, -, rfl⟩ := Option.map_eq_some_iff.mp htake
    dsimp only
    cases b.isLong <;> rfl
  · obtain ⟨_, -, rfl⟩ := Option.map_eq_some_iff.mp htake
    dsimp only
    cases b.isLong <;> rfl

theorem preTradeTimeInMS_visitAll {bs : List Branch} {state state' : Instrument × FakeOrderManager}
    (htake : visitAll byteOrder paras data now signals bs state = some state') :
    state'.1.preTradeTimeInMS =
      if (submissions byteOrder paras data now signals bs state).length = 0 then
        state.1.preTradeTimeInMS
      else now := by
  induction bs generalizing state with
  | nil =>
      obtain rfl := Option.some.inj htake
      rfl
  | cons b bs ih =>
      obtain ⟨mid, hmid, hrest⟩ := Option.bind_eq_some_iff.mp htake
      rw [ih hrest, submissions, hmid]
      unfold visit at hmid
      split_ifs at hmid with htaken
      · rw [preTradeTimeInMS_submit hmid, if_pos htaken]
        simp
      · obtain rfl := Option.some.inj hmid
        simp [htaken]

/-- The counts after an order of a branch, which are all that the later branches see of it. -/
def Branch.counted (b : Branch) (now : ℕ) (leg : Instrument) : Instrument :=
  if b.isOpen then
    leg.addPosition b.isLong (toUInt32 ((toInt (leg.ppl + 1 / 2)).getD 0)) now (b.price leg)
  else
    leg.removePosition b.isLong
      (toUInt32 ((toInt (min (leg.ppl + 1 / 2) (leg.openPositionQty b.isLong))).getD 0)) now

def wantsOrder (paras : StrategyParameters) (now : ℕ) (bs : List Branch) (leg : Instrument) :
    Bool :=
  bs.any fun b => b.taken paras now leg (signal paras leg b)

/-- After the first branch that is taken another one is, with the new counts. -/
def wantsTwo (paras : StrategyParameters) (now : ℕ) : List Branch → Instrument → Bool
  | [], _ => false
  | b :: bs, leg =>
      if b.taken paras now leg (signal paras leg b) then
        wantsOrder paras now bs (Branch.counted b now leg)
      else wantsTwo paras now bs leg

theorem wantsOrder_of_wantsTwo {bs : List Branch} {leg : Instrument}
    (h : wantsTwo paras now bs leg = true) : wantsOrder paras now bs leg = true := by
  induction bs with
  | nil => cases h
  | cons b bs ih =>
      rw [wantsOrder, List.any_cons, ← wantsOrder, Bool.or_eq_true]
      rw [wantsTwo] at h
      split_ifs at h with htaken
      · exact .inl htaken
      · exact .inr (ih h)

theorem taken_calculatePnl (b c : Branch) (size : ℤ) (price : ℚ) (orderqty : ℕ)
    (leg : Instrument) :
    let leg' := (leg.calculatePnl paras b.isLong size price).removePosition b.isLong orderqty now
    c.taken paras now leg' (signal paras leg' c) =
      c.taken paras now (leg.removePosition b.isLong orderqty now)
        (signal paras (leg.removePosition b.isLong orderqty now) c) := by
  unfold Instrument.calculatePnl
  dsimp only
  split_ifs <;> cases b.isLong <;> rcases c with (_ | _) | (_ | _) | (_ | _) <;> rfl

theorem taken_of_submit {b c : Branch} {state state' : Instrument × FakeOrderManager}
    (htake : b.submit byteOrder paras data now state = some state') :
    c.taken paras now state'.1 (signal paras state'.1 c) =
      c.taken paras now (Branch.counted b now state.1)
        (signal paras (Branch.counted b now state.1) c) := by
  unfold Branch.submit at htake
  unfold Branch.counted
  split_ifs at htake ⊢
  · obtain ⟨size, hsize, rfl⟩ := Option.map_eq_some_iff.mp htake
    rw [hsize, Option.getD_some]
  · obtain ⟨size, hsize, rfl⟩ := Option.map_eq_some_iff.mp htake
    rw [hsize, Option.getD_some]
    exact taken_calculatePnl b c _ _ _ state.1

theorem submissions_pos_iff (bs : List Branch) (state : Instrument × FakeOrderManager) :
    0 < (submissions byteOrder paras data now (signal paras) bs state).length ↔
      wantsOrder paras now bs state.1 = true := by
  induction bs with
  | nil => simp [submissions, wantsOrder]
  | cons b bs ih =>
      rw [wantsOrder, List.any_cons, ← wantsOrder, submissions]
      by_cases htaken : b.taken paras now state.1 (signal paras state.1 b) = true
      · simp [htaken]
      · rw [if_neg htaken, visit, if_neg htaken, Option.map_some, Option.getD_some,
          List.nil_append, ih]
        simp [htaken]

theorem submissions_many_iff {bs : List Branch} {state : Instrument × FakeOrderManager}
    (hends : (visitAll byteOrder paras data now (signal paras) bs state).isSome) :
    1 < (submissions byteOrder paras data now (signal paras) bs state).length ↔
      wantsTwo paras now bs state.1 = true := by
  induction bs with
  | nil => simp [submissions, wantsTwo]
  | cons b bs ih =>
      rw [submissions, wantsTwo]
      by_cases htaken : b.taken paras now state.1 (signal paras state.1 b) = true
      · obtain ⟨state', hends⟩ := Option.isSome_iff_exists.mp hends
        obtain ⟨mid, hmid, -⟩ := Option.bind_eq_some_iff.mp hends
        have hafter : wantsOrder paras now bs mid.1 =
            wantsOrder paras now bs (Branch.counted b now state.1) := by
          have hsubmit : b.submit byteOrder paras data now state = some mid := by
            rwa [visit, if_pos htaken] at hmid
          exact List.any_congr rfl fun c => taken_of_submit hsubmit
        have hlater : 0 < (submissions byteOrder paras data now (signal paras) bs mid).length ↔
            wantsOrder paras now bs mid.1 = true := submissions_pos_iff bs mid
        rw [if_pos htaken, if_pos htaken, hmid, Option.map_some, Option.getD_some,
          List.length_append, List.length_singleton, ← hafter, ← hlater]
        omega
      · have hskip : visit byteOrder paras data now (signal paras) b state = some state :=
          if_neg htaken
        rw [visitAll, hskip, Option.bind_some] at hends
        rw [if_neg htaken, if_neg htaken, hskip, Option.map_some, Option.getD_some,
          List.nil_append, ih hends]

theorem preTradeTimeInMS_observe (leg : Instrument) :
    (observe libm paras data now leg).1.preTradeTimeInMS = leg.preTradeTimeInMS := by
  have hquoted := (quoted_standing libm paras data leg).2.2
  have hscreen := congrArg Standing.preTradeTimeInMS (standing_screen libm paras data leg)
  have hopp : ∀ leg, (updateOpp libm paras now leg).preTradeTimeInMS = leg.preTradeTimeInMS := by
    intro leg
    unfold updateOpp
    dsimp only
    split_ifs <;> rfl
  rw [observe_eq_quoted]
  split_ifs
  · exact (hopp _).trans hquoted
  · exact hquoted
  · exact hscreen

end Orders

section OrdersSent

variable (byteOrder : ByteOrder) (libm : MathLibrary) (self : ℕ)

def ordersOf (s : State) (data : CTickData) (now : ℕ) : List (Branch × Instrument) :=
  tickSubmissions byteOrder libm s data now (exactSignals libm s.globalParas data now)

def ordersSent (s : State) (data : CTickData) (now : ℕ) : ℕ :=
  (ordersOf byteOrder libm s data now).length

/-- A tick that passes and finds a branch to take finds its instrument ready to trade, and finds no
second branch unless there is no interval. -/
def TradesInTime (d : Day) : Action → Prop
  | .marketData data now => ∀ leg ∈ tickLeg d.state data.instIndex,
      let paras := d.state.globalParas
      let interval := toUInt32 paras.tradingIntervalInMSec
      let (observed, passes) := observe libm paras data now leg
      passes = true → wantsOrder paras now branches observed = true →
        isReadyToTrade leg now interval = true ∧
          (wantsTwo paras now branches observed = true → interval = 0)
  | _ => True

instance (d : Day) : (a : Action) → Decidable (TradesInTime libm d a)
  | .marketData _ _ => inferInstanceAs (Decidable (∀ _ ∈ tickLeg _ _, _ → _ → _ ∧ _))
  | .startDay | .startDayOrders _ | .startDayBook _ | .marketDataBook _ | .timer _ | .endDay
    | .otherRequest _ => .isTrue trivial

theorem ordersOf_eq {s : State} {data : CTickData} {now : ℕ} {leg : Instrument}
    (hleg : tickLeg s data.instIndex = some leg) :
    ordersOf byteOrder libm s data now =
      if (observe libm s.globalParas data now leg).2 then
        submissions byteOrder s.globalParas data now (signal s.globalParas) branches
          ((observe libm s.globalParas data now leg).1, s.orderManager)
      else [] := by
  rw [ordersOf, tickSubmissions, hleg, Option.map_some, ← observe_eq]
  cases observe libm s.globalParas data now leg with
  | mk leg flag => cases flag <;> rfl

theorem countsBy_ordersSent :
    CountsBy byteOrder libm (ordersSent byteOrder libm) (·.preTradeTimeInMS) where
  standing _ _ h := congrArg Standing.preTradeTimeInMS h
  tick s data now leg leg' mgr hleg htick := by
    have hobserved : (observe libm s.globalParas data now leg).1.preTradeTimeInMS =
        leg.preTradeTimeInMS := preTradeTimeInMS_observe leg
    rw [ordersSent, ordersOf_eq byteOrder libm hleg]
    unfold onTick at htick
    split at htick
    · next observed heq =>
        rw [heq] at hobserved ⊢
        obtain rfl := congrArg Prod.fst (Option.some.inj htick)
        simpa using hobserved
    · next observed heq =>
        rw [heq] at hobserved ⊢
        rw [trade_eq] at htick
        rw [if_pos rfl]
        exact (preTradeTimeInMS_visitAll htick).trans (by rw [hobserved])
  init paras leg := rfl

theorem isReadyToTrade_iff {d : Day} {interval start now inst : ℕ} {leg : Instrument}
    (h : Remembers (·.preTradeTimeInMS) interval start d) (hinterval : interval < 100000)
    (hstart : 100000 < start) (hnow : d.clock ≤ now) (hsmall : now < 2 ^ 32)
    (hleg : tickLeg d.state inst = some leg) :
    isReadyToTrade leg now interval = true ↔
      (stamps inst d.log ≠ [] → leg.preTradeTimeInMS + interval ≤ now) := by
  have hpre := h.pre_le _ leg hleg
  have hclock := h.start_le
  have hready := ready_iff (lt_of_le_of_lt (hpre.trans hnow) hsmall)
    (show interval < 2 ^ 32 by omega) hsmall
  rw [isReadyToTrade, Bool.or_eq_true, decide_eq_true_eq, decide_eq_true_eq, hready, Escapes]
  by_cases hnil : stamps inst d.log = []
  · have hzero := (h.stamped _ leg hleg).first hnil
    exact iff_of_true (.inr (.inl (by omega))) fun hne => absurd hnil hne
  · have hmem := h.start_le_log _ (mem_of_mem_stamps ((h.stamped _ leg hleg).mem hnil))
    dsimp only at hmem
    simp only [ne_eq, hnil, not_false_eq_true, forall_const]
    omega

/-- Within a day, for an interval of less than 100,000 ms and later than as many, the orders of an
instrument are the interval apart if and only if every tick that finds a branch to take finds the
instrument ready, and no second branch. -/
theorem orders_spaced_iff (s : State) (clock : ℕ)
    (hinterval : toUInt32 s.globalParas.tradingIntervalInMSec < 100000) (hclock : 100000 < clock)
    {actions : List Action} {d : Day}
    (hrun : Run (dayStep byteOrder libm self (ordersSent byteOrder libm)) WithinDay
      (morning self s clock) actions d) :
    Spaced (toUInt32 s.globalParas.tradingIntervalInMSec) d.log ↔
      Run (dayStep byteOrder libm self (ordersSent byteOrder libm))
        (fun d a => WithinDay d a ∧ TradesInTime libm d a) (morning self s clock) actions d := by
  have hcounts := countsBy_ordersSent byteOrder libm
  refine (spaced_iff hcounts (fun d a hnot => ?_) (fun d data now leg h hwithin hleg hends => ?_)
    (remembers_morning hcounts s clock) hrun).trans (and_iff_right (spaced_nil _))
  · cases a with
    | marketData data now => exact absurd rfl (hnot data now)
    | _ => trivial
  · have hlast := isReadyToTrade_iff h hinterval hclock hwithin.1 hwithin.2 hleg
    unfold onTick at hends
    simp only [TradesInTime, hleg, Option.mem_def, Option.some.injEq, forall_eq', Late, ordersSent,
      ordersOf_eq byteOrder libm hleg, h.interval_eq, hlast]
    split at hends
    · next observed heq => simp [heq]
    · next observed heq =>
        rw [trade_eq] at hends
        simp only [heq, if_true, submissions_pos_iff, submissions_many_iff hends, forall_const]
        constructor
        · intro hintime
          refine ⟨fun hwants => (hintime hwants).1, fun htwo => ?_⟩
          exact (hintime (wantsOrder_of_wantsTwo htwo)).2 htwo
        · rintro ⟨hfirst, hsecond⟩ hwants
          exact ⟨hfirst hwants, hsecond⟩

end OrdersSent

def roundTrip (leaves : ℕ) : List Action :=
  [.marketData (quoteTick 100) 36000000, .marketData (quoteTick 101) 36000000,
    .marketData (quoteTick 99) leaves]

def tradingDay : Day :=
  morning 0 (.configured (dayParas true) [(['a'], oneLot)] (newManager 0)) 36000000

theorem orders_spaced_later :
    ∃ d, Run (dayStep .littleEndian exactMath 0 (ordersSent .littleEndian exactMath)) WithinDay
        tradingDay (roundTrip 36000500) d ∧
      d.log = [(10200000, 36000000), (10200000, 36000500)] ∧ Spaced 500 d.log := by
  have hexecute : ((Run.execute (dayStep .littleEndian exactMath 0
      (ordersSent .littleEndian exactMath)) (fun d a => WithinDay d a ∧ TradesInTime exactMath d a)
      tradingDay (roundTrip 36000500)).map (·.log)) =
        some [(10200000, 36000000), (10200000, 36000500)] := by
    decide +kernel
  obtain ⟨d, hrun, hlog⟩ := Run.exists_of_execute_map hexecute
  have hday := hrun.of_forall_mem fun _ _ _ h => h.1
  exact ⟨d, hday, hlog, (orders_spaced_iff .littleEndian exactMath 0 _ 36000000 (by decide)
    (by decide) hday).mpr hrun⟩

/-- Nothing keeps the strategy from an order one millisecond later. -/
theorem not_orders_spaced :
    ¬ ∀ (byteOrder : ByteOrder) (libm : MathLibrary) (self : ℕ) (s : State) (clock : ℕ),
      toUInt32 s.globalParas.tradingIntervalInMSec < 100000 → 100000 < clock →
      ∀ (actions : List Action) (d : Day),
      Run (dayStep byteOrder libm self (ordersSent byteOrder libm)) WithinDay
        (morning self s clock) actions d →
      Spaced (toUInt32 s.globalParas.tradingIntervalInMSec) d.log := by
  intro h
  have hexecute : ((Run.execute (dayStep .littleEndian exactMath 0
      (ordersSent .littleEndian exactMath)) WithinDay tradingDay (roundTrip 36000001)).map
        (·.log)) = some [(10200000, 36000000), (10200000, 36000001)] := by
    decide +kernel
  obtain ⟨d, hrun, hlog⟩ := Run.exists_of_execute_map hexecute
  have hspaced := h _ _ _ _ _ (by decide) (by decide) _ d hrun 10200000
  rw [hlog] at hspaced
  revert hspaced
  decide

end BluesTrading.StrategyTiming
