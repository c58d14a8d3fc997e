import BluesTrading.LegRuns
import Mathlib.Analysis.Convex.Basic

namespace BluesTrading.StrategyAverage

open BluesTrading.Foundations
open BluesTrading.InstrumentInfo
open BluesTrading.LegRuns
open BluesTrading.OrderData
open BluesTrading.OrderManager
open BluesTrading.SingleStrategy
open BluesTrading.SourceText
open BluesTrading.StrategyLedger
open BluesTrading.StrategyLimit
open BluesTrading.StrategyOrders

/-- The quotes of a tick pass the first test of `onMarketData`. -/
def IsQuoted (tickSize : ℚ) (data : CTickData) : Prop :=
  let bid := (getBidDepth data 1).price
  let ask := (getAskDepth data 1).price
  ¬ (bid = 0 ∨ ask = 0 ∨ ask ≤ bid ∨ bid < 10 * tickSize ∨ ask < 10 * tickSize)

instance (tickSize : ℚ) (data : CTickData) : Decidable (IsQuoted tickSize data) :=
  inferInstanceAs (Decidable (¬ (_ ∨ _)))

def midQuote (data : CTickData) : ℚ := ((getBidDepth data 1).price + (getAskDepth data 1).price) / 2

/-- What the signal is computed from. -/
structure Levels where
  instIndex : ℕ
  tickSize : ℚ
  ma : ℚ
  maBy10K : ℚ
  midPrice : ℚ
  selfBp : ℚ

def levels (leg : Instrument) : Levels :=
  ⟨leg.instIndex, leg.tickSize, leg.ma, leg.maBy10K, leg.midPrice, leg.selfBp⟩

theorem levels_initInstrument (paras : StrategyParameters) (leg : Instrument) :
    levels (leg.initInstrument paras) =
      if paras.isMaOvernight then ⟨leg.instIndex, leg.tickSize, leg.ma, leg.maBy10K, 0, 0⟩
      else ⟨leg.instIndex, leg.tickSize, -1, 0, 0, 0⟩ := by
  unfold Instrument.initInstrument
  dsimp only
  split_ifs <;> rfl

def movedAverage (paras : StrategyParameters) (leg : Instrument) : ℚ :=
  leg.ma * (1 - paras.maWeight) + leg.midPrice * paras.maWeight

theorem levels_updatePrices (libm : MathLibrary) (paras : StrategyParameters) (leg : Instrument) :
    levels (updatePrices libm paras leg) =
      if leg.isValid ∧ leg.ma > 0 ∧ leg.midPrice > 0 then
        let ma := movedAverage paras leg
        ⟨leg.instIndex, leg.tickSize, ma, ma / 10000, leg.midPrice,
          (leg.midPrice - ma) / (ma / 10000)⟩
      else levels leg := by
  unfold updatePrices
  dsimp only
  by_cases hvalid : leg.isValid = true
  · by_cases hset : leg.ma > 0 ∧ leg.midPrice > 0
    · simp only [hvalid, hset, not_true_eq_false, and_self, if_false, if_true]
      split_ifs <;> rfl
    · simp only [hvalid, hset, not_true_eq_false, and_false, if_false]
      split_ifs <;> rfl
  · simp only [hvalid, not_false_eq_true, if_true, Bool.false_eq_true, false_and, if_false]

@[simp] theorem levels_countUpdate (leg : Instrument) :
    levels (countUpdate leg) = levels leg := by
  unfold countUpdate
  split_ifs <;> rfl

@[simp] theorem levels_updateVolatility (paras : StrategyParameters) (leg : Instrument) :
    levels (updateVolatility paras leg) = levels leg := by
  unfold updateVolatility
  split_ifs <;> rfl

@[simp] theorem levels_updateOpp (libm : MathLibrary) (paras : StrategyParameters) (now : ℕ)
    (leg : Instrument) : levels (updateOpp libm paras now leg) = levels leg := by
  rw [updateOpp_eq]
  unfold countOpp
  split_ifs <;> rfl

@[simp] theorem levels_calculatePnl (paras : StrategyParameters) (isLong : Bool) (exitSize : ℤ)
    (exitPx : ℚ) (leg : Instrument) :
    levels (leg.calculatePnl paras isLong exitSize exitPx) = levels leg := by
  unfold Instrument.calculatePnl
  split_ifs <;> rfl

@[simp] theorem levels_removePosition (leg : Instrument) (isLong : Bool) (orderqty now : ℕ) :
    levels (leg.removePosition isLong orderqty now) = levels leg := by
  cases isLong <;> rfl

theorem levels_submit {byteOrder : ByteOrder} {paras : StrategyParameters} {data : CTickData}
    {now : ℕ} {b : Branch} {state state' : Instrument × FakeOrderManager}
    (htake : b.submit byteOrder paras data now state = some state') :
    levels state'.1 = levels state.1 := by
  unfold Branch.submit at htake
  split_ifs at htake
  · obtain ⟨size, -, rfl⟩ := Option.map_eq_some_iff.mp htake
    dsimp only
    cases b.isLong <;> rfl
  · obtain ⟨size, -, rfl⟩ := Option.map_eq_some_iff.mp htake
    simp only [levels_removePosition, levels_calculatePnl]

theorem abs_signal_le {lo hi mid ma : ℚ} (hlo : 0 < lo) (hmid : mid ∈ Set.Icc lo hi)
    (hma : ma ∈ Set.Icc lo hi) : |(mid - ma) / (ma / 10000)| ≤ 10000 * (hi - lo) / lo := by
  have hpos : 0 < ma := hlo.trans_le hma.1
  have hdist : |mid - ma| ≤ hi - lo :=
    abs_sub_le_iff.mpr ⟨by linarith [hmid.2, hma.1], by linarith [hmid.1, hma.2]⟩
  calc |(mid - ma) / (ma / 10000)|
      = 10000 * |mid - ma| / ma := by
        rw [abs_div, abs_of_pos (show 0 < ma / 10000 by positivity)]
        field_simp
    _ ≤ 10000 * (hi - lo) / lo :=
        div_le_div₀ (by linarith [abs_nonneg (mid - ma)]) (by linarith) hlo hma.1

/-- The levels of an instrument whose quotes lie between two bounds. -/
structure Averaged (lo hi : ℕ → ℚ) (leg : Instrument) : Prop where
  tickSize : leg.tickSize = getInstrumentTickSize leg.instIndex
  ma : leg.ma = -1 ∧ leg.maBy10K ≤ 0 ∨
    leg.ma ∈ Set.Icc (lo leg.instIndex) (hi leg.instIndex) ∧ leg.maBy10K = leg.ma / 10000
  midPrice : leg.midPrice = 0 ∨ leg.midPrice ∈ Set.Icc (lo leg.instIndex) (hi leg.instIndex)
  selfBp : |leg.selfBp| ≤
    10000 * (hi leg.instIndex - lo leg.instIndex) / lo leg.instIndex

namespace Averaged

variable {lo hi : ℕ → ℚ} {leg leg' : Instrument}

theorem congr (h : Averaged lo hi leg) (heq : levels leg' = levels leg) :
    Averaged lo hi leg' := by
  obtain ⟨hindex, htick, hma, hby, hmid, hbp⟩ := Levels.mk.inj heq
  exact
    { tickSize := by rw [htick, hindex]; exact h.tickSize
      ma := by rw [hma, hby, hindex]; exact h.ma
      midPrice := by rw [hmid, hindex]; exact h.midPrice
      selfBp := by rw [hbp, hindex]; exact h.selfBp }

theorem mem_of_pos (h : Averaged lo hi leg) (hpos : 0 < leg.ma) :
    leg.ma ∈ Set.Icc (lo leg.instIndex) (hi leg.instIndex) ∧ leg.maBy10K = leg.ma / 10000 :=
  h.ma.resolve_left fun hunset => by linarith [hunset.1]

theorem abs_zero_le (h : lo leg.instIndex ≤ hi leg.instIndex) (hlo : ∀ inst, 0 < lo inst) :
    |(0 : ℚ)| ≤ 10000 * (hi leg.instIndex - lo leg.instIndex) / lo leg.instIndex := by
  have hwidth : 0 ≤ hi leg.instIndex - lo leg.instIndex := sub_nonneg.mpr h
  have hpos := hlo leg.instIndex
  rw [abs_zero]
  positivity

theorem initInstrument (h : Averaged lo hi leg) (hlo : ∀ inst, 0 < lo inst)
    (hle : ∀ inst, lo inst ≤ hi inst) (paras : StrategyParameters) :
    Averaged lo hi (leg.initInstrument paras) := by
  have hbp := abs_zero_le (hle leg.instIndex) hlo
  have hlevels := levels_initInstrument paras leg
  split_ifs at hlevels
  · have hkept : Averaged lo hi { leg with midPrice := 0, selfBp := 0 } :=
      ⟨h.tickSize, h.ma, .inl rfl, hbp⟩
    exact hkept.congr hlevels
  · have hreset : Averaged lo hi { leg with ma := -1, maBy10K := 0, midPrice := 0, selfBp := 0 } :=
      ⟨h.tickSize, .inl ⟨rfl, le_rfl⟩, .inl rfl, hbp⟩
    exact hreset.congr hlevels

/-- A tick that the strategy uses has its middle between the bounds of its instrument. -/
def Quotes (lo hi : ℕ → ℚ) (data : CTickData) : Prop :=
  IsQuoted (getInstrumentTickSize data.instIndex) data →
    midQuote data ∈ Set.Icc (lo data.instIndex) (hi data.instIndex)

instance (lo hi : ℕ → ℚ) (data : CTickData) : Decidable (Quotes lo hi data) :=
  inferInstanceAs (Decidable (_ → _))

/-- A tick sets the price and, the first time, the average. -/
theorem screen (h : Averaged lo hi leg) (hlo : ∀ inst, 0 < lo inst) {data : CTickData}
    (hindex : leg.instIndex = data.instIndex) (hquotes : Quotes lo hi data) (libm : MathLibrary)
    (paras : StrategyParameters) :
    Averaged lo hi (screen libm paras data leg).1 ∧
      ((SingleStrategy.screen libm paras data leg).2 = true →
        0 < (SingleStrategy.screen libm paras data leg).1.midPrice) := by
  unfold SingleStrategy.screen
  dsimp only
  by_cases hvalid : leg.isValid = true
  · rw [if_neg (not_not.mpr hvalid)]
    by_cases hquoted : IsQuoted leg.tickSize data
    · rw [Quotes, ← hindex, ← h.tickSize] at hquotes
      have hmid := hquotes hquoted
      have hkept : Averaged lo hi { leg with midPrice := midQuote data } :=
        ⟨h.tickSize, h.ma, .inr hmid, h.selfBp⟩
      rw [if_neg hquoted]
      split_ifs with hunset hnight
      · exact ⟨⟨h.tickSize, .inr ⟨hmid, rfl⟩, .inr hmid, h.selfBp⟩, nofun⟩
      · have hma := h.mem_of_pos (not_le.mp hunset)
        exact ⟨⟨h.tickSize, .inr ⟨hma.1, rfl⟩, .inr hmid, h.selfBp⟩, nofun⟩
      · exact ⟨hkept.congr rfl, nofun⟩
      · exact ⟨hkept.congr rfl, nofun⟩
      · exact ⟨hkept.congr rfl, fun _ => (hlo _).trans_le hmid.1⟩
    · rw [if_pos (not_not.mp hquoted)]
      exact ⟨h, nofun⟩
  · rw [if_pos hvalid]
    exact ⟨h, nofun⟩

theorem quote (h : Averaged lo hi leg) (hlo : ∀ inst, 0 < lo inst)
    (hmid : 0 < leg.midPrice) (data : CTickData) : Averaged lo hi (quote data leg) := by
  unfold SingleStrategy.quote
  dsimp only
  split_ifs with hset
  · have hma := h.ma.resolve_left fun hunset => by linarith [hunset.2]
    have hbp := abs_signal_le (hlo _) (h.midPrice.resolve_left hmid.ne') hma.1
    rw [← hma.2] at hbp
    exact ⟨h.tickSize, h.ma, h.midPrice, hbp⟩
  · exact h.congr rfl

theorem observe (h : Averaged lo hi leg) (hlo : ∀ inst, 0 < lo inst) {data : CTickData}
    (hindex : leg.instIndex = data.instIndex) (hquotes : Quotes lo hi data) (libm : MathLibrary)
    (paras : StrategyParameters) (now : ℕ) :
    Averaged lo hi (observe libm paras data now leg).1 := by
  obtain ⟨hscreened, hmid⟩ := h.screen hlo hindex hquotes libm paras
  unfold SingleStrategy.observe
  cases hscreen : SingleStrategy.screen libm paras data leg with
  | mk screened passes =>
      rw [hscreen] at hscreened hmid
      cases passes with
      | false => exact hscreened
      | true =>
          have hpos : 0 < screened.midPrice := hmid rfl
          have hkept : Averaged lo hi (SingleStrategy.quote data screened) :=
            hscreened.quote hlo hpos data
          have hreset : Averaged lo hi (resetPosition screened) := hscreened.congr rfl
          have hjumped : Averaged lo hi (SingleStrategy.quote data (resetPosition screened)) :=
            hreset.quote hlo hpos data
          dsimp only
          split_ifs
          · exact hjumped.congr (levels_updateOpp ..)
          · exact hkept.congr (levels_updateOpp ..)
          · exact hjumped
          · exact hkept

theorem onTick {x y : Instrument × FakeOrderManager} (h : Averaged lo hi x.1)
    (hlo : ∀ inst, 0 < lo inst) {byteOrder : ByteOrder} {libm : MathLibrary}
    {paras : StrategyParameters} {data : CTickData} {now : ℕ}
    (hindex : x.1.instIndex = data.instIndex) (hquotes : Quotes lo hi data)
    (htake : onTick byteOrder libm paras data now x = some y) : Averaged lo hi y.1 := by
  have hobserved := h.observe hlo hindex hquotes libm paras now
  rw [SingleStrategy.onTick] at htake
  cases hobserve : SingleStrategy.observe libm paras data now x.1 with
  | mk leg goesOn =>
      rw [hobserve] at htake hobserved
      cases goesOn with
      | false =>
          obtain rfl := Option.some.inj htake
          exact hobserved
      | true =>
          simp only [trade_eq] at htake
          apply visitAll_invariant (I := fun z => Averaged lo hi z.1) _ htake hobserved
          intro b state state' _ hsubmit hstate
          exact hstate.congr (levels_submit hsubmit)

/-- The new average lies between the old one and the price. -/
theorem updatePrices (h : Averaged lo hi leg) (hlo : ∀ inst, 0 < lo inst) (libm : MathLibrary)
    {paras : StrategyParameters} (hweight : paras.maWeight ∈ Set.Icc 0 1) :
    Averaged lo hi (updatePrices libm paras leg) := by
  have hlevels := levels_updatePrices libm paras leg
  split_ifs at hlevels with hset
  · obtain ⟨-, hset, hpriced⟩ := hset
    have hma := (h.mem_of_pos hset).1
    have hmid := h.midPrice.resolve_left hpriced.ne'
    have hmean : movedAverage paras leg ∈ Set.Icc (lo leg.instIndex) (hi leg.instIndex) := by
      have hconvex := convex_Icc (lo leg.instIndex) (hi leg.instIndex) hma hmid
        (sub_nonneg.mpr hweight.2) hweight.1 (sub_add_cancel 1 paras.maWeight)
      rwa [smul_eq_mul, smul_eq_mul, mul_comm, mul_comm paras.maWeight] at hconvex
    have hmoved : Averaged lo hi { leg with
        ma := movedAverage paras leg
        maBy10K := movedAverage paras leg / 10000
        selfBp := (leg.midPrice - movedAverage paras leg) / (movedAverage paras leg / 10000) } :=
      ⟨h.tickSize, .inr ⟨hmean, rfl⟩, .inr hmid, abs_signal_le (hlo _) hmid hmean⟩
    exact hmoved.congr hlevels
  · exact h.congr hlevels

theorem updateMA {s : State} (hlo : ∀ inst, 0 < lo inst) (libm : MathLibrary)
    (hweight : s.globalParas.maWeight ∈ Set.Icc 0 1)
    (h : ∀ leg ∈ s.pInstruments, Averaged lo hi leg) :
    ∀ leg ∈ (s.updateMA libm).pInstruments, Averaged lo hi leg := by
  rw [State.pInstruments_updateMA]
  refine List.forall_mem_map.mpr fun leg hleg => ?_
  apply ((h leg hleg).updatePrices hlo libm hweight).congr
  split_ifs <;> simp

theorem addInstrument (values : LegValues) (inst : Str) (hlo : ∀ inst, 0 < lo inst)
    (hle : ∀ inst, lo inst ≤ hi inst) : Averaged lo hi (values.set (addInstrument inst)) where
  tickSize := rfl
  ma := .inl ⟨rfl, by norm_num [LegValues.set, SingleStrategy.addInstrument]⟩
  midPrice := .inl rfl
  selfBp := abs_zero_le (hle _) hlo

end Averaged

section Run

variable {byteOrder : ByteOrder} {libm : MathLibrary} {self : ℕ}

/-- The new prices get a part of the average, and the old average the rest. -/
structure AllAveraged (lo hi : ℕ → ℚ) (s : State) : Prop where
  maWeight : s.globalParas.maWeight ∈ Set.Icc 0 1
  legs : ∀ leg ∈ s.pInstruments, Averaged lo hi leg

def InRange (lo hi : ℕ → ℚ) : Action → Prop
  | .marketData data _ => Averaged.Quotes lo hi data
  | _ => True

instance (lo hi : ℕ → ℚ) : DecidablePred (InRange lo hi)
  | .marketData data _ => inferInstanceAs (Decidable (Averaged.Quotes lo hi data))
  | .startDay | .startDayOrders _ | .startDayBook _ | .marketDataBook _ | .timer _ | .endDay
  | .otherRequest _ => isTrue trivial

theorem AllAveraged.step {lo hi : ℕ → ℚ} (hlo : ∀ inst, 0 < lo inst)
    (hle : ∀ inst, lo inst ≤ hi inst) {s s' : State} {a : Action} (h : AllAveraged lo hi s)
    (hrange : InRange lo hi a) (htake : step byteOrder libm self s a = some s') :
    AllAveraged lo hi s' := by
  have hweight : s'.globalParas.maWeight ∈ Set.Icc 0 1 := by
    rw [step_eq] at htake
    obtain ⟨totalPos, counter, hparas⟩ := globalParas_stepBy htake
    rw [hparas]
    exact h.maWeight
  refine ⟨hweight, ?_⟩
  cases a with
  | startDay =>
      obtain rfl := Option.some.inj htake
      exact List.forall_mem_map.mpr fun leg hleg =>
        (h.legs leg hleg).initInstrument hlo hle s.globalParas
  | marketData data now =>
      obtain ⟨i, hi, hrest⟩ := Option.bind_eq_some_iff.mp htake
      obtain ⟨leg, hleg, hlast⟩ := Option.bind_eq_some_iff.mp hrest
      obtain ⟨z, htick, rfl⟩ := Option.map_eq_some_iff.mp hlast
      have hindex : leg.instIndex = data.instIndex :=
        (instIndex_of_tickLeg (Option.bind_eq_some_iff.mpr ⟨i, hi, hleg⟩)).2
      intro other hother
      rcases List.mem_or_eq_of_mem_set hother with hold | rfl
      · exact h.legs other hold
      · exact (h.legs leg (List.mem_of_getElem? hleg)).onTick hlo hindex hrange htick
  | timer eventID =>
      obtain rfl := Option.some.inj htake
      unfold State.onTimer
      split_ifs
      · exact Averaged.updateMA hlo libm h.maWeight h.legs
      · exact h.legs
  | otherRequest request =>
      obtain ⟨-, rfl⟩ := step_otherRequest htake
      exact h.legs
  | _ =>
      obtain rfl := Option.some.inj htake
      exact h.legs

/-- In every state of a run the average of an instrument is unset or lies between the bounds of
its quotes, and its signal is as small as these are close. -/
theorem averaged_of_run (byteOrder : ByteOrder) (libm : MathLibrary) (self : ℕ)
    (globalParas : StrategyParameters) (legs : List (Str × LegValues))
    (orderManager : FakeOrderManager) {lo hi : ℕ → ℚ} (hlo : ∀ inst, 0 < lo inst)
    (hle : ∀ inst, lo inst ≤ hi inst) (hweight : globalParas.maWeight ∈ Set.Icc 0 1)
    {actions : List Action} {s : State} (hrange : ∀ a ∈ actions, InRange lo hi a)
    (hrun : Run (step byteOrder libm self) (fun _ _ => True)
      (.configured globalParas legs orderManager) actions s) :
    ∀ leg ∈ s.pInstruments,
      (leg.ma = -1 ∨ leg.ma ∈ Set.Icc (lo leg.instIndex) (hi leg.instIndex)) ∧
        |leg.selfBp| ≤ 10000 * (hi leg.instIndex - lo leg.instIndex) / lo leg.instIndex := by
  have hstart : AllAveraged lo hi (.configured globalParas legs orderManager) :=
    ⟨hweight, List.forall_mem_map.mpr fun leg _ => Averaged.addInstrument leg.2 leg.1 hlo hle⟩
  have hlast : AllAveraged lo hi s :=
    (hrun.of_forall_mem fun _ a ha _ => hrange a ha).invariant
      (fun _ _ _ hrange htake h => h.step hlo hle hrange htake) hstart
  intro leg hleg
  have h := hlast.legs leg hleg
  exact ⟨h.ma.imp And.left And.left, h.selfBp⟩

def pairLow (inst : ℕ) : ℚ := if inst = 10200000 then 100 else 50000

def pairHigh (inst : ℕ) : ℚ := if inst = 10200000 then 102 else 50101

theorem averaged_of_run_pair :
    ∃ s, Run (step .littleEndian exactMath 0) (fun _ _ => True) pair
        (pairDay ++ [.timer 2]) s ∧
      s.pInstruments.map (·.ma) = [10051 / 100, 100003 / 2] ∧
      ∀ leg ∈ s.pInstruments,
        (leg.ma = -1 ∨ leg.ma ∈ Set.Icc (pairLow leg.instIndex) (pairHigh leg.instIndex)) ∧
          |leg.selfBp| ≤ 10000 * (pairHigh leg.instIndex - pairLow leg.instIndex) /
            pairLow leg.instIndex := by
  have hexecute : ((Run.execute (step .littleEndian exactMath 0) (fun _ _ => True) pair
      (pairDay ++ [.timer 2])).map fun s => s.pInstruments.map (·.ma)) =
        some [10051 / 100, 100003 / 2] := by
    decide +kernel
  obtain ⟨s, hrun, hma⟩ := Run.exists_of_execute_map hexecute
  refine ⟨s, hrun, hma, averaged_of_run .littleEndian exactMath 0 _ _ _ (fun inst => ?_)
    (fun inst => ?_) (by decide +kernel) (by decide +kernel) hrun⟩
  · unfold pairLow
    split_ifs <;> norm_num
  · unfold pairLow pairHigh
    split_ifs <;> norm_num

end Run

end BluesTrading.StrategyAverage
