import BluesTrading.StrategyExposure

namespace BluesTrading.StrategyLimit

open BluesTrading.Foundations
open BluesTrading.InstrumentInfo
open BluesTrading.OrderData
open BluesTrading.OrderManager
open BluesTrading.SingleStrategy
open BluesTrading.SourceText
open BluesTrading.StrategyExposure
open BluesTrading.StrategyLedger
open BluesTrading.StrategyOrders

/-- The count after `k` orders of one size. -/
def multiple (size : ℤ) (k : ℕ) : ℤ := wrapInt (k * size)

/-- The first multiple of a size that is not below the limit is the limit. -/
def FirstMultipleFits (size : ℤ) (maxPos : ℚ) : Prop :=
  ∀ k, (∀ i < k, (multiple size i : ℚ) < maxPos) → (multiple size k : ℚ) ≤ maxPos

theorem multiple_zero (size : ℤ) : multiple size 0 = 0 := by simp [multiple, wrapInt]

theorem multiple_succ (size : ℤ) (k : ℕ) :
    multiple size (k + 1) = wrapInt (multiple size k + size) := by
  rw [multiple, multiple, wrapInt, wrapInt, wrapInt, Int.bmod_add_bmod]
  congr 1
  push_cast
  ring

theorem wrapInt_multiple_sub (size : ℤ) (k : ℕ) :
    wrapInt (multiple size (k + 1) - size) = multiple size k := by
  rw [multiple, multiple, wrapInt, wrapInt, wrapInt, Int.bmod_sub_bmod]
  congr 1
  push_cast
  ring

theorem multiple_of_small {size : ℤ} {k : ℕ} (hlow : 0 ≤ size) (hsmall : k * size < 2 ^ 31) :
    multiple size k = k * size := by
  have hnonneg : 0 ≤ k * size := by positivity
  exact wrapInt_of_small (by omega) hsmall

/-- Where nothing overflows, the size divides the limit. -/
theorem firstMultipleFits_iff {size limit : ℤ} (hsize : 0 < size) (hlimit : 0 ≤ limit)
    (hsmall : limit + size < 2 ^ 31) : FirstMultipleFits size limit ↔ size ∣ limit := by
  constructor
  · intro h
    -- the number of orders after which the limit is reached
    obtain ⟨k, hk⟩ := Int.eq_ofNat_of_zero_le (Int.ediv_nonneg (a := limit + size - 1) (by omega)
      hsize.le)
    have hlow : k * size ≤ limit + size - 1 := by
      have := Int.ediv_mul_le (limit + size - 1) hsize.ne'
      rwa [hk] at this
    have hhigh : limit + size - 1 < (k + 1) * size := by
      have := Int.lt_ediv_add_one_mul_self (limit + size - 1) hsize
      rwa [hk] at this
    have hbelow : ∀ i < k, (multiple size i : ℚ) < limit := by
      intro i hi
      have hle : ((i : ℤ) + 1) * size ≤ k * size := by
        apply mul_le_mul_of_nonneg_right _ hsize.le
        omega
      rw [multiple_of_small hsize.le (by linarith)]
      exact_mod_cast (by linarith : (i : ℤ) * size < limit)
    have hreached := h k hbelow
    rw [multiple_of_small hsize.le (by omega)] at hreached
    have hreached : k * size ≤ limit := by exact_mod_cast hreached
    exact ⟨k, by linarith⟩
  · rintro ⟨c, rfl⟩ k hbelow
    have hc : 0 ≤ c := nonneg_of_mul_nonneg_right hlimit hsize
    obtain ⟨c, rfl⟩ := Int.eq_ofNat_of_zero_le hc
    have hcount : multiple size c = size * c := by
      rw [multiple_of_small hsize.le (by linarith), mul_comm]
    rcases le_or_gt k c with hle | hlt
    · have hmul : (k : ℤ) * size ≤ size * c := by
        rw [mul_comm size]
        apply mul_le_mul_of_nonneg_right _ hsize.le
        exact_mod_cast hle
      rw [multiple_of_small hsize.le (by linarith)]
      exact_mod_cast hmul
    · exact absurd (hbelow c hlt) (by rw [hcount]; exact lt_irrefl _)

theorem multiple_bounds (size : ℤ) (k : ℕ) :
    -2 ^ 31 ≤ multiple size k ∧ multiple size k < 2 ^ 31 := by
  have hlow := Int.le_bmod (x := k * size) (m := 2 ^ 32) (by norm_num)
  have hhigh := Int.bmod_lt (x := k * size) (m := 2 ^ 32) (by norm_num)
  rw [multiple, wrapInt]
  omega

theorem wrapInt_sub_toUInt32 (n : ℤ) : wrapInt (n - toUInt32 n) = 0 := by
  have hcast : (toUInt32 n : ℤ) = n % 2 ^ 32 := by
    rw [toUInt32]
    omega
  rw [hcast, wrapInt, Int.bmod_def]
  omega

/-- The count of a side is that after some orders to enter, each of which found it below the
limit. -/
def LimitedQty (ppl maxPos : ℚ) (qty : ℤ) : Prop :=
  qty = 0 ∨ ∃ size ∈ toInt (ppl + 1 / 2), ∃ k, (∀ i < k, (multiple size i : ℚ) < maxPos) ∧
    qty = multiple size k

def Limited (leg : Instrument) : Prop :=
  0 ≤ leg.ppl → ∀ isLong, LimitedQty leg.ppl leg.maxPos (leg.openPositionQty isLong)

namespace Limited

variable {leg leg' : Instrument}

theorem congr (h : Limited leg) (haccount : account leg' = account leg) : Limited leg' := by
  obtain ⟨-, hppl, hmax⟩ := sameTerms_of_account haccount
  intro hnonneg isLong
  rw [openPositionQty_congr haccount, hppl, hmax]
  exact h (hppl ▸ hnonneg) isLong

theorem of_standing (h : Limited leg) (heq : standing leg' = standing leg) : Limited leg' :=
  h.congr (congrArg Standing.account heq)

theorem resetPosition (leg : Instrument) : Limited (resetPosition leg) := by
  rintro - (_ | _)
  · exact .inl rfl
  · exact .inl rfl

theorem order (h : Limited leg) (isLong : Bool) (hterms : SameTerms leg leg')
    (hother : leg'.openPositionQty (!isLong) = leg.openPositionQty (!isLong))
    (hown : 0 ≤ leg.ppl → LimitedQty leg.ppl leg.maxPos (leg'.openPositionQty isLong)) :
    Limited leg' := by
  obtain ⟨-, hppl, hmax⟩ := hterms
  intro hnonneg side
  rw [hppl] at hnonneg
  rw [hppl, hmax]
  rcases Bool.eq_or_eq_not side isLong with rfl | rfl
  · exact hown hnonneg
  · rw [hother]
    exact h hnonneg (!isLong)

variable {byteOrder : ByteOrder} {paras : StrategyParameters} {data : CTickData} {now : ℕ}
  {isLong : Bool} {price : ℚ} {state state' : Instrument × FakeOrderManager}

theorem enter (h : Limited state.1) (hbelow : state.1.openPositionQty isLong < state.1.maxPos)
    (htake : enter byteOrder data now isLong price state = some state') : Limited state'.1 := by
  obtain ⟨size, hsize, rfl⟩ := Option.map_eq_some_iff.mp htake
  refine h.order isLong ?_ ?_ fun hnonneg => .inr ⟨size, hsize, ?_⟩
  · cases isLong <;> exact ⟨rfl, rfl, rfl⟩
  · rw [openPositionQty_addPosition, if_neg (by simp)]
  · obtain ⟨-, hlow, hsmall⟩ := toInt_of_nonneg (by linarith) hsize
    rw [openPositionQty_addPosition, if_pos rfl, toUInt32_of_small hlow hsmall]
    rcases h hnonneg isLong with hzero | ⟨size', hsize', k, hfirst, hcount⟩
    · refine ⟨1, fun i hi => ?_, ?_⟩
      · obtain rfl : i = 0 := by omega
        rwa [multiple_zero, ← hzero]
      · rw [multiple_succ, multiple_zero, hzero]
    · obtain rfl := Option.some.inj (hsize'.symm.trans hsize)
      refine ⟨k + 1, fun i hi => ?_, by rw [multiple_succ, hcount]⟩
      rcases Nat.lt_succ_iff_lt_or_eq.mp hi with hlt | rfl
      · exact hfirst i hlt
      · rwa [← hcount]

/-- What an order to leave leaves of a count: one size less, or nothing. -/
theorem qty_of_leave {ppl maxPos : ℚ} {qty size : ℤ} (hppl : 0 ≤ ppl)
    (hqty : LimitedQty ppl maxPos qty) (hheld : qty ≠ 0)
    (hsize : toInt (min (ppl + 1 / 2) qty) = some size) :
    LimitedQty ppl maxPos (wrapInt (qty - toUInt32 size)) := by
  have hlow : 0 ≤ ppl + 1 / 2 := by linarith
  obtain ⟨lot, hlot, k, hfirst, hcount⟩ := hqty.resolve_left hheld
  have hbounds := multiple_bounds lot k
  rw [← hcount] at hbounds
  rcases lt_or_gt_of_ne hheld with hneg | hpos
  · have hmin : min (ppl + 1 / 2) (qty : ℚ) = qty := by
      have : (qty : ℚ) < 0 := by exact_mod_cast hneg
      exact min_eq_right (by linarith)
    rw [hmin, toInt_intCast hbounds.1 hbounds.2] at hsize
    obtain rfl := Option.some.inj hsize
    exact .inl (wrapInt_sub_toUInt32 qty)
  · obtain ⟨hfloor, hnonneg, hsmall⟩ :=
      toInt_of_nonneg (le_min hlow (by exact_mod_cast hpos.le)) hsize
    rw [Int.floor_mono.map_min, Int.floor_intCast, ← (toInt_of_nonneg hlow hlot).1] at hfloor
    rw [toUInt32_of_small hnonneg hsmall]
    rcases le_total lot qty with hle | hle
    · rw [min_eq_left hle] at hfloor
      cases k with
      | zero => exact absurd (hcount.trans (multiple_zero lot)) hheld
      | succ k =>
          refine .inr ⟨lot, hlot, k, fun i hi => hfirst i (by omega), ?_⟩
          rw [hfloor, hcount, wrapInt_multiple_sub]
    · rw [min_eq_right hle] at hfloor
      left
      rw [hfloor, sub_self]
      rfl

theorem leave (h : Limited state.1) (hheld : state.1.openPositionQty isLong ≠ 0)
    (htake : leave byteOrder paras data now isLong price state = some state') :
    Limited state'.1 := by
  obtain ⟨size, hsize, rfl⟩ := Option.map_eq_some_iff.mp htake
  refine h.order isLong ?_ ?_ fun hnonneg => ?_
  · exact (sameTerms_of_account (account_calculatePnl ..)).removePosition isLong _ now
  · rw [openPositionQty_removePosition, if_neg (by simp),
      openPositionQty_congr (account_calculatePnl ..)]
  · rw [openPositionQty_removePosition, if_pos rfl,
      openPositionQty_congr (account_calculatePnl ..)]
    exact qty_of_leave hnonneg (h hnonneg isLong) hheld hsize

theorem invariant (byteOrder : ByteOrder) (libm : MathLibrary) (paras : StrategyParameters) :
    LegInvariant byteOrder libm paras Limited where
  init leg h := by
    by_cases hnight : paras.isOverNight = true
    · exact h.congr (account_initInstrument (.inl hnight))
    · exact (Limited.resetPosition leg).congr (account_initInstrument_day leg hnight)
  prices leg h := h.of_standing (standing_updatePrices libm paras leg)
  count leg h := h.of_standing (standing_countUpdate leg)
  volatility leg h := h.of_standing (standing_updateVolatility paras leg)
  screen data leg h := h.of_standing (standing_screen libm paras data leg)
  reset leg _ := Limited.resetPosition leg
  quote data leg h := h.of_standing (standing_quote data leg)
  opp now below above leg h := h.congr (by unfold countOpp; split_ifs <;> rfl)
  orders data now signals b state state' htaken htake h := by
    unfold Branch.submit at htake
    split_ifs at htake with hopen
    · exact h.enter (of_taken_open hopen htaken).1 htake
    · exact h.leave (of_taken_close (Bool.eq_false_iff.mpr hopen) htaken) htake

end Limited

/-! ### Runs -/

def limited (globalParas : StrategyParameters) (legs : List (Str × LegValues × ℚ))
    (orderManager : FakeOrderManager) : State where
  globalParas := globalParas
  pInstruments := legs.map fun leg => { leg.2.1.set (addInstrument leg.1) with maxPos := leg.2.2 }
  orderManager := orderManager

/-- In every run of every strategy, an instrument with these settings keeps to its limit. -/
def KeepsLimit (ppl maxPos : ℚ) : Prop :=
  ∀ (byteOrder : ByteOrder) (libm : MathLibrary) (self : ℕ) (globalParas : StrategyParameters)
    (legs : List (Str × LegValues × ℚ)) (orderManager : FakeOrderManager)
    (actions : List Action) (s : State),
    Run (step byteOrder libm self) (fun _ _ => True) (limited globalParas legs orderManager)
      actions s →
    ∀ leg ∈ s.pInstruments, leg.ppl = ppl → leg.maxPos = maxPos →
      leg.longOpenPositionQty ≤ maxPos ∧ leg.shortOpenPositionQty ≤ maxPos

/-! ### A strategy that sells on every tick -/

/-- The next tick at a bid of 101 sells if the limit is not reached. -/
structure Selling (ppl maxPos : ℚ) (qty : ℤ) (leg : Instrument) : Prop where
  instIndex : leg.instIndex = 10200000
  isValid : leg.isValid = true
  tickSize : leg.tickSize ≤ 10
  ma : leg.ma = 201 / 2
  maBy10K : leg.maBy10K = 201 / 20000
  preTick : ∀ tick ∈ leg.preTick, tick.totVol = 0
  stoploss : leg.stoploss = false
  canShort : leg.canShort = true
  opp : leg.oppCounterSelf = 0
  ppl : leg.ppl = ppl
  maxPos : leg.maxPos = maxPos
  long : leg.longOpenPositionQty = 0
  short : leg.shortOpenPositionQty = qty

section Selling

variable {ppl maxPos : ℚ} {qty : ℤ} {leg : Instrument}

theorem screen_selling (h : Selling ppl maxPos qty leg) :
    screen exactMath (dayParas true) (quoteTick 101) leg =
      ({ leg with midPrice := 203 / 2, preTick := some (quoteTick 101) }, true) := by
  have hbid : getBidDepth (quoteTick 101) 1 = ⟨101, 10⟩ := rfl
  have hask : getAskDepth (quoteTick 101) 1 = ⟨102, 10⟩ := by norm_num [getAskDepth, quoteTick]
  have hvol : ¬ (quoteTick 101).totVol < (leg.preTick.getD (quoteTick 101)).totVol := by
    cases htick : leg.preTick with
    | none => exact lt_irrefl _
    | some tick => simp [h.preTick tick htick]
  have htick : ¬ (101 : ℚ) < 10 * leg.tickSize := by linarith [h.tickSize]
  have htick' : ¬ (102 : ℚ) < 10 * leg.tickSize := by linarith [h.tickSize]
  unfold screen
  dsimp only
  rw [hbid, hask, if_neg (by simp [h.isValid]), if_neg (by norm_num [htick, htick']),
    if_neg (by rw [h.ma]; norm_num), if_neg (by simp [dayParas]), if_neg hvol,
    if_neg (by rw [h.ma]; norm_num [exactMath, quoteTick, abs_of_nonneg])]
  norm_num

theorem observe_selling (h : Selling ppl maxPos qty leg) :
    ∃ leg', observe exactMath (dayParas true) (quoteTick 101) 36000000 leg = (leg', true) ∧
      Selling ppl maxPos qty leg' ∧ 0 < leg'.selfBp := by
  have hjumps : equityJumps exactMath (dayParas true) (quoteTick 101)
      (leg.preTick.getD (quoteTick 101)) = false := by simp [equityJumps, dayParas]
  have htime : ¬ isValidOppTime (dayParas true) 36000000 = true := by decide
  have hma : leg.maBy10K > 0 := by rw [h.maBy10K]; norm_num
  refine ⟨quote (quoteTick 101)
    { leg with midPrice := 203 / 2, preTick := some (quoteTick 101) }, ?_, ?_, ?_⟩
  · unfold observe
    rw [screen_selling h]
    dsimp only
    rw [hjumps, if_neg htime]
    rfl
  · unfold quote
    dsimp only
    rw [if_pos hma]
    exact { h with preTick := fun tick htick => by rw [← Option.some.inj htick]; rfl }
  · unfold quote
    dsimp only
    rw [if_pos hma]
    dsimp only
    rw [h.ma, h.maBy10K]
    norm_num

theorem idle_selling (h : Selling ppl maxPos qty leg) (hbp : 0 < leg.selfBp) :
    wantsLong (dayParas true) leg = false ∧ leavesLong (dayParas true) leg = false ∧
      leavesShort (dayParas true) leg = false := by
  refine ⟨?_, ?_, ?_⟩
  · simp [wantsLong, not_le.mpr hbp]
  · simp [leavesLong, h.long]
  · simp [leavesShort, h.stoploss, not_le.mpr hbp]

theorem onTick_selling (h : Selling ppl maxPos qty leg) (hbelow : qty < maxPos) {size : ℤ}
    (hppl : 0 ≤ ppl) (hsize : toInt (ppl + 1 / 2) = some size) (byteOrder : ByteOrder)
    (mgr : FakeOrderManager) :
    ∃ state, onTick byteOrder exactMath (dayParas true) (quoteTick 101) 36000000 (leg, mgr) =
      some state ∧ Selling ppl maxPos (wrapInt (qty + size)) state.1 := by
  obtain ⟨leg', hobserve, hleg, hbp⟩ := observe_selling h
  obtain ⟨-, hnonneg, hsmall⟩ := toInt_of_nonneg (by linarith) hsize
  have hqty := toUInt32_of_small hnonneg hsmall
  have hwants : wantsShort (dayParas true) leg' = true := by
    simp [wantsShort, hleg.short, hleg.maxPos, hleg.long, hleg.canShort, hleg.opp, hbelow, hbp.le,
      dayParas]
  unfold onTick
  rw [hobserve]
  dsimp only
  unfold trade doEnter
  rw [if_pos (by decide), if_neg (by simp [hleg.stoploss]), if_pos hwants]
  unfold SingleStrategy.enter
  dsimp only
  rw [hleg.ppl, hsize]
  rw [Option.map_some, Option.bind_some]
  have hsold : Selling ppl maxPos (wrapInt (qty + size))
      (leg'.addPosition false (toUInt32 size) 36000000 leg'.bidPrice) :=
    { hleg with short := congrArg wrapInt (congrArg₂ (· + ·) hleg.short hqty) }
  obtain ⟨hlong, hleaveLong, hleaveShort⟩ := idle_selling hsold hbp
  unfold doExit
  rw [hlong, if_neg Bool.false_ne_true, Option.bind_some, if_pos (by decide), hleaveLong,
    if_neg Bool.false_ne_true, Option.bind_some, hleaveShort, if_neg Bool.false_ne_true,
    Option.bind_some, if_neg (by decide)]
  exact ⟨_, rfl, hsold⟩

theorem step_single {byteOrder : ByteOrder} {libm : MathLibrary} {self : ℕ} {s : State}
    {leg leg' : Instrument} {mgr : FakeOrderManager} {data : CTickData} {now : ℕ}
    (hlegs : s.pInstruments = [leg]) (hinst : leg.instIndex = data.instIndex)
    (htick : onTick byteOrder libm s.globalParas data now (leg, s.orderManager) =
      some (leg', mgr)) :
    step byteOrder libm self s (.marketData data now) =
      some { s with pInstruments := [leg'], orderManager := mgr } := by
  have hfound : s.getInstrumentLeg data.instIndex = some 0 := by
    rw [State.getInstrumentLeg, hlegs, List.findIdx?_cons, if_pos (by simp [hinst])]
  rw [step, State.onMarketData, hfound, Option.bind_some, hlegs]
  dsimp only [List.getElem?_cons_zero]
  rw [Option.bind_some, htick]
  rfl

theorem run_selling {size : ℤ} (hppl : 0 ≤ ppl) (hsize : toInt (ppl + 1 / 2) = some size)
    {k : ℕ} (hfirst : ∀ i < k, (multiple size i : ℚ) < maxPos) {s : State}
    (hparas : s.globalParas = dayParas true) (hlegs : s.pInstruments = [leg])
    (h : Selling ppl maxPos 0 leg) :
    ∃ s' leg', Run (step .littleEndian exactMath 0) (fun _ _ => True) s
        (List.replicate k (.marketData (quoteTick 101) 36000000)) s' ∧
      s'.pInstruments = [leg'] ∧ Selling ppl maxPos (multiple size k) leg' ∧
      s'.globalParas = dayParas true := by
  induction k with
  | zero => exact ⟨s, leg, .nil s, hlegs, by rwa [multiple_zero], hparas⟩
  | succ k ih =>
      obtain ⟨t, leg', hrun, hlegs', hleg', hparas'⟩ := ih fun i hi => hfirst i (by omega)
      obtain ⟨⟨sold, mgr⟩, htick, hsold⟩ := onTick_selling hleg' (hfirst k k.lt_succ_self) hppl
        hsize .littleEndian t.orderManager
      have hstep : step .littleEndian exactMath 0 t (.marketData (quoteTick 101) 36000000) =
          some { t with pInstruments := [sold], orderManager := mgr } :=
        step_single hlegs' hleg'.instIndex (hparas' ▸ htick)
      refine ⟨{ t with pInstruments := [sold], orderManager := mgr }, sold, ?_, rfl,
        by rwa [multiple_succ], hparas'⟩
      rw [List.replicate_succ']
      exact hrun.append (.cons trivial hstep (.nil _))

def firstLeg (ppl maxPos : ℚ) : Instrument :=
  { (⟨ppl, 1, 1 / 2, 0, 5⟩ : LegValues).set (addInstrument ['a']) with maxPos := maxPos }

theorem instIndex_firstLeg (ppl maxPos : ℚ) : (firstLeg ppl maxPos).instIndex = 10200000 := by
  change getInstrumentIndex ['a'] = 10200000
  decide +kernel

theorem tickSize_firstLeg (ppl maxPos : ℚ) : (firstLeg ppl maxPos).tickSize = 1 := by
  change getInstrumentTickSize (getInstrumentIndex ['a']) = 1
  decide +kernel

def averagedLeg (ppl maxPos : ℚ) : Instrument :=
  { firstLeg ppl maxPos with
    midPrice := 201 / 2
    ma := 201 / 2
    maBy10K := 201 / 20000
    lastPx := 201 / 2 }

theorem selling_averagedLeg (ppl maxPos : ℚ) :
    Selling ppl maxPos 0 (averagedLeg ppl maxPos) where
  instIndex := instIndex_firstLeg ppl maxPos
  isValid := rfl
  tickSize := (tickSize_firstLeg ppl maxPos).trans_le (by norm_num)
  ma := rfl
  maBy10K := rfl
  preTick tick htick := by cases htick
  stoploss := rfl
  canShort := rfl
  opp := rfl
  ppl := rfl
  maxPos := rfl
  long := rfl
  short := rfl

theorem screen_firstLeg (ppl maxPos : ℚ) :
    screen exactMath (dayParas true) (quoteTick 100) (firstLeg ppl maxPos) =
      (averagedLeg ppl maxPos, false) := by
  have hbid : getBidDepth (quoteTick 100) 1 = ⟨100, 10⟩ := rfl
  have hask : getAskDepth (quoteTick 100) 1 = ⟨101, 10⟩ := by norm_num [getAskDepth, quoteTick]
  unfold screen
  dsimp only
  rw [hbid, hask, tickSize_firstLeg, if_neg (by simp [firstLeg, LegValues.set, addInstrument]),
    if_neg (by norm_num), if_pos (by norm_num [firstLeg, LegValues.set, addInstrument])]
  norm_num [averagedLeg, tickSize_firstLeg]

theorem step_firstLeg (ppl maxPos : ℚ) :
    ∃ s leg, step .littleEndian exactMath 0
        (limited (dayParas true) [(['a'], ⟨ppl, 1, 1 / 2, 0, 5⟩, maxPos)] (newManager 0))
        (.marketData (quoteTick 100) 36000000) = some s ∧
      s.globalParas = dayParas true ∧ s.pInstruments = [leg] ∧ Selling ppl maxPos 0 leg := by
  let s := limited (dayParas true) [(['a'], ⟨ppl, 1, 1 / 2, 0, 5⟩, maxPos)] (newManager 0)
  have htick : onTick .littleEndian exactMath s.globalParas (quoteTick 100) 36000000
      (firstLeg ppl maxPos, s.orderManager) = some (averagedLeg ppl maxPos, s.orderManager) := by
    unfold onTick observe
    dsimp only
    rw [show s.globalParas = dayParas true from rfl, screen_firstLeg]
  exact ⟨{ s with pInstruments := [averagedLeg ppl maxPos] }, averagedLeg ppl maxPos,
    step_single rfl (instIndex_firstLeg ppl maxPos) htick, rfl, rfl, selling_averagedLeg ppl maxPos⟩

end Selling

theorem limited_start {globalParas : StrategyParameters} {legs : List (Str × LegValues × ℚ)}
    {orderManager : FakeOrderManager} :
    ∀ leg ∈ (limited globalParas legs orderManager).pInstruments, Limited leg := by
  refine List.forall_mem_map.mpr fun leg _ => ?_
  rintro - (_ | _)
  · exact .inl rfl
  · exact .inl rfl

/-- The limit is kept if and only if the multiples of the size of an order reach it. -/
theorem keepsLimit_iff {ppl maxPos : ℚ} (hppl : 0 ≤ ppl) (hmax : 0 ≤ maxPos) :
    KeepsLimit ppl maxPos ↔ ∀ size ∈ toInt (ppl + 1 / 2), FirstMultipleFits size maxPos := by
  constructor
  · intro h size hsize k hfirst
    obtain ⟨s, leg, hstep, hparas, hlegs, hleg⟩ := step_firstLeg ppl maxPos
    obtain ⟨s', leg', hrun, hlegs', hleg', -⟩ :=
      run_selling hppl hsize hfirst hparas hlegs hleg
    have hshort := (h _ _ _ _ _ _ _ s' (.cons trivial hstep hrun) leg' (by simp [hlegs'])
      hleg'.ppl hleg'.maxPos).2
    rwa [hleg'.short] at hshort
  · intro h byteOrder libm self globalParas legs orderManager actions s hrun leg hleg hpplEq hmaxEq
    obtain ⟨events, hevents⟩ := run_stepBy hrun
    have hlimited := (LegInvariant.run
      (fun totalPos counter => Limited.invariant byteOrder libm
        { globalParas with totalPos := totalPos, counter := counter })
      rfl limited_start hevents).2 leg hleg
    have hle : ∀ isLong, (leg.openPositionQty isLong : ℚ) ≤ maxPos := by
      intro isLong
      rcases hlimited (hpplEq ▸ hppl) isLong with hzero | ⟨size, hsize, k, hfirst, hcount⟩
      · rw [hzero]
        exact_mod_cast hmax
      · rw [hpplEq] at hsize
        rw [hmaxEq] at hfirst
        rw [hcount]
        exact h size hsize k hfirst
    exact ⟨hle true, hle false⟩

theorem keepsLimit_oneLot : KeepsLimit 1 1 := by
  refine (keepsLimit_iff (by norm_num) (by norm_num)).mpr fun size hsize => ?_
  have hone : toInt (1 + 1 / 2) = some 1 := by decide +kernel
  obtain rfl := Option.some.inj (hone.symm.trans hsize)
  exact_mod_cast (@firstMultipleFits_iff 1 1 (by norm_num) (by norm_num)
    (by norm_num)).mpr (dvd_refl 1)

/-- Two lots at a time exceed a limit of one. -/
theorem not_keepsLimit_twoLots :
    ¬ ∀ ppl maxPos : ℚ, 0 ≤ ppl → 0 ≤ maxPos → KeepsLimit ppl maxPos := by
  intro h
  have hexecute : ((Run.execute (step .littleEndian exactMath 0) (fun _ _ => True)
      (limited (dayParas true) [(['a'], ⟨2, 1, 1 / 2, 0, 5⟩, 1)] (newManager 0))
      [.marketData (quoteTick 100) 36000000, .marketData (quoteTick 101) 36000000]).map fun s =>
        s.pInstruments.map fun leg => (leg.ppl, leg.maxPos, leg.shortOpenPositionQty)) =
      some [(2, 1, 2)] := by
    decide +kernel
  obtain ⟨s, hrun, hlegs⟩ := Run.exists_of_execute_map hexecute
  obtain ⟨leg, hmem, heq⟩ := List.exists_of_mem_map
    (hlegs ▸ List.mem_singleton_self ((2 : ℚ), (1 : ℚ), (2 : ℤ)))
  simp only [Prod.mk.injEq] at heq
  have hshort := (h 2 1 (by norm_num) (by norm_num) _ _ _ _ _ _ _ s hrun leg hmem heq.1
    heq.2.1).2
  rw [heq.2.2] at hshort
  norm_num at hshort

end BluesTrading.StrategyLimit
