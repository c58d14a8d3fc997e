import BluesTrading.LegRuns
import BluesTrading.StrategyDay

/-!
The backtest of a strategy.  What the replayed days call in it makes a run of the strategy, so
what is proved of runs is true of backtests; each instrument has the results that it would have
in a test of its own over its own ticks.
-/

namespace BluesTrading.Backtest

open BluesTrading.Foundations
open BluesTrading.Foundations.SortedMerge
open BluesTrading.BookEntries
open BluesTrading.LegRuns
open BluesTrading.MarketDataReplayer
open BluesTrading.OrderData
open BluesTrading.OrderManager
open BluesTrading.PositionBook
open BluesTrading.PositionManager
open BluesTrading.SingleStrategy
open BluesTrading.SourceText
open BluesTrading.StrategyDay
open BluesTrading.StrategyExposure
open BluesTrading.StrategyLedger
open BluesTrading.StrategyOrders
open BluesTrading.StrategyTiming
open BluesTrading.TimerProvider

/-- A line that `onEndDay` gives to the logger, with the instrument as its index. -/
structure EodRow where
  instrument : ℕ
  date : ℕ
  maWeight : ℚ
  ppl : ℚ
  enterSig : ℚ
  numTrades : ℤ
  pnl : ℚ
  oppCounterSelf : ℤ
  tradeCount : ℕ
  positionPnl : ℚ

def eodRow (date : ℕ) (paras : StrategyParameters) (m : TestPositionManager) (leg : Instrument) :
    EodRow where
  instrument := leg.instIndex
  date := date
  maWeight := paras.maWeight
  ppl := leg.ppl
  enterSig := leg.enterSig
  numTrades := leg.numTrades
  pnl := leg.pnl
  oppCounterSelf := leg.oppCounterSelf
  tradeCount := (m.getPosition leg.instIndex).1.tradeCount
  positionPnl := (m.getPosition leg.instIndex).1.getPositionPnl

structure Logged where
  state : State
  rows : List EodRow

def action : Call → Action
  | .startDay => .startDay
  | .startDayBook date => .startDayBook date
  | .marketData data now => .marketData data now
  | .marketDataBook data => .marketDataBook data
  | .timer eventID => .timer eventID
  | .endDay _ => .endDay

/-- One line for each instrument, in their order. -/
def logged : Call → State → List EodRow
  | .endDay date, s => s.pInstruments.map (eodRow date s.globalParas s.orderManager.posMgr)
  | _, _ => []

section Instance

variable (byteOrder : ByteOrder) (libm : MathLibrary) (self book : ℕ)

def Logged.call (l : Logged) (c : Call) : Option Logged :=
  (step byteOrder libm self l.state (action c)).map fun s => ⟨s, l.rows ++ logged c l.state⟩

def strategyCallbacks : Consumers (Option Logged) :=
  callbacks (fun l c => l.bind fun l => l.call byteOrder libm self c) self book

/-- The strategy and its log at the end of a test. -/
def Results (tickConsumers : List ℕ) (s : State) (days : List MarketDataReplayerMultiThread)
    (l : Logged) : Prop :=
  ∃ v, (∀ᶠ fuel in Filter.atTop, replayDays (strategyCallbacks byteOrder libm self book) fuel
      tickConsumers days (registered self book (some ⟨s, []⟩)) = some v) ∧ v.state = some l

def calls (tickConsumers : List ℕ) (days : List MarketDataReplayerMultiThread) : List Call :=
  testCalls self book (keys (registered self book ())) tickConsumers days

end Instance

theorem foldl_bind_iff_run {σ α : Type} {step : σ → α → Option σ} {s t : σ} {as : List α} :
    as.foldl (fun o a => o.bind fun s => step s a) (some s) = some t ↔
      Run step (fun _ _ => True) s as t := by
  have hnone : ∀ as : List α, as.foldl (fun o a => o.bind fun s => step s a) none = none := by
    intro as
    induction as with
    | nil => rfl
    | cons a as ih => exact ih
  induction as generalizing s with
  | nil =>
      constructor
      · intro h
        obtain rfl := Option.some.inj h
        exact .nil _
      · rintro ⟨⟩
        rfl
  | cons a as ih =>
      rw [List.foldl_cons, Option.bind_some]
      constructor
      · intro h
        cases htake : step s a with
        | none =>
            rw [htake, hnone] at h
            cases h
        | some u =>
            rw [htake] at h
            exact .cons trivial htake (ih.mp h)
      · rintro (_ | ⟨-, htake, hrest⟩)
        rw [htake]
        exact ih.mpr hrest

/-! ### A test is a run -/

section Run

variable {byteOrder : ByteOrder} {libm : MathLibrary} {self book : ℕ} {tickConsumers : List ℕ}
  {s : State} {days : List MarketDataReplayerMultiThread}

/-- A test comes to an end, and what it ends in is what a run over its calls ends in. -/
theorem exists_results_iff_run (byteOrder : ByteOrder) (libm : MathLibrary) (self book : ℕ)
    (tickConsumers : List ℕ) (s : State) (hdays : ∀ day ∈ days, Replayable day) :
    ∃ v, (∀ᶠ fuel in Filter.atTop, replayDays (strategyCallbacks byteOrder libm self book) fuel
        tickConsumers days (registered self book (some ⟨s, []⟩)) = some v) ∧
      ∀ l, v.state = some l ↔ Run (fun l c => l.call byteOrder libm self c) (fun _ _ => True)
        ⟨s, []⟩ (calls self book tickConsumers days) l := by
  obtain ⟨v, hreplay, -, hstate⟩ := (rested_registered self book (some (Logged.mk s []))).replayDays
    (fun l c => l.bind fun l => l.call byteOrder libm self c) book
    (mem_keys_registered self book _) hdays tickConsumers
  refine ⟨v, hreplay, fun l => ?_⟩
  rw [hstate]
  exact foldl_bind_iff_run

def goldTicks : List CTickData :=
  [{ quoteTick 100 with timeInMS := 36000000 }, { quoteTick 101 with timeInMS := 36000500 }]

def copperTicks : List CTickData :=
  [{ copperTick 50000 with timeInMS := 36000000 }, { copperTick 50100 with timeInMS := 36000250 }]

def pairStores : List MarketDataStore :=
  [⟨10200000, 20150105, 1, goldTicks⟩, ⟨5240000, 20150105, 1, copperTicks⟩]

def pairReplayer : MarketDataReplayerMultiThread := .loaded 20150105 pairStores

/-- Of two ticks of the same time the one that is loaded later comes first. -/
theorem allTicks_pairReplayer :
    pairReplayer.allTicks = copperTicks.take 1 ++ goldTicks.take 1 ++ copperTicks.drop 1 ++
      goldTicks.drop 1 := by
  simp [pairReplayer, pairStores, goldTicks, copperTicks, MarketDataReplayerMultiThread.loaded,
    MarketDataReplayerMultiThread.create, MarketDataReplayerMultiThread.addDataStore]

theorem replayable_pairReplayer : ∀ day ∈ [pairReplayer], Replayable day := by
  refine List.forall_mem_singleton.mpr ⟨by decide, ?_⟩
  rw [allTicks_pairReplayer]
  decide

theorem results_iff_run (hdays : ∀ day ∈ days, Replayable day) {l : Logged} :
    Results byteOrder libm self book tickConsumers s days l ↔
      Run (fun l c => l.call byteOrder libm self c) (fun _ _ => True) ⟨s, []⟩
        (calls self book tickConsumers days) l := by
  obtain ⟨v, hreplay, hstate⟩ :=
    exists_results_iff_run byteOrder libm self book tickConsumers s hdays
  constructor
  · rintro ⟨v', hreplay', hl⟩
    obtain ⟨fuel, hfuel, hfuel'⟩ := (hreplay.and hreplay').exists
    obtain rfl := Option.some.inj (hfuel.symm.trans hfuel')
    exact (hstate l).mp hl
  · exact fun hrun => ⟨v, hreplay, (hstate l).mpr hrun⟩

theorem run_step_of_run_call {l l' : Logged} {cs : List Call}
    (hrun : Run (fun l c => l.call byteOrder libm self c) (fun _ _ => True) l cs l') :
    Run (step byteOrder libm self) (fun _ _ => True) l.state (cs.map action) l'.state := by
  induction hrun with
  | nil l => exact .nil l.state
  | cons _ htake _ ih =>
      obtain ⟨s, hstep, rfl⟩ := Option.map_eq_some_iff.mp htake
      exact .cons trivial hstep ih

theorem exists_run_call {l : Logged} {s' : State} {cs : List Call}
    (hrun : Run (step byteOrder libm self) (fun _ _ => True) l.state (cs.map action) s') :
    ∃ l', Run (fun l c => l.call byteOrder libm self c) (fun _ _ => True) l cs l' ∧
      l'.state = s' := by
  induction cs generalizing l with
  | nil =>
      cases hrun with
      | nil => exact ⟨l, .nil l, rfl⟩
  | cons c cs ih =>
      cases hrun with
      | @cons _ t _ _ _ _ htake hrest =>
          have hcall :=
            congrArg (Option.map fun s => Logged.mk s (l.rows ++ logged c l.state)) htake
          obtain ⟨l', hrun', hstate⟩ := ih (l := ⟨t, l.rows ++ logged c l.state⟩) hrest
          exact ⟨l', .cons trivial hcall hrun', hstate⟩

def endDate : Call → Option ℕ
  | .endDay date => some date
  | _ => none

/-- At the end of every day there is a line for each instrument, in their order. -/
theorem headings_of_run {l l' : Logged} {cs : List Call}
    (hrun : Run (fun l c => l.call byteOrder libm self c) (fun _ _ => True) l cs l') :
    l'.rows.map (fun row => (row.date, row.instrument)) =
      l.rows.map (fun row => (row.date, row.instrument)) ++
        (cs.filterMap endDate).flatMap fun date =>
          (l.state.pInstruments.map (·.instIndex)).map (Prod.mk date) := by
  induction hrun with
  | nil l => simp
  | @cons l _ _ c cs _ htake _ ih =>
      obtain ⟨s, hstep, rfl⟩ := Option.map_eq_some_iff.mp htake
      rw [ih, indexes_step byteOrder libm self hstep, List.map_append]
      cases c with
      | endDay date =>
          have hends : (Call.endDay date :: cs).filterMap endDate = date :: cs.filterMap endDate :=
            rfl
          rw [hends, List.flatMap_cons, ← List.append_assoc, logged, List.map_map, List.map_map]
          rfl
      | _ => exact congrArg (· ++ _) (List.append_nil _)

end Run

/-! ### A test comes to its end -/

section Ends

variable {globalParas : StrategyParameters} {legs : List (Str × LegValues)}
  {orderManager : FakeOrderManager}

theorem exists_run_configured (byteOrder : ByteOrder) (libm : MathLibrary) (self : ℕ)
    (hthreshold : 0 ≤ globalParas.thresholdSelf)
    (hppl : ∀ leg ∈ legs, 0 ≤ leg.2.ppl ∧ leg.2.ppl < 2 ^ 31 - 1) {actions : List Action}
    (haddressed : ∀ a ∈ actions, Addressed
      ((State.configured globalParas legs orderManager).pInstruments.map (·.instIndex)) a) :
    ∃ s, Run (step byteOrder libm self) (fun _ _ => True)
      (.configured globalParas legs orderManager) actions s := by
  generalize hindexes : (State.configured globalParas legs orderManager).pInstruments.map
    (·.instIndex) = indexes at haddressed
  refine Run.exists_of_enabled (I := fun s => s.pInstruments.map (·.instIndex) = indexes ∧
    (∃ totalPos counter,
      s.globalParas = { globalParas with totalPos := totalPos, counter := counter }) ∧
    ∀ leg ∈ s.pInstruments, Exposed globalParas.thresholdSelf leg) ?_
    ⟨hindexes, ⟨globalParas.totalPos, globalParas.counter, rfl⟩,
      Exposed.exposed_configured hthreshold hppl⟩
  rintro s ⟨hsame, ⟨totalPos, counter, hparas⟩, hlegs⟩ a ha
  have hthere : ∀ leg ∈ s.pInstruments, Exposed s.globalParas.thresholdSelf leg := by
    rwa [hparas]
  have htakes : ∃ t, step byteOrder libm self s a = some t := by
    cases a with
    | marketData data now =>
        have hleg := (exists_tickLeg_iff s data.instIndex).mpr (hsame ▸ haddressed _ ha)
        rw [step_eq]
        exact Option.isSome_iff_exists.mp
          (Exposed.isSome_onMarketDataBy hthere (Option.isSome_iff_exists.mpr hleg) now _)
    | otherRequest request =>
        refine ⟨_, if_neg ?_⟩
        rintro ⟨leg, hleg, heq⟩
        exact haddressed _ ha leg.instIndex (hsame ▸ List.mem_map.mpr ⟨leg, hleg, rfl⟩) heq
    | _ => exact ⟨_, rfl⟩
  obtain ⟨t, htake⟩ := htakes
  refine ⟨trivial, t, htake, (indexes_step byteOrder libm self htake).trans hsame, ?_⟩
  rw [step_eq] at htake
  obtain ⟨totalPos', counter', hnew⟩ := globalParas_stepBy htake
  have hkept := (Exposed.invariant byteOrder libm s.globalParas).stepBy htake hthere
  rw [hparas] at hnew hkept
  exact ⟨⟨totalPos', counter', hnew⟩, hkept⟩

variable {self book : ℕ} {tickConsumers : List ℕ}

theorem endCalls_eq {date : ℕ} {consumers : List ℕ} (hself : self ∈ consumers)
    (hnodup : consumers.Nodup) : endCalls self date consumers = [.endDay date] := by
  have hnone : ∀ others : List ℕ, self ∉ others → endCalls self date others = [] := by
    intro others hothers
    refine List.flatMap_eq_nil_iff.mpr fun consumer hmem => if_neg ?_
    rintro rfl
    exact hothers hmem
  obtain ⟨before, after, rfl⟩ := List.append_of_mem hself
  obtain ⟨-, hlater, hapart⟩ := List.nodup_append.mp hnodup
  have hbefore : self ∉ before := fun hmem => hapart self hmem self (List.mem_cons_self ..) rfl
  have hbegin := hnone before hbefore
  have hend := hnone after (List.nodup_cons.mp hlater).1
  rw [endCalls] at hbegin hend ⊢
  rw [List.flatMap_append, List.flatMap_cons, hbegin, hend, if_pos rfl]
  rfl

theorem filterMap_endDate_calls (self book : ℕ) (tickConsumers : List ℕ)
    (days : List MarketDataReplayerMultiThread) :
    (calls self book tickConsumers days).filterMap endDate = days.map (·.date) := by
  have hday : ∀ day : MarketDataReplayerMultiThread,
      (dayCalls self book (keys (registered self book ())) tickConsumers day.date
        day.allTicks).filterMap endDate = [day.date] := by
    intro day
    rw [dayCalls, endCalls_eq (mem_keys_registered self book ()) (OrderedMap.keys_nodup _),
      List.filterMap_append, List.filterMap_append, List.filterMap_eq_nil_iff.mpr,
      List.filterMap_eq_nil_iff.mpr]
    · rfl
    · intro c hc
      obtain ⟨k, rfl⟩ | ⟨tick, -, hc⟩ := of_mem_tradingCalls hc
      · rfl
      · obtain rfl | rfl := of_mem_tickCalls hc
        · rfl
        · rfl
    · intro c hc
      obtain rfl | rfl := of_mem_startCalls hc
      · rfl
      · rfl
  rw [calls, testCalls, List.filterMap_flatMap, List.flatMap_congr fun day _ => hday day]
  exact List.map_eq_flatMap.symm

/-- What a test calls is addressed to a strategy that has the instruments of its ticks. -/
theorem addressed_calls {indexes : List ℕ} {days : List MarketDataReplayerMultiThread}
    (hticks : ∀ day ∈ days, ∀ tick ∈ day.allTicks, tick.instIndex ∈ indexes) :
    ∀ a ∈ (calls self book tickConsumers days).map action, Addressed indexes a := by
  refine List.forall_mem_map.mpr fun c hc => ?_
  obtain ⟨day, hday, hc⟩ := List.mem_flatMap.mp hc
  rcases List.mem_append.mp hc with hc | hc
  · obtain rfl | rfl := of_mem_startCalls hc
    · trivial
    · trivial
  · rcases List.mem_append.mp hc with hc | hc
    · obtain ⟨k, rfl⟩ | ⟨tick, htick, hc⟩ := of_mem_tradingCalls hc
      · trivial
      · obtain rfl | rfl := of_mem_tickCalls hc
        · exact hticks day hday tick htick
        · trivial
    · obtain rfl := of_mem_endCalls hc
      trivial

theorem exists_run_calls (byteOrder : ByteOrder) (libm : MathLibrary) (self book : ℕ)
    (tickConsumers : List ℕ) (hthreshold : 0 ≤ globalParas.thresholdSelf)
    (hppl : ∀ leg ∈ legs, 0 ≤ leg.2.ppl ∧ leg.2.ppl < 2 ^ 31 - 1)
    {days : List MarketDataReplayerMultiThread}
    (hticks : ∀ day ∈ days, ∀ tick ∈ day.allTicks, tick.instIndex ∈
      (State.configured globalParas legs orderManager).pInstruments.map (·.instIndex)) :
    ∃ l, Run (fun (l : Logged) c => l.call byteOrder libm self c) (fun _ _ => True)
      ⟨.configured globalParas legs orderManager, []⟩ (calls self book tickConsumers days) l := by
  obtain ⟨s, hrun⟩ := exists_run_configured byteOrder libm self hthreshold hppl
    (addressed_calls hticks)
  obtain ⟨l, hcalls, -⟩ := exists_run_call (l := ⟨.configured globalParas legs orderManager, []⟩)
    hrun
  exact ⟨l, hcalls⟩

/-- A test of a configured strategy over ticks of its instruments comes to its end, and its log
has for every day one line for each of the instruments, in their order. -/
theorem exists_results (byteOrder : ByteOrder) (libm : MathLibrary) (self book : ℕ)
    (tickConsumers : List ℕ) (hthreshold : 0 ≤ globalParas.thresholdSelf)
    (hppl : ∀ leg ∈ legs, 0 ≤ leg.2.ppl ∧ leg.2.ppl < 2 ^ 31 - 1)
    {days : List MarketDataReplayerMultiThread} (hdays : ∀ day ∈ days, Replayable day)
    (hticks : ∀ day ∈ days, ∀ tick ∈ day.allTicks, tick.instIndex ∈
      (State.configured globalParas legs orderManager).pInstruments.map (·.instIndex)) :
    ∃ l, Results byteOrder libm self book tickConsumers (.configured globalParas legs orderManager)
        days l ∧
      l.rows.map (fun row => (row.date, row.instrument)) = days.flatMap fun day =>
        ((State.configured globalParas legs orderManager).pInstruments.map (·.instIndex)).map
          (Prod.mk day.date) := by
  obtain ⟨l, hcalls⟩ :=
    exists_run_calls byteOrder libm self book tickConsumers hthreshold hppl hticks
  refine ⟨l, (results_iff_run hdays).mpr hcalls, ?_⟩
  rw [headings_of_run hcalls, filterMap_endDate_calls, List.flatMap_map]
  rfl

theorem indexes_pairReplayer : ∀ day ∈ [pairReplayer], ∀ tick ∈ day.allTicks,
    tick.instIndex ∈ pair.pInstruments.map (·.instIndex) := by
  refine List.forall_mem_singleton.mpr ?_
  rw [allTicks_pairReplayer]
  decide +kernel

theorem results_pairReplayer :
    ∃ l, Results .littleEndian exactMath 0 1 [0, 1] pair [pairReplayer] l := by
  obtain ⟨l, hcalls⟩ := exists_run_calls .littleEndian exactMath 0 1 [0, 1] (by decide)
    (by decide +kernel) indexes_pairReplayer
  exact ⟨l, (results_iff_run replayable_pairReplayer).mpr hcalls⟩

end Ends

/-! ### One instrument of a test -/

structure LoggedAlone (inst : ℕ) (l m : Logged) : Prop where
  alone : Alone inst l.state m.state
  once : (l.state.pInstruments.map (·.instIndex)).count inst = 1
  rows : m.rows = l.rows.filter fun row => row.instrument = inst

section Project

variable {byteOrder : ByteOrder} {libm : MathLibrary} {self inst : ℕ}

theorem filter_legs {s : State} {leg : Instrument} (hleg : tickLeg s inst = some leg)
    (honce : (s.pInstruments.map (·.instIndex)).count inst = 1) :
    s.pInstruments.filter (fun leg => leg.instIndex = inst) = [leg] := by
  have hlength : (s.pInstruments.filter fun leg => leg.instIndex = inst).length = 1 := by
    rw [← List.countP_eq_length_filter, ← honce, List.count, List.countP_map]
    rfl
  obtain ⟨only, honly⟩ := List.length_eq_one_iff.mp hlength
  rw [tickLeg_eq_find?, ← List.head?_filter, honly] at hleg
  rw [honly, Option.some.inj hleg]

theorem LoggedAlone.logged_eq {l m : Logged} (h : LoggedAlone inst l m) (c : Call) :
    logged c m.state = (logged c l.state).filter fun row => row.instrument = inst := by
  cases c with
  | endDay date =>
      obtain ⟨leg, hleg, hlegs⟩ := h.alone.leg
      obtain ⟨-, hindex⟩ := instIndex_of_tickLeg hleg
      have hrow : eodRow date m.state.globalParas m.state.orderManager.posMgr leg =
          eodRow date l.state.globalParas l.state.orderManager.posMgr leg := by
        rw [congr_of_apart (f := (eodRow date · m.state.orderManager.posMgr leg)) (fun _ => rfl)
          h.alone.globalParas, eodRow, eodRow, hindex, h.alone.entry.getPosition]
      rw [logged, logged, List.filter_map, hlegs, List.map_singleton, hrow]
      exact congrArg (List.map _) (filter_legs hleg h.once).symm
  | _ => rfl

theorem loggedAlone_projects : Projects (fun l c => l.call byteOrder libm self c)
    (fun _ _ => True) (fun l c => l.call byteOrder libm self c) (fun _ _ => True)
    (fun c => concerns inst (action c)) (LoggedAlone inst) where
  seen {l m c l'} hlink hsees _ htake := by
    obtain ⟨s', hstep, rfl⟩ := Option.map_eq_some_iff.mp htake
    obtain ⟨t', hstep', halone⟩ := hlink.alone.seen byteOrder libm self inst hsees hstep
    refine ⟨⟨t', m.rows ++ logged c m.state⟩, trivial, ?_, halone, ?_, ?_⟩
    · rw [Logged.call, hstep']
      rfl
    · rw [indexes_step byteOrder libm self hstep, hlink.once]
    · rw [hlink.rows, hlink.logged_eq, List.filter_append]
  unseen {l m c l'} hlink hsees _ htake := by
    obtain ⟨s', hstep, rfl⟩ := Option.map_eq_some_iff.mp htake
    have hsilent : logged c l.state = [] := by
      cases c with
      | endDay date => cases hsees
      | _ => rfl
    refine ⟨hlink.alone.unseen byteOrder libm self inst hsees hstep, ?_, ?_⟩
    · rw [indexes_step byteOrder libm self hstep, hlink.once]
    · rw [hsilent, List.append_nil, hlink.rows]

end Project

/-! ### The calls of one instrument -/

section Calls

variable {self book inst : ℕ} {tickConsumers : List ℕ}

def sees (inst : ℕ) (c : Call) : Bool := concerns inst (action c)

/-- The day as it is for one instrument. -/
def onlyTicks (inst : ℕ) (day : MarketDataReplayerMultiThread) : MarketDataReplayerMultiThread :=
  { day with allTicks := day.allTicks.filter fun tick => tick.instIndex = inst }

theorem ordered_onlyTicks {day : MarketDataReplayerMultiThread} (h : Ordered day.allTicks)
    (inst : ℕ) : Ordered (onlyTicks inst day).allTicks :=
  ⟨h.1.filter _, fun tick hmem => h.2 tick (List.mem_of_mem_filter hmem)⟩

theorem filter_timerCalls (first last : ℕ) :
    (timerCalls first last).filter (sees inst) = timerCalls first last := by
  refine List.filter_eq_self.mpr fun c hc => ?_
  obtain ⟨k, rfl⟩ := of_mem_timerCalls hc
  rfl

theorem filter_tickCalls (tick : CTickData) :
    (tickCalls self book tickConsumers tick).filter (sees inst) =
      if tick.instIndex = inst then tickCalls self book tickConsumers tick else [] := by
  have hsees : ∀ c ∈ tickCalls self book tickConsumers tick,
      sees inst c = decide (tick.instIndex = inst) := by
    intro c hc
    obtain rfl | rfl := of_mem_tickCalls hc
    · rfl
    · rfl
  split_ifs with hinst
  · exact List.filter_eq_self.mpr fun c hc => (hsees c hc).trans (decide_eq_true hinst)
  · refine List.filter_eq_nil_iff.mpr fun c hc => ?_
    rw [hsees c hc]
    simpa using hinst

/-- Timers that are due before the next tick may as well go off later. -/
theorem timerCalls_tradingCalls {fired mid : ℕ} {ticks : List CTickData} (hmid : fired ≤ mid)
    (hticks : ∀ tick ∈ ticks, mid ≤ due tick.timeInMS) (hlast : mid ≤ due lastMs) :
    timerCalls fired mid ++ tradingCalls self book tickConsumers mid ticks =
      tradingCalls self book tickConsumers fired ticks := by
  cases ticks with
  | nil =>
      rw [tradingCalls, tradingCalls, max_eq_right hlast, max_eq_right (hmid.trans hlast),
        timerCalls_append hmid hlast]
  | cons tick ticks =>
      have hnext := hticks tick (List.mem_cons_self ..)
      rw [tradingCalls, tradingCalls, max_eq_right hnext, max_eq_right (hmid.trans hnext),
        ← List.append_assoc, timerCalls_append hmid hnext]

theorem filter_tradingCalls {fired : ℕ} {ticks : List CTickData} (hordered : Ordered ticks)
    (hticks : ∀ tick ∈ ticks, fired ≤ due tick.timeInMS) (hlast : fired ≤ due lastMs) :
    (tradingCalls self book tickConsumers fired ticks).filter (sees inst) =
      tradingCalls self book tickConsumers fired
        (ticks.filter fun tick => tick.instIndex = inst) := by
  induction ticks generalizing fired with
  | nil => exact filter_timerCalls _ _
  | cons tick ticks ih =>
      obtain ⟨hsorted, hbound⟩ := hordered
      obtain ⟨hbefore, hsorted⟩ := List.pairwise_cons.mp hsorted
      obtain ⟨htick, hbound⟩ := List.forall_mem_cons.mp hbound
      have hdue := hticks tick (List.mem_cons_self ..)
      have hlater : ∀ later ∈ ticks, due tick.timeInMS ≤ due later.timeInMS :=
        fun later hmem => due_mono (hbefore later hmem)
      rw [tradingCalls, List.filter_append, List.filter_append, filter_timerCalls,
        filter_tickCalls, max_eq_right hdue, ih ⟨hsorted, hbound⟩ hlater (due_mono htick)]
      by_cases hinst : tick.instIndex = inst
      · rw [if_pos hinst, List.filter_cons_of_pos (by simpa using hinst), tradingCalls,
          max_eq_right hdue]
      · rw [if_neg hinst, List.filter_cons_of_neg (by simpa using hinst), List.nil_append]
        refine timerCalls_tradingCalls hdue (fun later hmem => ?_) (due_mono htick)
        exact hlater later (List.mem_of_mem_filter hmem)

/-- The calls of a test that an instrument has a part in are those of the test over its ticks. -/
theorem filter_calls {days : List MarketDataReplayerMultiThread}
    (hordered : ∀ day ∈ days, Ordered day.allTicks) :
    (calls self book tickConsumers days).filter (sees inst) =
      calls self book tickConsumers (days.map (onlyTicks inst)) := by
  have hall : ∀ {cs : List Call}, (∀ c ∈ cs, sees inst c = true) → cs.filter (sees inst) = cs :=
    List.filter_eq_self.mpr
  rw [calls, calls, testCalls, testCalls, List.filter_flatMap, List.flatMap_map]
  refine List.flatMap_congr fun day hday => ?_
  rw [dayCalls, List.filter_append, List.filter_append,
    filter_tradingCalls (hordered day hday) (fun _ _ => Nat.zero_le _) (Nat.zero_le _), hall, hall]
  · rfl
  · intro c hc
    obtain rfl := of_mem_endCalls hc
    rfl
  · intro c hc
    obtain rfl | rfl := of_mem_startCalls hc
    · rfl
    · rfl

end Calls

section Results

variable {byteOrder : ByteOrder} {libm : MathLibrary} {self book : ℕ} {tickConsumers : List ℕ}
  {s : State}

/-- In a test of several instruments each of them has the results of a test of its own: the same
lines in the log, the same state and the same entry of the book. -/
theorem leg_results {days : List MarketDataReplayerMultiThread}
    (hdays : ∀ day ∈ days, day.date ≠ 0 ∧ Ordered day.allTicks) {l : Logged}
    (hresults : Results byteOrder libm self book tickConsumers s days l) {inst : ℕ}
    {leg : Instrument} (hleg : tickLeg s inst = some leg)
    (honce : (s.pInstruments.map (·.instIndex)).count inst = 1) {mgr : FakeOrderManager}
    (hentry : SameEntry inst s.orderManager.posMgr mgr.posMgr) :
    ∃ m, Results byteOrder libm self book tickConsumers ⟨s.globalParas, [leg], mgr⟩
        (days.map (onlyTicks inst)) m ∧
      Alone inst l.state m.state ∧ m.rows = l.rows.filter fun row => row.instrument = inst := by
  rw [results_iff_run fun day hday => (hdays day hday).2.replayable (hdays day hday).1] at hresults
  obtain ⟨m, hpart, halone⟩ := loggedAlone_projects.run (t := ⟨⟨s.globalParas, [leg], mgr⟩, []⟩)
    hresults ⟨alone_single hleg hentry, honce, rfl⟩
  refine ⟨m, (results_iff_run ?_).mpr ?_, halone.alone, halone.rows⟩
  · refine List.forall_mem_map.mpr fun day hday => ?_
    exact (ordered_onlyTicks (hdays day hday).2 inst).replayable (hdays day hday).1
  · rw [← filter_calls fun day hday => (hdays day hday).2]
    exact hpart

theorem leg_results_pair :
    ∃ l m, Results .littleEndian exactMath 0 1 [0, 1] pair [pairReplayer] l ∧
      Results .littleEndian exactMath 0 1 [0, 1]
        ⟨pair.globalParas, pair.pInstruments.drop 1, newManager 0⟩
        [onlyTicks 5240000 pairReplayer] m ∧
      m.rows = l.rows.filter fun row => row.instrument = 5240000 := by
  obtain ⟨l, hresults⟩ := results_pairReplayer
  have hdays : ∀ day ∈ [pairReplayer], day.date ≠ 0 ∧ Ordered day.allTicks := by
    refine List.forall_mem_singleton.mpr ⟨by decide, ?_⟩
    rw [allTicks_pairReplayer, Ordered, SortedBy]
    decide
  obtain ⟨m, hpart, -, hrows⟩ := leg_results hdays hresults (rfl : tickLeg pair 5240000 = _)
    (by decide +kernel) (.refl 5240000 _)
  exact ⟨l, m, hresults, hpart, hrows⟩

/-! ### The order in which the stores are loaded -/

/-- The ticks of one instrument for one day, in the order of their times. -/
structure DayStore (store : MarketDataStore) : Prop where
  ordered : Ordered store.tickDataVec
  instIndex : ∀ tick ∈ store.tickDataVec, tick.instIndex = store.instIndex

structure DayStores (stores : List MarketDataStore) : Prop where
  store : ∀ store ∈ stores, DayStore store
  nodup : (stores.map MarketDataStore.instIndex).Nodup

/-- The days with the stores in the order in which their loads have finished. -/
def loadDays (days : List (ℕ × List MarketDataStore)) : List MarketDataReplayerMultiThread :=
  days.map fun day => .loaded day.1 day.2

theorem date_loaded (date : ℕ) (stores : List MarketDataStore) :
    (MarketDataReplayerMultiThread.loaded date stores).date = date := by
  induction stores using List.reverseRecOn with
  | nil => rfl
  | append_singleton stores store ih =>
      rw [MarketDataReplayerMultiThread.loaded, List.foldl_append]
      exact ih

theorem dayStores_pairStores : DayStores pairStores := by
  refine ⟨List.forall_mem_cons.mpr
    ⟨⟨⟨?_, ?_⟩, ?_⟩, List.forall_mem_singleton.mpr ⟨⟨?_, ?_⟩, ?_⟩⟩, ?_⟩
  · exact List.pairwise_pair.mpr (by decide)
  · decide
  · decide
  · exact List.pairwise_pair.mpr (by decide)
  · decide
  · decide
  · decide

theorem DayStores.ordered {stores : List MarketDataStore} (h : DayStores stores) (date : ℕ) :
    Ordered (MarketDataReplayerMultiThread.loaded date stores).allTicks := by
  rw [allTicks_loaded]
  refine ⟨sortedBy_mergeAll fun store hstore => (h.store store hstore).ordered.1, ?_⟩
  intro tick hmem
  obtain ⟨store, hstore, htick⟩ :=
    List.mem_flatMap.mp ((mergeAll_perm_flatMap stores).mem_iff.mp hmem)
  exact (h.store store hstore).ordered.2 tick htick

theorem DayStores.filter_length_le {stores : List MarketDataStore} (h : DayStores stores)
    (inst : ℕ) : (stores.filter fun store => store.instIndex = inst).length ≤ 1 := by
  have hcount := List.nodup_iff_count_le_one.mp h.nodup inst
  rw [List.count, List.countP_map, List.countP_eq_length_filter] at hcount
  exact hcount

theorem DayStores.filter_allTicks {stores : List MarketDataStore} (h : DayStores stores)
    (date inst : ℕ) :
    (MarketDataReplayerMultiThread.loaded date stores).allTicks.filter
        (fun tick => tick.instIndex = inst) =
      (stores.filter fun store => store.instIndex = inst).flatMap
        MarketDataStore.tickDataVec := by
  rw [allTicks_loaded]
  refine filter_mergeAll (fun store hstore tick htick => ?_) (h.filter_length_le inst)
  rw [(h.store store hstore).instIndex tick htick]

theorem DayStores.perm {stores stores' : List MarketDataStore} (h : DayStores stores)
    (hperm : stores'.Perm stores) : DayStores stores' :=
  ⟨fun store hstore => h.store store (hperm.mem_iff.mp hstore),
    (hperm.map _).nodup_iff.mpr h.nodup⟩

/-- What an instrument sees does not depend on the order. -/
theorem onlyTicks_loaded {stores stores' : List MarketDataStore} (h : DayStores stores)
    (hperm : stores'.Perm stores) (date inst : ℕ) :
    onlyTicks inst (.loaded date stores') = onlyTicks inst (.loaded date stores) := by
  have hfilter := hperm.filter fun store => store.instIndex = inst
  have hsame : (stores'.filter fun store => store.instIndex = inst) =
      stores.filter fun store => store.instIndex = inst := by
    have hlength := h.filter_length_le inst
    interval_cases hcases : (stores.filter fun store => store.instIndex = inst).length
    · rw [List.length_eq_zero_iff.mp hcases] at hfilter ⊢
      exact hfilter.eq_nil
    · obtain ⟨store, hstore⟩ := List.length_eq_one_iff.mp hcases
      rw [hstore] at hfilter ⊢
      exact List.perm_singleton.mp hfilter
  rw [onlyTicks, onlyTicks, h.filter_allTicks, (h.perm hperm).filter_allTicks, hsame,
    date_loaded, date_loaded]

/-- The same days, each with its stores in another order. -/
def Reloaded (days days' : List (ℕ × List MarketDataStore)) : Prop :=
  List.Forall₂ (fun day day' => day'.1 = day.1 ∧ day'.2.Perm day.2) days days'

def Stored (days : List (ℕ × List MarketDataStore)) : Prop :=
  ∀ day ∈ days, day.1 ≠ 0 ∧ DayStores day.2

theorem Stored.reloaded {days days' : List (ℕ × List MarketDataStore)} (h : Stored days)
    (horder : Reloaded days days') : Stored days' := by
  induction horder with
  | nil => exact h
  | cons hday _ ih =>
      obtain ⟨⟨hdate, hstores⟩, hothers⟩ := List.forall_mem_cons.mp h
      exact List.forall_mem_cons.mpr ⟨⟨hday.1 ▸ hdate, hstores.perm hday.2⟩, ih hothers⟩

theorem Stored.ordered {days : List (ℕ × List MarketDataStore)} (h : Stored days) :
    ∀ day ∈ loadDays days, day.date ≠ 0 ∧ Ordered day.allTicks := by
  refine List.forall_mem_map.mpr fun day hday => ?_
  rw [date_loaded]
  exact ⟨(h day hday).1, (h day hday).2.ordered day.1⟩

theorem Stored.onlyTicks_eq {days days' : List (ℕ × List MarketDataStore)} (h : Stored days)
    (horder : Reloaded days days') (inst : ℕ) :
    (loadDays days').map (onlyTicks inst) = (loadDays days).map (onlyTicks inst) := by
  induction horder with
  | nil => rfl
  | @cons day day' _ _ hday _ ih =>
      obtain ⟨⟨-, hstores⟩, hothers⟩ := List.forall_mem_cons.mp h
      rw [loadDays, loadDays, List.map_cons, List.map_cons, List.map_cons, List.map_cons, hday.1,
        onlyTicks_loaded hstores hday.2]
      exact congrArg _ (ih hothers)

theorem calls_subset (self book : ℕ) (tickConsumers : List ℕ)
    {days days' : List MarketDataReplayerMultiThread}
    (hdays : ∀ day ∈ days, Ordered day.allTicks) (hdays' : ∀ day ∈ days', Ordered day.allTicks)
    (hsame : ∀ inst, days'.map (onlyTicks inst) = days.map (onlyTicks inst)) :
    calls self book tickConsumers days' ⊆ calls self book tickConsumers days := by
  intro c hc
  have hseen : ∃ inst, sees inst c = true := by
    cases c with
    | marketData data now => exact ⟨data.instIndex, decide_eq_true rfl⟩
    | marketDataBook data => exact ⟨data.instIndex, decide_eq_true rfl⟩
    | _ => exact ⟨0, rfl⟩
  obtain ⟨inst, hinst⟩ := hseen
  have hmem := List.mem_filter.mpr ⟨hc, hinst⟩
  rw [filter_calls hdays', hsame, ← filter_calls hdays] at hmem
  exact List.mem_of_mem_filter hmem

theorem filterMap_endDate {cs cs' : List Call}
    (hseen : ∀ inst, cs'.filter (sees inst) = cs.filter (sees inst)) :
    cs'.filterMap endDate = cs.filterMap endDate := by
  have hall : ∀ cs : List Call, (cs.filter (sees 0)).filterMap endDate = cs.filterMap endDate := by
    intro cs
    rw [List.filterMap_filter]
    refine List.filterMap_congr fun c _ => ?_
    cases c with
    | marketData data now => exact ite_self none
    | marketDataBook data => exact ite_self none
    | _ => rfl
  rw [← hall, hseen, hall]

theorem rows_eq {l l' : Logged} {cs cs' : List Call}
    (hnodup : (s.pInstruments.map (·.instIndex)).Nodup)
    (hseen : ∀ inst, cs'.filter (sees inst) = cs.filter (sees inst))
    (hrun : Run (fun l c => l.call byteOrder libm self c) (fun _ _ => True) ⟨s, []⟩ cs l)
    (hrun' : Run (fun l c => l.call byteOrder libm self c) (fun _ _ => True) ⟨s, []⟩ cs' l') :
    l'.rows = l.rows := by
  have hheadings := headings_of_run hrun
  have hheadings' := headings_of_run hrun'
  rw [filterMap_endDate hseen, ← hheadings] at hheadings'
  have hkeys' : l'.rows.map (·.instrument) = l.rows.map (·.instrument) := by
    have hsnd := congrArg (List.map Prod.snd) hheadings'
    rwa [List.map_map, List.map_map] at hsnd
  refine eq_of_filter_key hkeys' fun inst => ?_
  by_cases hinst : inst ∈ s.pInstruments.map (·.instIndex)
  · obtain ⟨leg, hleg⟩ := (exists_tickLeg_iff s inst).mpr hinst
    have halone : LoggedAlone inst ⟨s, []⟩ ⟨⟨s.globalParas, [leg], s.orderManager⟩, []⟩ :=
      ⟨alone_single hleg (.refl inst _), List.count_eq_one_of_mem hnodup hinst, rfl⟩
    obtain ⟨m, hpart, hm⟩ := loggedAlone_projects.run hrun halone
    obtain ⟨m', hpart', hm'⟩ := loggedAlone_projects.run hrun' halone
    obtain rfl : m' = m := by
      have hsame : cs'.filter (fun c => concerns inst (action c)) =
          cs.filter fun c => concerns inst (action c) := hseen inst
      rw [hsame] at hpart'
      exact hpart'.unique hpart
    rw [← hm.rows, ← hm'.rows]
  · have hnone : ∀ rows : List EodRow, rows.map (·.instrument) = l.rows.map (·.instrument) →
        (rows.filter fun row => row.instrument = inst) = [] := by
      intro rows hrows
      refine List.filter_eq_nil_iff.mpr fun row hrow heq => hinst ?_
      have hmem : row.instrument ∈ l.rows.map (·.instrument) :=
        hrows ▸ List.mem_map_of_mem hrow
      obtain ⟨row', hrow', hsame⟩ := List.mem_map.mp hmem
      have hheading := List.mem_map_of_mem (f := fun row => (row.date, row.instrument)) hrow'
      rw [hheadings, List.map_nil, List.nil_append] at hheading
      obtain ⟨date, -, hheading⟩ := List.mem_flatMap.mp hheading
      obtain ⟨index, hindex, hpair⟩ := List.mem_map.mp hheading
      rwa [← of_decide_eq_true heq, ← hsame, ← (Prod.mk.inj hpair).2]
    rw [hnone _ hkeys', hnone _ rfl]

/-- The stores of a day are loaded by threads that finish in any order, and ticks of the same time
are merged in that order.  The results of the test are the same for all of them. -/
theorem results_of_reloaded {days days' : List (ℕ × List MarketDataStore)} (hdays : Stored days)
    (horder : Reloaded days days') (hnodup : (s.pInstruments.map (·.instIndex)).Nodup)
    {l : Logged}
    (hresults : Results byteOrder libm self book tickConsumers s (loadDays days) l) :
    ∃ l', Results byteOrder libm self book tickConsumers s (loadDays days') l' ∧
      l'.rows = l.rows ∧ ∀ inst ∈ s.pInstruments.map (·.instIndex),
        tickLeg l'.state inst = tickLeg l.state inst ∧
          SameEntry inst l.state.orderManager.posMgr l'.state.orderManager.posMgr := by
  have hordered := hdays.ordered
  have hordered' := (hdays.reloaded horder).ordered
  have hseen : ∀ inst, (calls self book tickConsumers (loadDays days')).filter (sees inst) =
      (calls self book tickConsumers (loadDays days)).filter (sees inst) := by
    intro inst
    rw [filter_calls fun day hday => (hordered' day hday).2, hdays.onlyTicks_eq horder,
      filter_calls fun day hday => (hordered day hday).2]
  rw [results_iff_run fun day hday =>
    (hordered day hday).2.replayable (hordered day hday).1] at hresults
  have hsubset := calls_subset self book tickConsumers (fun day hday => (hordered day hday).2)
    (fun day hday => (hordered' day hday).2)
    (hdays.onlyTicks_eq horder)
  obtain ⟨s₂, hrun, hlegs⟩ := run_of_rearranged (run_step_of_run_call hresults)
    (List.map_subset action hsubset) fun inst _ => by
      rw [List.filter_map, List.filter_map]
      exact congrArg _ (hseen inst)
  obtain ⟨l', hrun', rfl⟩ := exists_run_call (l := ⟨s, []⟩) hrun
  refine ⟨l', (results_iff_run fun day hday =>
    (hordered' day hday).2.replayable (hordered' day hday).1).mpr hrun', ?_, hlegs⟩
  exact rows_eq hnodup hseen hresults hrun'

end Results

end BluesTrading.Backtest
