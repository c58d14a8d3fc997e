import BluesTrading.Backtest
import BluesTrading.DayReplaySchedule
import BluesTrading.RequestDispatch

/-!
The test of several configurations.  Workers take the days of the instances in any order that the
schedule permits, and the stores of a day have been loaded in any order; the result of the test is
that of running each configuration by itself.
-/

namespace BluesTrading.TestFixture

open BluesTrading.Foundations
open BluesTrading.Backtest
open BluesTrading.DayReplaySchedule (Task Finished Inv)
open BluesTrading.InstrumentInfo
open BluesTrading.LegRuns
open BluesTrading.MarketDataReplayer
open BluesTrading.OrderData
open BluesTrading.OrderManager
open BluesTrading.SingleStrategy
open BluesTrading.SourceText
open BluesTrading.StrategyDay
open BluesTrading.StrategyLedger
open BluesTrading.TimerProvider
open BluesTrading.TradingCalendar

/-- Where the strategy and the position manager of an instance are, which is the order of the
consumers. -/
structure Addresses where
  strategy : ℕ
  posManager : ℕ
  tickConsumers : List ℕ

/-- The schedule with the instances that it replays the days of. -/
structure Fixture where
  schedule : DayReplaySchedule.State
  allStrInst : List (World (Option Logged))

inductive Move
  | schedule (a : DayReplaySchedule.Action)
  | replayed (task : Task) (w : World (Option Logged))

section Steps

variable (byteOrder : ByteOrder) (libm : MathLibrary) (cal : Calendar) (finish workers : ℕ)
  (addresses : ℕ → Addresses) (order : ℕ → List MarketDataStore)

def Replays (a : Addresses) (date : ℕ) (w v : World (Option Logged)) : Prop :=
  ∀ᶠ fuel in Filter.atTop,
    TimerProvider.startReplay (strategyCallbacks byteOrder libm a.strategy a.posManager) fuel date
      a.tickConsumers (MarketDataReplayerMultiThread.loaded date (order date)).allTicks w = some v

/-- The instance is as the replay leaves it when the replay ends. -/
def step (f : Fixture) : Move → Option Fixture
  | .schedule a =>
      (DayReplaySchedule.step cal finish workers f.schedule a).map fun s =>
        { f with schedule := s }
  | .replayed task w =>
      (DayReplaySchedule.finishReplay f.schedule task).map fun s =>
        { schedule := s, allStrInst := f.allStrInst.set task.inst w }

def Permitted (f : Fixture) : Move → Prop
  | .schedule a => ∀ task, a ≠ .finishReplay task
  | .replayed task w => ∃ v, f.allStrInst[task.inst]? = some v ∧
      Replays byteOrder libm order (addresses task.inst) task.date v w

end Steps

/-- A message of the request: the parameters, and the instruments with their values. -/
abbrev Config := StrategyParameters × List (Str × LegValues)

/-- `LoadTestInstGroup` and the message of its configuration. -/
def loadTestInstGroup (a : Addresses) (config : Config) : World (Option Logged) :=
  registered a.strategy a.posManager
    (some ⟨.configured config.1 config.2 (newManager 0), []⟩)

def initial (addresses : ℕ → Addresses) (configs : List Config) (s : DayReplaySchedule.State) :
    Fixture where
  schedule := s
  allStrInst := configs.mapIdx fun i config => loadTestInstGroup (addresses i) config

/-! ### The result -/

structure NullLogger where
  headLine : Str
  result : List Str

namespace NullLogger

def create : NullLogger := ⟨[], []⟩

def logEOD (logger : NullLogger) (header row : Str) : NullLogger :=
  ⟨header, logger.result ++ [row]⟩

def getResult (logger : NullLogger) : Str × List Str := (logger.headLine, logger.result)

end NullLogger

def eodHeader : Str := "instrument,date,maweight,trade0,pnl0,opp,trade,pnl".toList

/-- The logger after the lines of an instance, `format` being how a line is printed. -/
def logEODs (format : EodRow → Str) (rows : List EodRow) : NullLogger :=
  rows.foldl (fun logger row => logger.logEOD eodHeader (format row)) .create

def Fixture.getResult (format : EodRow → Str) (f : Fixture) : Option (Str × List Str) :=
  (f.allStrInst.mapM World.state).map fun insts =>
    RequestDispatch.getResult (insts.map fun l => (logEODs format l.rows).getResult)

/-! ### Every instance replays its own days -/

section Runs

variable {byteOrder : ByteOrder} {libm : MathLibrary} {cal : Calendar} {finish workers : ℕ}
  {addresses : ℕ → Addresses} {order : ℕ → List MarketDataStore}

theorem allStrInst_step {s t : DayReplaySchedule.State} {a : DayReplaySchedule.Action}
    (hstep : DayReplaySchedule.step cal finish workers s a = some t)
    (hreplay : ∀ task, a ≠ .finishReplay task) : t.allStrInst = s.allStrInst := by
  cases a with
  | load => exact DayReplaySchedule.load_allStrInst hstep
  | take task => exact (DayReplaySchedule.handed_take hstep).1.allStrInst
  | runDataOnDay task => exact (DayReplaySchedule.handed_runDataOnDay hstep).allStrInst
  | finishReplay task => exact absurd rfl (hreplay task)
  | post task => exact (DayReplaySchedule.handed_post hstep).1.allStrInst

variable (byteOrder libm order) in
def Reached (a : Addresses) (dates : List ℕ) (w v : World (Option Logged)) : Prop :=
  ∀ᶠ fuel in Filter.atTop,
    replayDays (strategyCallbacks byteOrder libm a.strategy a.posManager) fuel a.tickConsumers
      (dates.map fun date => .loaded date (order date)) w = some v

theorem Reached.replays {a : Addresses} {dates : List ℕ} {date : ℕ} {u w v : World (Option Logged)}
    (h : Reached byteOrder libm order a dates u w)
    (hreplay : Replays byteOrder libm order a date w v) :
    Reached byteOrder libm order a (dates ++ [date]) u v := by
  filter_upwards [h, hreplay] with fuel hfuel hday
  rw [replayDays] at hfuel ⊢
  rw [List.map_append, List.foldlM_append, hfuel]
  change (TimerProvider.startReplay _ fuel _ _ _ w).bind some = some v
  rw [date_loaded, hday]
  rfl

variable (byteOrder libm addresses order) in
structure Carried (starts : List (World (Option Logged))) (f : Fixture) : Prop where
  length : f.allStrInst.length = f.schedule.allStrInst.length
  reached : ∀ i inst w, f.schedule.allStrInst[i]? = some inst → f.allStrInst[i]? = some w →
    ∃ u, starts[i]? = some u ∧ Reached byteOrder libm order (addresses i) inst.replayed u w

variable {starts : List (World (Option Logged))} {f g : Fixture}

theorem Carried.step {move : Move} (h : Carried byteOrder libm addresses order starts f)
    (hpermit : Permitted byteOrder libm addresses order f move)
    (htake : TestFixture.step cal finish workers f move = some g) :
    Carried byteOrder libm addresses order starts g := by
  cases move with
  | schedule a =>
      obtain ⟨s, hstep, rfl⟩ := Option.map_eq_some_iff.mp htake
      have hinsts := allStrInst_step hstep hpermit
      refine ⟨?_, fun i inst w hinst hw => ?_⟩
      · rw [hinsts]
        exact h.length
      · rw [hinsts] at hinst
        exact h.reached i inst w hinst hw
  | replayed task w =>
      obtain ⟨s, hstep, rfl⟩ := Option.map_eq_some_iff.mp htake
      obtain ⟨v, hv, hreplay⟩ := hpermit
      obtain ⟨-, -, hinsts, -⟩ := DayReplaySchedule.finishReplay_spec hstep
      refine ⟨?_, fun i inst w' hinst hw' => ?_⟩
      · rw [hinsts, List.length_set, List.length_modify, h.length]
      · rw [hinsts, List.getElem?_modify] at hinst
        obtain ⟨inst₀, hinst₀, rfl⟩ := Option.map_eq_some_iff.mp hinst
        rw [List.getElem?_set] at hw'
        by_cases hi : task.inst = i
        · subst hi
          rw [if_pos rfl] at hw'
          obtain ⟨-, hw'⟩ := Option.ite_none_right_eq_some.mp hw'
          obtain rfl := Option.some.inj hw'
          obtain ⟨u, hu, hreached⟩ := h.reached _ inst₀ v hinst₀ hv
          exact ⟨u, hu, by simpa using hreached.replays hreplay⟩
        · rw [if_neg hi] at hw'
          simp only [if_neg hi]
          exact h.reached i inst₀ w' hinst₀ hw'

theorem exists_schedule_run {moves : List Move}
    (hrun : Run (TestFixture.step cal finish workers)
      (Permitted byteOrder libm addresses order) f moves g) :
    ∃ actions, Run (DayReplaySchedule.step cal finish workers) (fun _ _ => True) f.schedule actions
      g.schedule := by
  induction hrun with
  | nil f => exact ⟨[], .nil f.schedule⟩
  | @cons _ _ _ move _ _ htake _ ih =>
      obtain ⟨actions, hactions⟩ := ih
      cases move with
      | schedule a =>
          obtain ⟨s, hstep, rfl⟩ := Option.map_eq_some_iff.mp htake
          exact ⟨a :: actions, .cons trivial hstep hactions⟩
      | replayed task w =>
          obtain ⟨s, hstep, rfl⟩ := Option.map_eq_some_iff.mp htake
          exact ⟨.finishReplay task :: actions, .cons trivial hstep hactions⟩

theorem replayed_of_finished {eve : ℕ} {s : DayReplaySchedule.State} (h : Inv cal eve finish s)
    (hfinished : Finished finish s) {i : ℕ} {inst : DayReplaySchedule.TestInst}
    (hinst : s.allStrInst[i]? = some inst) :
    inst.replayed = (weekdays cal (eve + 1) finish).map (dateNumber cal) := by
  obtain ⟨hposting, hdate, houtstanding⟩ := hfinished
  obtain ⟨pre, post, hp⟩ := h.progress i inst hinst
  have hpost := hp.outstanding
  rw [houtstanding, DayReplaySchedule.datesOf_zero] at hpost
  obtain rfl : post = [] := by simpa using hpost.symm
  have hposted := hp.posted
  rw [h.postedDays_eq hposting hdate, List.append_nil] at hposted
  rw [hp.replayed, hposted]

theorem replayed_of_init {startDate configs : ℕ} {s : DayReplaySchedule.State}
    (hinit : DayReplaySchedule.Init cal startDate configs = some s) :
    ∀ inst ∈ s.allStrInst, inst.replayed = [] := by
  obtain ⟨start, -, h⟩ := Option.bind_eq_some_iff.mp hinit
  obtain ⟨insts, hinsts, h⟩ := Option.bind_eq_some_iff.mp h
  obtain rfl := Option.some.inj h
  intro inst hinst
  obtain ⟨day, -, rfl⟩ := (DayReplaySchedule.createInsts_spec hinsts).2 inst hinst
  rfl

/-- When nothing is left to do every instance has replayed the weekdays of the test. -/
theorem reached_of_finished {startDate endDate start : ℕ} {configs : List Config}
    (hstart : getDateFromNum cal startDate = some start)
    (hend : getDateFromNum cal endDate = some finish) {s : DayReplaySchedule.State}
    (hinit : DayReplaySchedule.Init cal startDate configs.length = some s) {moves : List Move}
    {t : Fixture} (hrun : Run (TestFixture.step cal finish workers)
      (Permitted byteOrder libm addresses order) (initial addresses configs s) moves t)
    (hfinished : Finished finish t.schedule) :
    t.allStrInst.length = configs.length ∧ ∀ i w, t.allStrInst[i]? = some w →
      ∃ config, configs[i]? = some config ∧ Reached byteOrder libm order (addresses i)
        ((weekdays cal start finish).map (dateNumber cal))
        (loadTestInstGroup (addresses i) config) w := by
  obtain ⟨hconfigs, hinv⟩ := DayReplaySchedule.init_spec finish hstart hinit
  have hcarried : Carried byteOrder libm addresses order (initial addresses configs s).allStrInst
      (initial addresses configs s) := by
    refine ⟨List.length_mapIdx.trans hconfigs.symm, fun i inst w hinst hw => ⟨w, hw, ?_⟩⟩
    rw [replayed_of_init hinit inst (List.mem_of_getElem? hinst)]
    exact .of_forall fun _ => rfl
  have hcarried' := hrun.invariant (fun _ _ _ hpermit htake h => h.step hpermit htake) hcarried
  obtain ⟨actions, hactions⟩ := exists_schedule_run hrun
  have hlength : t.schedule.allStrInst.length = s.allStrInst.length :=
    hactions.invariant (fun _ _ _ _ hstep hu => (DayReplaySchedule.length_step hstep).trans hu) rfl
  refine ⟨hcarried'.length.trans (hlength.trans hconfigs), fun i w hw => ?_⟩
  have hi : i < t.schedule.allStrInst.length :=
    hcarried'.length ▸ (List.getElem?_eq_some_iff.mp hw).1
  have hinst := List.getElem?_eq_getElem hi
  obtain ⟨u, hu, hreached⟩ := hcarried'.reached i _ w hinst hw
  obtain ⟨eve, rfl, hs⟩ := hinv i _ (List.getElem?_eq_getElem (hlength ▸ hi))
  have ht : Inv cal eve finish t.schedule :=
    hactions.invariant (fun _ _ _ _ hstep hu =>
      DayReplaySchedule.inv_step (getDateFromNum_le hend) hstep hu) hs
  rw [replayed_of_finished ht hfinished hinst] at hreached
  have hstarted : (configs.mapIdx fun i config => loadTestInstGroup (addresses i) config)[i]? =
      some u := hu
  rw [List.getElem?_mapIdx] at hstarted
  obtain ⟨config, hconfig, rfl⟩ := Option.map_eq_some_iff.mp hstarted
  exact ⟨config, hconfig, hreached⟩

end Runs

/-! ### The result does not depend on the interleaving -/

def indexes (config : Config) : List ℕ := config.2.map fun leg => getInstrumentIndex leg.1

/-- Every configuration has the instruments of the stored days, each of them once. -/
structure Testable (dates : List ℕ) (configs : List Config) (stores : ℕ → List MarketDataStore) :
    Prop where
  threshold : ∀ config ∈ configs, 0 ≤ config.1.thresholdSelf
  ppl : ∀ config ∈ configs, ∀ leg ∈ config.2, 0 ≤ leg.2.ppl ∧ leg.2.ppl < 2 ^ 31 - 1
  nodup : ∀ config ∈ configs, (indexes config).Nodup
  stored : Stored (dates.map fun date => (date, stores date))
  traded : ∀ date ∈ dates, ∀ store ∈ stores date, ∀ config ∈ configs,
    store.instIndex ∈ indexes config

section Result

variable {dates : List ℕ} {configs : List Config} {stores order : ℕ → List MarketDataStore}

theorem reloaded_of_perm (horder : ∀ date, (order date).Perm (stores date)) (dates : List ℕ) :
    Reloaded (dates.map fun date => (date, stores date))
      (dates.map fun date => (date, order date)) := by
  rw [Reloaded, List.forall₂_map_left_iff, List.forall₂_map_right_iff]
  exact List.forall₂_same.mpr fun date _ => ⟨rfl, horder date⟩

theorem instIndex_of_mem_loaded {date : ℕ} {stores : List MarketDataStore} (h : DayStores stores)
    {tick : CTickData}
    (htick : tick ∈ (MarketDataReplayerMultiThread.loaded date stores).allTicks) :
    ∃ store ∈ stores, tick.instIndex = store.instIndex := by
  rw [allTicks_loaded, (SortedMerge.mergeAll_perm_flatMap stores).mem_iff] at htick
  obtain ⟨store, hstore, htick⟩ := List.mem_flatMap.mp htick
  exact ⟨store, hstore, (h.store store hstore).instIndex tick htick⟩

/-- The backtest of one configuration by itself, over days whose stores are loaded in their
order. -/
def Backtested (byteOrder : ByteOrder) (libm : MathLibrary) (stores : ℕ → List MarketDataStore)
    (dates : List ℕ) (a : Addresses) (config : Config) (rows : List EodRow) : Prop :=
  ∃ l, Results byteOrder libm a.strategy a.posManager a.tickConsumers
    (.configured config.1 config.2 (newManager 0))
    (loadDays (dates.map fun date => (date, stores date))) l ∧ l.rows = rows

theorem Testable.exists_rows (h : Testable dates configs stores) (byteOrder : ByteOrder)
    (libm : MathLibrary) (a : Addresses) {config : Config} (hconfig : config ∈ configs) :
    ∃ rows, Backtested byteOrder libm stores dates a config rows ∧
      rows.map (fun row => (row.date, row.instrument)) =
        dates.flatMap (fun date => (indexes config).map (Prod.mk date)) ∧
      ∀ order : ℕ → List MarketDataStore, (∀ date, (order date).Perm (stores date)) → ∀ w,
        Reached byteOrder libm order a dates (loadTestInstGroup a config) w →
          w.state.map Logged.rows = some rows := by
  have hindexes : (State.configured config.1 config.2 (newManager 0)).pInstruments.map
      (·.instIndex) = indexes config := List.map_map ..
  have hordered := h.stored.ordered
  have hticks : ∀ day ∈ loadDays (dates.map fun date => (date, stores date)),
      ∀ tick ∈ day.allTicks, tick.instIndex ∈ (State.configured config.1 config.2
        (newManager 0)).pInstruments.map (·.instIndex) := by
    intro day hday tick htick
    rw [loadDays, List.map_map] at hday
    obtain ⟨date, hdate, rfl⟩ := List.mem_map.mp hday
    obtain ⟨store, hstore, hindex⟩ := instIndex_of_mem_loaded
      (h.stored _ (List.mem_map_of_mem hdate)).2 htick
    rw [hindexes, hindex]
    exact h.traded date hdate store hstore config hconfig
  obtain ⟨l, hresults, hheadings⟩ := exists_results byteOrder libm a.strategy a.posManager
    a.tickConsumers (h.threshold config hconfig) (h.ppl config hconfig)
    (fun day hday => (hordered day hday).2.replayable (hordered day hday).1) hticks
  rw [hindexes] at hheadings
  refine ⟨l.rows, ⟨l, hresults, rfl⟩, ?_, fun order horder w hreached => ?_⟩
  · rw [hheadings, loadDays, List.flatMap_map, List.flatMap_map]
    exact List.flatMap_congr fun date _ => by rw [date_loaded]
  · obtain ⟨l', ⟨v, hreplay, hstate⟩, hrows, -⟩ := results_of_reloaded h.stored
      (reloaded_of_perm horder dates) (hindexes ▸ h.nodup config hconfig) hresults
    rw [loadDays, List.map_map] at hreplay
    obtain ⟨fuel, hfuel, hfuel'⟩ := (hreplay.and hreached).exists
    obtain rfl := Option.some.inj (hfuel.symm.trans hfuel')
    rw [hstate, Option.map_some, hrows]

theorem exists_states {insts : List (World (Option Logged))} {rows : List (List EodRow)}
    (h : insts.map (fun w => w.state.map Logged.rows) = rows.map some) :
    ∃ states, insts.mapM World.state = some states ∧ states.map Logged.rows = rows := by
  induction insts generalizing rows with
  | nil =>
      obtain rfl := List.map_eq_nil_iff.mp h.symm
      exact ⟨[], rfl, rfl⟩
  | cons w insts ih =>
      cases rows with
      | nil => cases h
      | cons row rows =>
          obtain ⟨hfirst, hrest⟩ := List.cons.inj h
          obtain ⟨l, hl, rfl⟩ := Option.map_eq_some_iff.mp hfirst
          obtain ⟨states, hstates, rfl⟩ := ih hrest
          refine ⟨l :: states, ?_, rfl⟩
          rw [List.mapM_cons, hl, hstates]
          rfl

/-- However many workers there are, however they take the days and in whichever order the stores
of a day have been loaded, the result of a finished test is what the backtest of each configuration
by itself logs, a line for every weekday and instrument, in the order of the request. -/
theorem getResult_of_finished (byteOrder : ByteOrder) (libm : MathLibrary) {cal : Calendar}
    {startDate endDate start finish : ℕ} (hstart : getDateFromNum cal startDate = some start)
    (hend : getDateFromNum cal endDate = some finish)
    (h : Testable ((weekdays cal start finish).map (dateNumber cal)) configs stores)
    {s : DayReplaySchedule.State}
    (hinit : DayReplaySchedule.Init cal startDate configs.length = some s) :
    ∃ runStrategy : Addresses → Config → List EodRow,
      (∀ a, ∀ config ∈ configs,
        Backtested byteOrder libm stores ((weekdays cal start finish).map (dateNumber cal)) a config
          (runStrategy a config) ∧
        (runStrategy a config).map (fun row => (row.date, row.instrument)) =
          (weekdays cal start finish).flatMap fun day =>
            (indexes config).map (Prod.mk (dateNumber cal day))) ∧
      ∀ (workers : ℕ) (addresses : ℕ → Addresses) (order : ℕ → List MarketDataStore)
        (moves : List Move) (t : Fixture) (format : EodRow → Str),
        (∀ date, (order date).Perm (stores date)) →
        Run (step cal finish workers) (Permitted byteOrder libm addresses order)
          (initial addresses configs s) moves t →
        Finished finish t.schedule →
        t.getResult format = some (RequestDispatch.getResult (configs.mapIdx fun i config =>
          (logEODs format (runStrategy (addresses i) config)).getResult)) := by
  have hrows : ∀ a config, ∃ rows, config ∈ configs →
      (Backtested byteOrder libm stores ((weekdays cal start finish).map (dateNumber cal)) a config
          rows ∧
        rows.map (fun row => (row.date, row.instrument)) =
          (weekdays cal start finish).flatMap (fun day =>
            (indexes config).map (Prod.mk (dateNumber cal day)))) ∧
      ∀ order : ℕ → List MarketDataStore, (∀ date, (order date).Perm (stores date)) → ∀ w,
        Reached byteOrder libm order a ((weekdays cal start finish).map (dateNumber cal))
          (loadTestInstGroup a config) w → w.state.map Logged.rows = some rows := by
    intro a config
    by_cases hconfig : config ∈ configs
    · obtain ⟨rows, htested, hheadings, hsame⟩ := h.exists_rows byteOrder libm a hconfig
      rw [List.flatMap_map] at hheadings
      exact ⟨rows, fun _ => ⟨⟨htested, hheadings⟩, hsame⟩⟩
    · exact ⟨[], fun hmem => absurd hmem hconfig⟩
  choose runStrategy hrows using hrows
  refine ⟨runStrategy, fun a config hconfig => (hrows a config hconfig).1, ?_⟩
  intro workers addresses order moves t format horder hrun hfinished
  obtain ⟨hlength, hreached⟩ := reached_of_finished hstart hend hinit hrun hfinished
  have hstates : t.allStrInst.map (fun w => w.state.map Logged.rows) =
      (configs.mapIdx fun i config => runStrategy (addresses i) config).map some := by
    refine List.ext_getElem? fun i => ?_
    rw [List.getElem?_map, List.getElem?_map, List.getElem?_mapIdx]
    cases hw : t.allStrInst[i]? with
    | none =>
        rw [List.getElem?_eq_none_iff] at hw
        rw [List.getElem?_eq_none (hlength ▸ hw)]
        rfl
    | some w =>
        obtain ⟨config, hconfig, hdays⟩ := hreached i w hw
        have hsame := (hrows (addresses i) config (List.mem_of_getElem? hconfig)).2
        rw [hconfig, Option.map_some, Option.map_some, Option.map_some, hsame order horder w hdays]
  obtain ⟨states, hmapM, hlogged⟩ := exists_states hstates
  have hresults : states.map (fun l => (logEODs format l.rows).getResult) =
      (states.map Logged.rows).map fun rows => (logEODs format rows).getResult := by
    rw [List.map_map]
    rfl
  rw [Fixture.getResult, hmapM, Option.map_some, hresults, hlogged, List.mapIdx_eq_zipIdx_map,
    List.map_map, List.mapIdx_eq_zipIdx_map]
  rfl

/-- No replay hangs, so every run of the schedule is that of a test. -/
theorem exists_moves {cal : Calendar} {finish workers : ℕ} {s t : DayReplaySchedule.State}
    {actions : List DayReplaySchedule.Action} (byteOrder : ByteOrder) (libm : MathLibrary)
    (addresses : ℕ → Addresses) (order : ℕ → List MarketDataStore)
    (hrun : Run (DayReplaySchedule.step cal finish workers) (fun _ _ => True) s actions t)
    (insts : List (World (Option Logged)))
    (hreplayed : ∀ task, .finishReplay task ∈ actions → task.inst < insts.length ∧
      Replayable (.loaded task.date (order task.date)))
    (hrested : ∀ i w, insts[i]? = some w →
      ∃ consumers, Rested consumers w ∧ (addresses i).strategy ∈ consumers) :
    ∃ moves g, Run (step cal finish workers) (Permitted byteOrder libm addresses order)
      ⟨s, insts⟩ moves g ∧ g.schedule = t := by
  induction hrun generalizing insts with
  | nil s => exact ⟨[], _, .nil _, rfl⟩
  | @cons s u t a actions _ htake _ ih =>
      by_cases hfinish : ∃ task, a = .finishReplay task
      · obtain ⟨task, rfl⟩ := hfinish
        obtain ⟨hinst, hdate, hwrap⟩ := hreplayed task (List.mem_cons_self ..)
        have hw := List.getElem?_eq_getElem hinst
        obtain ⟨consumers, hready, hmem⟩ := hrested _ _ hw
        rw [date_loaded] at hdate
        obtain ⟨v, hreplay, hready', -⟩ := hready.startReplay
          (fun l c => l.bind fun l => l.call byteOrder libm (addresses task.inst).strategy c)
          (addresses task.inst).posManager hmem hdate hwrap (addresses task.inst).tickConsumers
        obtain ⟨moves, g, hrest, hschedule⟩ := ih (insts.set task.inst v)
          (fun task' hmem' => by
            rw [List.length_set]
            exact hreplayed task' (List.mem_cons_of_mem _ hmem'))
          fun i w hw' => by
            rw [List.getElem?_set] at hw'
            split_ifs at hw' with hi
            · obtain rfl := Option.some.inj hw'
              exact ⟨consumers, hready', hi ▸ hmem⟩
            · exact hrested i w hw'
        refine ⟨.replayed task v :: moves, g, .cons ⟨_, hw, hreplay⟩ ?_ hrest, hschedule⟩
        exact congrArg (Option.map fun s => Fixture.mk s (insts.set task.inst v)) htake
      · obtain ⟨moves, g, hrest, hschedule⟩ := ih insts
          (fun task' hmem' => hreplayed task' (List.mem_cons_of_mem _ hmem')) hrested
        refine ⟨.schedule a :: moves, g, .cons (not_exists.mp hfinish) ?_ hrest, hschedule⟩
        exact congrArg (Option.map fun s => Fixture.mk s insts) htake

def oneThread (i : ℕ) : Addresses := ⟨2 * i, 2 * i + 1, [2 * i, 2 * i + 1]⟩

def pairConfig : Config := (dayParas true, [(['a'], oneLot), (['c', 'u'], oneLot)])

theorem testable_pairConfig :
    Testable ((weekdays years2014 2 6).map (dateNumber years2014)) [pairConfig]
      fun _ => pairStores := by
  have hdates : (weekdays years2014 2 6).map (dateNumber years2014) = [20140103, 20140106] := by
    decide +kernel
  rw [hdates]
  refine ⟨?_, ?_, ?_, ?_, ?_⟩
  · decide
  · decide +kernel
  · decide +kernel
  · refine List.forall_mem_cons.mpr ⟨⟨by decide, dayStores_pairStores⟩, ?_⟩
    exact List.forall_mem_singleton.mpr ⟨by decide, dayStores_pairStores⟩
  · decide +kernel

/-- Monday is taken first and put back, and the second instrument is loaded first. -/
theorem getResult_of_finished_mondayFirst :
    ∃ rows : List EodRow, rows.map (fun row => (row.date, row.instrument)) =
        [(20140103, 10200000), (20140103, 5240000), (20140106, 10200000), (20140106, 5240000)] ∧
      ∃ s moves t, DayReplaySchedule.Init years2014 20140103 1 = some s ∧
        Run (step years2014 6 1) (Permitted .littleEndian exactMath oneThread
          fun _ => pairStores.reverse) (initial oneThread [pairConfig] s) moves t ∧
        ∀ format, t.getResult format =
          some (RequestDispatch.getResult [(logEODs format rows).getResult]) := by
  have hstart : getDateFromNum years2014 20140103 = some 2 := by decide +kernel
  have hend : getDateFromNum years2014 20140107 = some 6 := by decide +kernel
  have hinit : DayReplaySchedule.Init years2014 20140103 1 =
      some ⟨[⟨20140102, []⟩], 2, none, 0, 0, 0, 0⟩ := by decide +kernel
  have hschedule : Run (DayReplaySchedule.step years2014 6 1) (fun _ _ => True)
      ⟨[⟨20140102, []⟩], 2, none, 0, 0, 0, 0⟩ DayReplaySchedule.mondayFirst
      ⟨[⟨20140106, [20140103, 20140106]⟩], 6, none, 0, 0, 0, 0⟩ :=
    Run.of_execute (by decide +kernel)
  obtain ⟨runStrategy, hheadings, hresult⟩ := getResult_of_finished .littleEndian exactMath hstart
    hend testable_pairConfig hinit
  have hfinished : Finished 6 ⟨[⟨20140106, [20140103, 20140106]⟩], 6, none, 0, 0, 0, 0⟩ :=
    ⟨rfl, le_rfl, rfl⟩
  have hreverse := List.reverse_perm pairStores
  obtain ⟨moves, t, hrun, hschedule'⟩ := exists_moves .littleEndian exactMath oneThread
    (fun _ => pairStores.reverse) hschedule
    ([pairConfig].mapIdx fun i config => loadTestInstGroup (oneThread i) config)
    (fun task hmem => by
      have hordered := (dayStores_pairStores.perm hreverse).ordered task.date
      have htask : task = ⟨0, 20140103⟩ ∨ task = ⟨0, 20140106⟩ := by
        simpa [DayReplaySchedule.mondayFirst] using hmem
      obtain rfl | rfl := htask
      · exact ⟨Nat.one_pos, hordered.replayable (by rw [date_loaded]; decide)⟩
      · exact ⟨Nat.one_pos, hordered.replayable (by rw [date_loaded]; decide)⟩)
    (fun i w hw => by
      rw [List.getElem?_mapIdx] at hw
      obtain ⟨config, -, rfl⟩ := Option.map_eq_some_iff.mp hw
      exact ⟨_, rested_registered _ _ _, mem_keys_registered _ _ _⟩)
  refine ⟨runStrategy (oneThread 0) pairConfig, ?_, _, moves, t, hinit, hrun, fun format => ?_⟩
  · exact (hheadings (oneThread 0) pairConfig (List.mem_singleton_self _)).2
  · exact hresult 1 oneThread _ moves t format (fun _ => hreverse) hrun (hschedule' ▸ hfinished)

end Result

end BluesTrading.TestFixture
