import BluesTrading.DayClock
import BluesTrading.EarlyTimers
import BluesTrading.MarketDataReplayer

/-!
A day of one test instance: its timer provider, its strategy and its position manager.  The
strategy has one timer at a time, first the one that it sets for just before nine and then the
one that goes off every half second, so what `StartReplay` calls and in which order can be
written down.
-/

namespace BluesTrading.StrategyDay

open BluesTrading.Foundations
open BluesTrading.Foundations.SortedMerge
open BluesTrading.MarketDataReplayer
open BluesTrading.OrderData
open BluesTrading.TimerProvider
open BluesTrading.TimerDelivery
open BluesTrading.DayClock
open BluesTrading.EarlyTimers

variable {σ : Type}

/-- What is called in the strategy and in the position manager. -/
inductive Call
  | startDay
  | startDayBook (date : ℕ)
  | marketData (data : CTickData) (now : ℕ)
  | marketDataBook (data : CTickData)
  | timer (eventID : ℕ)
  | endDay (date : ℕ)

/-- Half a second before 09:00:00. -/
def targetTime : ℕ := 9 * 3600 * 1000 + 0 * 60 * 1000 - 500

/-- The strategy and the position manager as consumers, `self` and `book`.  Each callback does
its part to the common state; the subtraction from the target time wraps. -/
def callbacks (act : σ → Call → σ) (self book : ℕ) : Consumers σ where
  onTimer state consumer eventID _ :=
    if consumer = self then
      if eventID = 1 then .setTimer self 2 500 true fun _ => .done (act state (.timer eventID))
      else .done (act state (.timer eventID))
    else .done state
  onStartDay state consumer date currentTime :=
    if consumer = self then
      .setTimer self 1 ((targetTime + 2 ^ 32 - currentTime) % 2 ^ 32) false fun _ =>
        .done (act state .startDay)
    else if consumer = book then .done (act state (.startDayBook date))
    else .done state
  onEndDay state consumer date _ :=
    if consumer = self then .done (act state (.endDay date)) else .done state
  onMarketData state consumer data currentTime :=
    if consumer = self then .done (act state (.marketData data currentTime))
    else if consumer = book then .done (act state (.marketDataBook data))
    else .done state

/-! ### What is called -/

/-- The time at which a timer of the strategy goes off when others have done so before. -/
def triggerTime (fired : ℕ) : ℕ := targetTime + 500 * fired

def timerCall (fired : ℕ) : Call := .timer (if fired = 0 then 1 else 2)

/-- How many timers of the strategy are due by a time of the day. -/
def due (timeInMs : ℕ) : ℕ := (timeInMs + 500 - targetTime) / 500

theorem lt_due_iff {fired timeInMs : ℕ} : fired < due timeInMs ↔ triggerTime fired ≤ timeInMs := by
  unfold due triggerTime targetTime
  omega

def timerCalls (fired fired' : ℕ) : List Call :=
  (List.range' fired (fired' - fired)).map timerCall

def startCalls (self book date : ℕ) (consumers : List ℕ) : List Call :=
  consumers.flatMap fun consumer =>
    if consumer = self then [.startDay]
    else if consumer = book then [.startDayBook date]
    else []

def tickCalls (self book : ℕ) (tickConsumers : List ℕ) (tick : CTickData) : List Call :=
  tickConsumers.flatMap fun consumer =>
    if consumer = self then [.marketData tick tick.timeInMS]
    else if consumer = book then [.marketDataBook tick]
    else []

def endCalls (self date : ℕ) (consumers : List ℕ) : List Call :=
  consumers.flatMap fun consumer => if consumer = self then [.endDay date] else []

/-- The ticks of a day, each after the timers that are due by then, and the timers after the
last tick. -/
def tradingCalls (self book : ℕ) (tickConsumers : List ℕ) : ℕ → List CTickData → List Call
  | fired, [] => timerCalls fired (max fired (due lastMs))
  | fired, tick :: ticks =>
      timerCalls fired (max fired (due tick.timeInMS)) ++
        (tickCalls self book tickConsumers tick ++
          tradingCalls self book tickConsumers (max fired (due tick.timeInMS)) ticks)

def dayCalls (self book : ℕ) (consumers tickConsumers : List ℕ) (date : ℕ)
    (ticks : List CTickData) : List Call :=
  startCalls self book date consumers ++
    (tradingCalls self book tickConsumers 0 ticks ++ endCalls self date consumers)

section Members

variable {self book : ℕ} {consumers tickConsumers : List ℕ} {c : Call}

theorem of_mem_startCalls {date : ℕ} (hc : c ∈ startCalls self book date consumers) :
    c = .startDay ∨ c = .startDayBook date := by
  obtain ⟨consumer, -, hc⟩ := List.mem_flatMap.mp hc
  split_ifs at hc
  · exact .inl (List.mem_singleton.mp hc)
  · exact .inr (List.mem_singleton.mp hc)
  · cases hc

theorem of_mem_tickCalls {tick : CTickData} (hc : c ∈ tickCalls self book tickConsumers tick) :
    c = .marketData tick tick.timeInMS ∨ c = .marketDataBook tick := by
  obtain ⟨consumer, -, hc⟩ := List.mem_flatMap.mp hc
  split_ifs at hc
  · exact .inl (List.mem_singleton.mp hc)
  · exact .inr (List.mem_singleton.mp hc)
  · cases hc

theorem of_mem_endCalls {date : ℕ} (hc : c ∈ endCalls self date consumers) : c = .endDay date := by
  obtain ⟨consumer, -, hc⟩ := List.mem_flatMap.mp hc
  split_ifs at hc
  · exact List.mem_singleton.mp hc
  · cases hc

theorem of_mem_timerCalls {fired fired' : ℕ} (hc : c ∈ timerCalls fired fired') :
    ∃ k, c = timerCall k := by
  obtain ⟨k, -, rfl⟩ := List.mem_map.mp hc
  exact ⟨k, rfl⟩

theorem of_mem_tradingCalls {fired : ℕ} {ticks : List CTickData}
    (hc : c ∈ tradingCalls self book tickConsumers fired ticks) :
    (∃ k, c = timerCall k) ∨ ∃ tick ∈ ticks, c ∈ tickCalls self book tickConsumers tick := by
  induction ticks generalizing fired with
  | nil => exact .inl (of_mem_timerCalls hc)
  | cons tick ticks ih =>
      rcases List.mem_append.mp hc with hc | hc
      · exact .inl (of_mem_timerCalls hc)
      · rcases List.mem_append.mp hc with hc | hc
        · exact .inr ⟨tick, List.mem_cons_self .., hc⟩
        · refine (ih hc).imp_right ?_
          rintro ⟨later, hlater, hc⟩
          exact ⟨later, List.mem_cons_of_mem tick hlater, hc⟩

end Members

/-! ### A loop over the consumers -/

def keys (w : World σ) : List ℕ := w.provider.allTimers.keys

theorem keys_insert_of_mem {κ ν : Type} [LinearOrder κ] (m : OrderedMap κ ν) {k : κ} (x : ν)
    (h : k ∈ m.keys) : (m.insert k x).keys = m.keys := by
  obtain ⟨l, hl⟩ := m
  change (OrderedMap.insertEntry k x l).map Prod.fst = l.map Prod.fst
  replace h : k ∈ l.map Prod.fst := h
  induction l with
  | nil => cases h
  | cons head tail ih =>
      obtain ⟨j, y⟩ := head
      obtain ⟨hhead, htail⟩ := List.pairwise_cons.mp hl
      rw [OrderedMap.insertEntry]
      split_ifs with hlt heq
      · rcases List.mem_cons.mp h with rfl | h
        · exact absurd hlt (lt_irrefl _)
        · obtain ⟨e, he, rfl⟩ := List.mem_map.mp h
          exact absurd (hhead e he) hlt.asymm
      · simp [heq]
      · rw [List.map_cons, List.map_cons, ih htail ((List.mem_cons.mp h).resolve_left heq)]

theorem nextConsumer_split {p : FakeTimerProvider} {visited rest : List ℕ}
    (h : p.allTimers.keys = visited ++ rest) :
    p.nextConsumer visited.getLast? = rest.head? := by
  have hsorted : (visited ++ rest).Pairwise (· < ·) := by
    rw [← h]
    exact List.pairwise_map.mpr p.allTimers.sorted
  obtain ⟨hvisited, -, hbetween⟩ := List.pairwise_append.mp hsorted
  rw [FakeTimerProvider.nextConsumer, h, List.find?_append]
  have hnone : visited.find? (fun c => visited.getLast?.all fun last => decide (last < c)) =
      none := by
    refine List.find?_eq_none.mpr fun c hc => ?_
    cases visited using List.reverseRecOn with
    | nil => cases hc
    | append_singleton visited last =>
        obtain ⟨-, -, hlast⟩ := List.pairwise_append.mp hvisited
        have hle : c ≤ last := by
          rcases List.mem_append.mp hc with hc | hc
          · exact (hlast c hc last (List.mem_singleton_self last)).le
          · exact (List.mem_singleton.mp hc).le
        simpa using hle
  rw [hnone, Option.none_or]
  cases rest with
  | nil => rfl
  | cons c rest =>
      refine List.find?_cons_of_pos ?_
      rw [Option.all_eq_true]
      intro last hlast
      exact decide_eq_true (hbetween last (List.mem_of_getLast? hlast) c (List.mem_cons_self ..))

def visitNext (body : World σ → ℕ → World σ) (s : World σ × Option ℕ) : World σ × Option ℕ :=
  match s.1.provider.nextConsumer s.2 with
  | none => s
  | some consumer => (body s.1 consumer, some consumer)

/-- A loop that has visited some of the consumers goes on to visit the others. -/
theorem whileLoop_visitNext {body : World σ → ℕ → World σ} {visited rest : List ℕ} {w : World σ}
    (hkeys : keys w = visited ++ rest)
    (hbody : ∀ v, keys v = keys w → ∀ c ∈ keys w, keys (body v c) = keys v) :
    whileLoop (fun s : World σ × Option ℕ => (s.1.provider.nextConsumer s.2).isSome)
        (visitNext body) (rest.length + 1) (w, visited.getLast?) =
      some (rest.foldl body w, (visited ++ rest).getLast?) := by
  induction rest generalizing visited w with
  | nil =>
      rw [List.length_nil, whileLoop, nextConsumer_split hkeys, List.append_nil]
      rfl
  | cons c rest ih =>
      have hc : c ∈ keys w := by
        rw [hkeys]
        simp
      have hnext : keys (body w c) = keys w := hbody w rfl c hc
      have hvisit : visitNext body (w, visited.getLast?) = (body w c, some c) := by
        rw [visitNext, nextConsumer_split hkeys]
        rfl
      have hkeys' : keys (body w c) = (visited ++ [c]) ++ rest := by
        rw [hnext, hkeys, List.append_assoc]
        rfl
      have hrest := ih hkeys' fun v hv d hd => hbody v (hv.trans hnext) d (hnext ▸ hd)
      rw [List.getLast?_concat, List.append_assoc] at hrest
      rw [List.length_cons, whileLoop, nextConsumer_split hkeys, hvisit]
      exact hrest

theorem forEachConsumer_eq {body : World σ → ℕ → World σ} {w : World σ} {consumers : List ℕ}
    (hkeys : keys w = consumers)
    (hbody : ∀ v, keys v = consumers → ∀ c ∈ consumers, keys (body v c) = keys v) {fuel : ℕ}
    (hfuel : consumers.length < fuel) :
    forEachConsumer body fuel w = some (consumers.foldl body w) := by
  subst hkeys
  have hkeys : keys w = [] ++ keys w := rfl
  have hloop := whileLoop_visitNext hkeys hbody
  exact congrArg (Option.map Prod.fst) (whileLoop_of_le hfuel hloop)

/-! ### The timer of the strategy -/

def strategyTimer (self fired address : ℕ) : TimerInfo where
  address := address
  consumer := self
  eventid := if fired = 0 then 1 else 2
  nextTriggerTime := triggerTime fired
  interval := if fired = 0 then targetTime else 500
  isRepeat := decide (fired ≠ 0)

@[simp] theorem consumer_strategyTimer (self fired address : ℕ) :
    (strategyTimer self fired address).consumer = self := rfl

@[simp] theorem eventid_strategyTimer_zero (self address : ℕ) :
    (strategyTimer self 0 address).eventid = 1 := rfl

theorem eventid_strategyTimer {fired : ℕ} (h : fired ≠ 0) (self address : ℕ) :
    (strategyTimer self fired address).eventid = 2 := if_neg h

@[simp] theorem isRepeat_strategyTimer (self fired address : ℕ) :
    (strategyTimer self fired address).isRepeat = decide (fired ≠ 0) := rfl

def Armed (self fired : ℕ) (w : World σ) : Prop :=
  ∃ address, ∀ c e, w.provider.timer c e =
    if c = self ∧ e = (strategyTimer self fired address).eventid then
      some (strategyTimer self fired address)
    else none

theorem keys_setTimers {w : World σ} {consumer : ℕ} (h : consumer ∈ keys w)
    (timers : ConsumerTimerMap) :
    (w.provider.setTimers consumer timers).allTimers.keys = keys w :=
  keys_insert_of_mem w.provider.allTimers timers h

theorem keys_setTimer {p : FakeTimerProvider} {consumer : ℕ} (h : consumer ∈ p.allTimers.keys)
    (eventID timeInMSFromNow : ℕ) (isRepeat : Bool) :
    (p.setTimer consumer eventID timeInMSFromNow isRepeat).2.allTimers.keys =
      p.allTimers.keys := by
  simp only [FakeTimerProvider.setTimer]
  split
  · exact keys_insert_of_mem p.allTimers _ h
  · exact keys_insert_of_mem p.allTimers _ h

theorem keys_reschedule {p : FakeTimerProvider} {t : TimerInfo}
    (h : t.consumer ∈ p.allTimers.keys) :
    (p.reschedule t).allTimers.keys = p.allTimers.keys := by
  unfold FakeTimerProvider.reschedule
  split
  · rfl
  · split_ifs
    · exact keys_insert_of_mem p.allTimers _ h
    · rfl

theorem keys_cancelTimer {p : FakeTimerProvider} {consumer : ℕ} (h : consumer ∈ p.allTimers.keys)
    (eventID : ℕ) : (p.cancelTimer consumer eventID).2.allTimers.keys = p.allTimers.keys :=
  keys_insert_of_mem p.allTimers _ h

section Turn

variable (act : σ → Call → σ) {self : ℕ} (book : ℕ) {fired date : ℕ} {w : World σ}

theorem callOnTimer_strategyTimer (self fired : ℕ) (w : World σ) (address : ℕ) :
    ∃ log, callOnTimer (callbacks act self book) w (strategyTimer self fired address) =
      { provider :=
          if fired = 0 then ((w.provider.setCurrentTime (triggerTime fired)).setTimer self 2 500
            true).2
          else w.provider.setCurrentTime (triggerTime fired)
        state := act w.state (timerCall fired)
        log := log } := by
  unfold callOnTimer callbacks strategyTimer timerCall
  by_cases hfirst : fired = 0
  · simp only [hfirst, if_true]
    exact ⟨_, rfl⟩
  · simp only [hfirst, if_false, if_true, OfNat.ofNat_ne_one]
    exact ⟨_, rfl⟩

theorem triggerTime_succ (fired : ℕ) : triggerTime (fired + 1) = triggerTime fired + 500 := by
  unfold triggerTime
  omega

theorem armed_fireTimer_first {address : ℕ}
    (htimer : ∀ c e, w.provider.timer c e =
      if c = self ∧ e = 1 then some (strategyTimer self 0 address) else none) :
    Armed self 1 (fireTimer (callbacks act self book) w (strategyTimer self 0 address)) := by
  refine ⟨w.provider.allocated, fun c e => ?_⟩
  obtain ⟨log, hcall⟩ := callOnTimer_strategyTimer act book self 0 w address
  have hnew : (w.provider.setCurrentTime (triggerTime 0)).newTimer self 2 500 true =
      strategyTimer self 1 w.provider.allocated := rfl
  have hbefore : (w.provider.setCurrentTime (triggerTime 0)).timer c e = w.provider.timer c e := rfl
  rw [timer_fireTimer, hcall, if_pos rfl]
  simp only [consumer_strategyTimer, eventid_strategyTimer_zero, isRepeat_strategyTimer,
    eventid_strategyTimer one_ne_zero, FakeTimerProvider.timer_setTimer, hbefore, htimer, hnew]
  by_cases hc : c = self
  · by_cases hfirst : e = 1
    · simp [hfirst]
    · simp [hc, hfirst]
  · simp [hc]

theorem armed_fireTimer_again {address : ℕ} (hfired : fired ≠ 0)
    (hwrap : triggerTime fired + 500 < 2 ^ 32)
    (htimer : ∀ c e, w.provider.timer c e =
      if c = self ∧ e = 2 then some (strategyTimer self fired address) else none) :
    Armed self (fired + 1)
      (fireTimer (callbacks act self book) w (strategyTimer self fired address)) := by
  refine ⟨address, fun c e => ?_⟩
  obtain ⟨log, hcall⟩ := callOnTimer_strategyTimer act book self fired w address
  have hbefore : (w.provider.setCurrentTime (triggerTime fired)).timer c e =
      w.provider.timer c e := rfl
  rw [timer_fireTimer, hcall]
  simp only [consumer_strategyTimer, eventid_strategyTimer hfired, isRepeat_strategyTimer,
    eventid_strategyTimer fired.succ_ne_zero, if_neg hfired, hbefore, htimer]
  by_cases hkey : c = self ∧ e = 2
  · simp only [hkey, and_self, if_true, decide_eq_true hfired, Option.map_some]
    simpa [strategyTimer, hfired, triggerTime_succ] using hwrap
  · simp only [hkey, if_false]

theorem frame_fireTimer (fired : ℕ) (hself : self ∈ keys w) (address : ℕ) :
    let v := fireTimer (callbacks act self book) w (strategyTimer self fired address)
    keys v = keys w ∧ v.state = act w.state (timerCall fired) ∧
      v.provider.currentDate = w.provider.currentDate := by
  obtain ⟨log, hcall⟩ := callOnTimer_strategyTimer act book self fired w address
  have hcalled : (callOnTimer (callbacks act self book) w
      (strategyTimer self fired address)).provider.allTimers.keys = keys w ∧
      (callOnTimer (callbacks act self book) w
        (strategyTimer self fired address)).provider.currentDate = w.provider.currentDate := by
    rw [hcall]
    dsimp only
    split_ifs
    · exact ⟨keys_setTimer (p := w.provider.setCurrentTime (triggerTime fired)) hself 2 500 true,
        currentDate_setTimer _ self 2 500 true⟩
    · exact ⟨rfl, rfl⟩
  obtain ⟨hkeys, hdate⟩ := hcalled
  rw [fireTimer]
  dsimp only
  split_ifs
  · exact ⟨(keys_reschedule (hkeys ▸ hself)).trans hkeys, by rw [World.record, hcall],
      (currentDate_reschedule _ _).trans hdate⟩
  · exact ⟨(keys_cancelTimer (hkeys ▸ hself) _).trans hkeys, by rw [World.record, hcall], hdate⟩

/-- What a day needs to go on: the strategy is registered and has its one timer. -/
structure Waiting (strategy fired date : ℕ) (consumers : List ℕ) (w : World σ) : Prop where
  keys : keys w = consumers
  armed : Armed strategy fired w
  currentDate : w.provider.currentDate = date

variable {consumers : List ℕ}

theorem Waiting.congr (h : Waiting self fired date consumers w) {v : World σ}
    (hprovider : v.provider = w.provider) : Waiting self fired date consumers v := by
  obtain ⟨hkeys, ⟨address, htimer⟩, hdate⟩ := h
  refine ⟨?_, ⟨address, ?_⟩, ?_⟩
  · rw [StrategyDay.keys, hprovider]
    exact hkeys
  · rwa [hprovider]
  · rwa [hprovider]

theorem Waiting.turn (h : Waiting self fired date consumers w) (hself : self ∈ consumers)
    {timeInMs : ℕ} (hdue : fired < due timeInMs) (hwrap : timeInMs + 500 < 2 ^ 32) :
    isDue timeInMs w = true ∧
      Waiting self (fired + 1) date consumers (fireNext (callbacks act self book) w) ∧
      (fireNext (callbacks act self book) w).state = act w.state (timerCall fired) := by
  have hle := lt_due_iff.mp hdue
  obtain ⟨address, htimer⟩ := h.armed
  obtain ⟨hguard, hfire⟩ := turn_of_single (callbacks act self book)
    (t := strategyTimer self fired address) htimer hle
  obtain ⟨hkeys, hstate, hdate⟩ := frame_fireTimer act book fired (h.keys ▸ hself) address
  rw [hfire]
  refine ⟨hguard, ⟨hkeys.trans h.keys, ?_, hdate.trans h.currentDate⟩, hstate⟩
  by_cases hfirst : fired = 0
  · subst hfirst
    exact armed_fireTimer_first act book htimer
  · rw [eventid_strategyTimer hfirst] at htimer
    exact armed_fireTimer_again act book hfirst (by omega) htimer

theorem Waiting.idle (h : Waiting self fired date consumers w) {timeInMs : ℕ}
    (hdue : ¬ fired < due timeInMs) : isDue timeInMs w = false := by
  obtain ⟨address, htimer⟩ := h.armed
  rw [isDue, getNextTimer_of_single (t := strategyTimer self fired address) htimer]
  exact decide_eq_false fun hle => hdue (lt_due_iff.mpr hle)

theorem timerCalls_cons {fired' : ℕ} (h : fired < fired') :
    timerCalls fired fired' = timerCall fired :: timerCalls (fired + 1) fired' := by
  obtain ⟨n, rfl⟩ := Nat.exists_eq_add_of_lt h
  rw [timerCalls, show fired + n + 1 - fired = n + 1 by omega, List.range'_succ, List.map_cons,
    timerCalls, show fired + n + 1 - (fired + 1) = n by omega]

theorem timerCalls_append {first mid last : ℕ} (hfirst : first ≤ mid) (hlast : mid ≤ last) :
    timerCalls first mid ++ timerCalls mid last = timerCalls first last := by
  obtain ⟨m, rfl⟩ := Nat.exists_eq_add_of_le hfirst
  obtain ⟨n, rfl⟩ := Nat.exists_eq_add_of_le hlast
  rw [timerCalls, timerCalls, timerCalls, ← List.map_append, Nat.add_sub_cancel_left,
    Nat.add_sub_cancel_left, List.range'_append_1, Nat.add_assoc, Nat.add_sub_cancel_left]

theorem timerCalls_self (fired : ℕ) : timerCalls fired fired = [] := by
  rw [timerCalls, Nat.sub_self]
  rfl

/-- The clock comes to every timer that is due and to no other. -/
theorem Waiting.loopEnds (h : Waiting self fired date consumers w) (hself : self ∈ consumers)
    {timeInMs : ℕ} (hwrap : timeInMs + 500 < 2 ^ 32) :
    ∃ v, LoopEnds (isDue timeInMs) (fireNext (callbacks act self book)) w v ∧
      Waiting self (max fired (due timeInMs)) date consumers v ∧
      v.state = (timerCalls fired (max fired (due timeInMs))).foldl act w.state := by
  obtain hdue | hdue := Nat.lt_or_ge fired (due timeInMs)
  · generalize hleft : due timeInMs - fired = left
    induction left generalizing fired w with
    | zero => omega
    | succ left ih =>
        obtain ⟨hguard, hwaiting, hstate⟩ := h.turn act book hself hdue hwrap
        rw [max_eq_right hdue.le, timerCalls_cons hdue, List.foldl_cons, ← hstate]
        obtain hnext | hnext := Nat.lt_or_ge (fired + 1) (due timeInMs)
        · obtain ⟨v, hends, hv, hstate'⟩ := ih hwaiting hnext (by omega)
          rw [max_eq_right hnext.le] at hv hstate'
          exact ⟨v, hends.head hguard, hv, hstate'⟩
        · have hall : due timeInMs = fired + 1 := by omega
          rw [hall, timerCalls_self]
          exact ⟨_, (LoopEnds.of_guard_eq_false (hwaiting.idle (by omega))).head hguard, hwaiting,
            rfl⟩
  · rw [max_eq_left hdue, timerCalls_self]
    exact ⟨w, .of_guard_eq_false (h.idle (by omega)), h, rfl⟩

theorem Waiting.advanceToTime (h : Waiting self fired date consumers w) (hself : self ∈ consumers)
    {timeInMs : ℕ} (hwrap : timeInMs + 500 < 2 ^ 32) :
    ∃ v, (∀ᶠ fuel in Filter.atTop,
        advanceToTime (callbacks act self book) fuel timeInMs w = some v) ∧
      Waiting self (max fired (due timeInMs)) date consumers v ∧
      v.provider.currentTime = timeInMs ∧
      v.state = (timerCalls fired (max fired (due timeInMs))).foldl act w.state := by
  obtain ⟨v, ⟨enough, hends⟩, ⟨hkeys, harmed, hdate⟩, hstate⟩ :=
    h.loopEnds act book hself hwrap
  refine ⟨v.setCurrentTime timeInMs, ?_, ⟨hkeys, harmed, hdate⟩, rfl, hstate⟩
  filter_upwards [Filter.eventually_ge_atTop enough] with fuel hfuel
  rw [TimerProvider.advanceToTime, whileLoop_of_le hfuel hends]
  rfl

end Turn

/-! ### The start of a day -/

/-- Between the days the consumers are registered and there is no timer. -/
structure Rested (consumers : List ℕ) (w : World σ) : Prop where
  keys : keys w = consumers
  timer : ∀ c e, w.provider.timer c e = none

theorem Rested.congr {consumers : List ℕ} {v w : World σ} (h : Rested consumers w)
    (htimers : v.provider.allTimers = w.provider.allTimers) : Rested consumers v := by
  obtain ⟨hkeys, htimer⟩ := h
  refine ⟨?_, fun c e => ?_⟩
  · rw [StrategyDay.keys, htimers]
    exact hkeys
  · have hsame := htimer c e
    rwa [FakeTimerProvider.timer, FakeTimerProvider.timersOf, ← htimers] at hsame

section Day

variable (act : σ → Call → σ) {self : ℕ} (book : ℕ) {date : ℕ} {consumers : List ℕ} {w : World σ}

theorem callOnStartDay_other (date : ℕ) (w : World σ) {consumer : ℕ} (hne : consumer ≠ self) :
    let v := callOnStartDay (callbacks act self book) date w consumer
    v.provider = w.provider ∧
      v.state = (startCalls self book date [consumer]).foldl act w.state := by
  simp only [callOnStartDay, callbacks, startCalls, List.flatMap_singleton, if_neg hne]
  split_ifs <;> exact ⟨rfl, rfl⟩

theorem callOnStartDay_self (hrested : Rested consumers w) (hself : self ∈ consumers)
    (hclock : w.provider.currentTime = 0) (hdate : w.provider.currentDate = date) :
    let v := callOnStartDay (callbacks act self book) date w self
    Waiting self 0 date consumers v ∧ v.state = act w.state .startDay := by
  have hcalled : ∃ log, callOnStartDay (callbacks act self book) date w self =
      ⟨(w.provider.setTimer self 1 targetTime false).2, act w.state .startDay, log⟩ := by
    unfold callOnStartDay callbacks
    simp only [if_true, hclock]
    exact ⟨_, rfl⟩
  obtain ⟨log, hcalled⟩ := hcalled
  have hnew : w.provider.newTimer self 1 targetTime false =
      strategyTimer self 0 w.provider.allocated := by
    rw [FakeTimerProvider.newTimer, hclock]
    rfl
  have hmem : self ∈ keys w := hrested.keys ▸ hself
  rw [hcalled]
  refine ⟨⟨(keys_setTimer hmem 1 targetTime false).trans hrested.keys,
    ⟨w.provider.allocated, fun c e => ?_⟩,
    (currentDate_setTimer w.provider self 1 targetTime false).trans hdate⟩, rfl⟩
  simp only [FakeTimerProvider.timer_setTimer, hrested.timer, hnew, Option.none_or]
  rfl

theorem startCalls_append (left right : List ℕ) :
    startCalls self book date (left ++ right) =
      startCalls self book date left ++ startCalls self book date right :=
  List.flatMap_append

theorem foldl_callOnStartDay_others (date : ℕ) (w : World σ) {others : List ℕ}
    (hothers : self ∉ others) :
    let v := others.foldl (callOnStartDay (callbacks act self book) date) w
    v.provider = w.provider ∧
      v.state = (startCalls self book date others).foldl act w.state := by
  induction others generalizing w with
  | nil => exact ⟨rfl, rfl⟩
  | cons consumer others ih =>
      obtain ⟨hne, hrest⟩ := not_or.mp fun h => hothers (List.mem_cons.mpr h)
      obtain ⟨hprovider, hstate⟩ := callOnStartDay_other act book date w (Ne.symm hne)
      obtain ⟨hprovider', hstate'⟩ := ih (callOnStartDay _ date w consumer) hrest
      refine ⟨hprovider'.trans hprovider, ?_⟩
      rw [List.foldl_cons, hstate', hstate, ← List.foldl_append, ← startCalls_append,
        List.singleton_append]

theorem keys_callOnStartDay (hself : self ∈ keys w) (consumer : ℕ) :
    keys (callOnStartDay (callbacks act self book) date w consumer) = keys w := by
  simp only [callOnStartDay, callbacks]
  split_ifs
  · exact keys_setTimer (p := w.provider) hself 1 _ false
  · rfl
  · rfl

theorem Rested.startDate (h : Rested consumers w) (hself : self ∈ consumers) :
    ∃ v, (∀ᶠ fuel in Filter.atTop,
        TimerProvider.startDate (callbacks act self book) fuel date w = some v) ∧
      Waiting self 0 date consumers v ∧
      v.state = (startCalls self book date consumers).foldl act w.state := by
  let begun : World σ :=
    { w with provider := { w.provider with currentDate := date, currentTime := 0 } }
  obtain ⟨before, after, hsplit⟩ := List.append_of_mem hself
  have hnodup : (before ++ self :: after).Nodup := by
    rw [← hsplit, ← h.keys]
    exact OrderedMap.keys_nodup _
  obtain ⟨-, hlater, hapart⟩ := List.nodup_append.mp hnodup
  have hbefore : self ∉ before := fun hmem => hapart self hmem self (List.mem_cons_self ..) rfl
  obtain ⟨hprovider, hstate⟩ := foldl_callOnStartDay_others act book date begun hbefore
  generalize hu : before.foldl (callOnStartDay (callbacks act self book) date) begun = u
    at hprovider hstate
  have hrested : Rested consumers u := h.congr (by rw [hprovider])
  have hclock : u.provider.currentTime = 0 := by rw [hprovider]
  obtain ⟨hwaiting, hown⟩ := callOnStartDay_self act book hrested
    hself hclock (by rw [hprovider])
  obtain ⟨hprovider', hstate'⟩ := foldl_callOnStartDay_others act book date
    (callOnStartDay (callbacks act self book) date u self) (List.nodup_cons.mp hlater).1
  refine ⟨consumers.foldl (callOnStartDay (callbacks act self book) date) begun, ?_, ?_, ?_⟩
  · filter_upwards [Filter.eventually_gt_atTop consumers.length] with fuel hfuel
    refine forEachConsumer_eq (w := begun) h.keys (fun v hv c _ => ?_) hfuel
    exact keys_callOnStartDay act book (hv ▸ hself) c
  · rw [hsplit, List.foldl_append, List.foldl_cons, hu, ← hsplit]
    exact hwaiting.congr hprovider'
  · rw [hsplit, List.foldl_append, List.foldl_cons, hu, hstate', hown, hstate, startCalls_append,
      List.foldl_append]
    simp [startCalls, begun]

/-! ### The ticks and the end -/

theorem callOnMarketData_state (self : ℕ) (w : World σ) (tick : CTickData) (consumer : ℕ) :
    let v := callOnMarketData (callbacks act self book) tick w consumer
    v.provider = w.provider ∧ v.state =
      (if consumer = self then [.marketData tick w.provider.currentTime]
        else if consumer = book then [.marketDataBook tick] else []).foldl act w.state := by
  simp only [callOnMarketData, callbacks]
  split_ifs <;> exact ⟨rfl, rfl⟩

theorem foldl_callOnMarketData (self : ℕ) {tick : CTickData} (tickConsumers : List ℕ)
    (hclock : w.provider.currentTime = tick.timeInMS) :
    let v := tickConsumers.foldl (callOnMarketData (callbacks act self book) tick) w
    v.provider = w.provider ∧
      v.state = (tickCalls self book tickConsumers tick).foldl act w.state := by
  induction tickConsumers generalizing w with
  | nil => exact ⟨rfl, rfl⟩
  | cons consumer tickConsumers ih =>
      obtain ⟨hprovider, hstate⟩ := callOnMarketData_state act book self w tick consumer
      obtain ⟨hprovider', hstate'⟩ := ih (w := callOnMarketData _ tick w consumer)
        (by rw [hprovider, hclock])
      refine ⟨hprovider'.trans hprovider, ?_⟩
      rw [List.foldl_cons, hstate', hstate, hclock, ← List.foldl_append, tickCalls, tickCalls,
        List.flatMap_cons]

variable {fired : ℕ}

theorem Waiting.replayTick (h : Waiting self fired date consumers w) (hself : self ∈ consumers)
    {tick : CTickData} (hwrap : tick.timeInMS + 500 < 2 ^ 32) (tickConsumers : List ℕ) :
    ∃ v, (∀ᶠ fuel in Filter.atTop,
        TimerProvider.replayTick (callbacks act self book) fuel tickConsumers w tick = some v) ∧
      Waiting self (max fired (due tick.timeInMS)) date consumers v ∧
      v.state = (timerCalls fired (max fired (due tick.timeInMS)) ++
        tickCalls self book tickConsumers tick).foldl act w.state := by
  obtain ⟨u, hadvance, hwaiting, hclock, hstate⟩ :=
    h.advanceToTime act book hself hwrap
  obtain ⟨hprovider, hstate'⟩ := foldl_callOnMarketData act book self tickConsumers hclock
  refine ⟨_, ?_, hwaiting.congr hprovider, ?_⟩
  · filter_upwards [hadvance] with fuel hfuel
    rw [TimerProvider.replayTick, hfuel]
    rfl
  · rw [hstate', hstate, List.foldl_append]

theorem Waiting.trading (h : Waiting self fired date consumers w) (hself : self ∈ consumers)
    {ticks : List CTickData} (hwrap : ∀ tick ∈ ticks, tick.timeInMS + 500 < 2 ^ 32)
    (tickConsumers : List ℕ) :
    ∃ v fired', (∀ᶠ fuel in Filter.atTop,
        (ticks.foldlM (TimerProvider.replayTick (callbacks act self book) fuel tickConsumers)
          w).bind (TimerProvider.advanceToTime (callbacks act self book) fuel lastMs) = some v) ∧
      Waiting self fired' date consumers v ∧
      v.state = (tradingCalls self book tickConsumers fired ticks).foldl act w.state := by
  induction ticks generalizing fired w with
  | nil =>
      have hlast : lastMs + 500 < 2 ^ 32 := by decide
      obtain ⟨v, hadvance, hwaiting, -, hstate⟩ := h.advanceToTime act book hself hlast
      refine ⟨v, _, ?_, hwaiting, hstate⟩
      filter_upwards [hadvance] with fuel hfuel
      exact hfuel
  | cons tick ticks ih =>
      obtain ⟨hfirst, hothers⟩ := List.forall_mem_cons.mp hwrap
      obtain ⟨u, htick, hwaiting, hstate⟩ :=
        h.replayTick act book hself hfirst tickConsumers
      obtain ⟨v, fired', hrest, hwaiting', hstate'⟩ := ih hwaiting hothers
      refine ⟨v, fired', ?_, hwaiting', ?_⟩
      · filter_upwards [htick, hrest] with fuel hfuel hfuel'
        rw [List.foldlM_cons, hfuel]
        exact hfuel'
      · rw [hstate', hstate, tradingCalls]
        simp only [List.foldl_append]

theorem callOnEndDay_eq (self : ℕ) (w : World σ) (consumer : ℕ) :
    let v := callOnEndDay (callbacks act self book) w consumer
    v.provider = w.provider.registerTimerConsumer consumer ∧
      v.state = (endCalls self w.provider.currentDate [consumer]).foldl act w.state := by
  simp only [callOnEndDay, callbacks, endCalls, List.flatMap_singleton]
  split_ifs <;> exact ⟨rfl, rfl⟩

theorem foldl_callOnEndDay (self : ℕ) {told : List ℕ} (htold : ∀ c ∈ told, c ∈ keys w) :
    let v := told.foldl (callOnEndDay (callbacks act self book)) w
    keys v = keys w ∧
      (∀ c e, v.provider.timer c e = if c ∈ told then none else w.provider.timer c e) ∧
      v.state = (endCalls self w.provider.currentDate told).foldl act w.state := by
  induction told generalizing w with
  | nil => exact ⟨rfl, fun _ _ => rfl, rfl⟩
  | cons consumer told ih =>
      obtain ⟨hconsumer, hothers⟩ := List.forall_mem_cons.mp htold
      obtain ⟨hprovider, hstate⟩ := callOnEndDay_eq act book self w consumer
      have hkeys : keys (callOnEndDay (callbacks act self book) w consumer) = keys w := by
        rw [keys, hprovider]
        exact keys_setTimers hconsumer OrderedMap.empty
      obtain ⟨hkeys', htimer, hstate'⟩ :=
        ih (w := callOnEndDay _ w consumer) fun c hc => hkeys ▸ hothers c hc
      refine ⟨hkeys'.trans hkeys, fun c e => ?_, ?_⟩
      · rw [List.foldl_cons, htimer, hprovider, FakeTimerProvider.timer_registerTimerConsumer]
        simp only [List.mem_cons]
        split_ifs <;> simp_all
      · have hdate : (callOnEndDay (callbacks act self book) w consumer).provider.currentDate =
            w.provider.currentDate := by
          rw [hprovider]
          rfl
        rw [List.foldl_cons, hstate', hstate, hdate, ← List.foldl_append, endCalls, endCalls,
          ← List.flatMap_append, List.singleton_append, endCalls]

theorem Waiting.closeDate (h : Waiting self fired date consumers w) (hself : self ∈ consumers) :
    ∃ v, (∀ᶠ fuel in Filter.atTop,
        TimerProvider.closeDate (callbacks act self book) fuel w = some v) ∧
      Rested consumers v ∧ v.state = (endCalls self date consumers).foldl act w.state := by
  have htold : ∀ c ∈ consumers, c ∈ StrategyDay.keys w := fun c hc => h.keys ▸ hc
  obtain ⟨hkeys, htimer, hstate⟩ := foldl_callOnEndDay act book self htold
  rw [h.currentDate] at hstate
  refine ⟨_, ?_, ⟨hkeys.trans h.keys, fun c e => ?_⟩, hstate⟩
  · filter_upwards [Filter.eventually_gt_atTop consumers.length] with fuel hfuel
    refine forEachConsumer_eq h.keys (fun v hv c hc => ?_) hfuel
    rw [StrategyDay.keys, (callOnEndDay_eq act book self v c).1]
    exact keys_setTimers (hv ▸ hc) OrderedMap.empty
  · obtain ⟨address, harmed⟩ := h.armed
    rw [htimer, harmed]
    split_ifs with hc hkey
    · rfl
    · exact absurd (hkey.1 ▸ hself) hc
    · rfl

/-- A replayed day calls the strategy and the position manager as `dayCalls` says, whatever
they do when they are called, and leaves the timer provider ready for the next day. -/
theorem Rested.startReplay (h : Rested consumers w) (hself : self ∈ consumers) (hdate : date ≠ 0)
    {ticks : List CTickData} (hwrap : ∀ tick ∈ ticks, tick.timeInMS + 500 < 2 ^ 32)
    (tickConsumers : List ℕ) :
    ∃ v, (∀ᶠ fuel in Filter.atTop,
        TimerProvider.startReplay (callbacks act self book) fuel date tickConsumers ticks w =
          some v) ∧
      Rested consumers v ∧
      v.state =
        (dayCalls self book consumers tickConsumers date ticks).foldl act w.state := by
  obtain ⟨u₁, hstart, hwaiting₁, hstate₁⟩ :=
    h.startDate act book hself
  obtain ⟨u₂, fired, htrade, hwaiting₂, hstate₂⟩ :=
    hwaiting₁.trading act book hself hwrap tickConsumers
  obtain ⟨v, hclose, hrested, hstate₃⟩ := hwaiting₂.closeDate act book hself
  refine ⟨v, ?_, hrested, ?_⟩
  · filter_upwards [hstart, htrade, hclose] with fuel hfuel₁ hfuel₂ hfuel₃
    rw [startReplay_eq hdate, beforeEndDay, replayTicks, hfuel₁, Option.bind_some, hfuel₂,
      Option.bind_some, hfuel₃]
  · rw [hstate₃, hstate₂, hstate₁, dayCalls]
    simp only [List.foldl_append]

/-! ### Several days -/

/-- The clock can be advanced past every tick, and the date is one that `endDate` accepts. -/
def Replayable (day : MarketDataReplayerMultiThread) : Prop :=
  day.date ≠ 0 ∧ ∀ tick ∈ day.allTicks, tick.timeInMS + 500 < 2 ^ 32

def replayDays (consumers : Consumers σ) (fuel : ℕ) (tickConsumers : List ℕ)
    (days : List MarketDataReplayerMultiThread) (w : World σ) : Option (World σ) :=
  days.foldlM
    (fun w day => TimerProvider.startReplay consumers fuel day.date tickConsumers day.allTicks w) w

def testCalls (self book : ℕ) (consumers tickConsumers : List ℕ)
    (days : List MarketDataReplayerMultiThread) : List Call :=
  days.flatMap fun day => dayCalls self book consumers tickConsumers day.date day.allTicks

theorem Rested.replayDays (h : Rested consumers w) (hself : self ∈ consumers)
    {days : List MarketDataReplayerMultiThread} (hdays : ∀ day ∈ days, Replayable day)
    (tickConsumers : List ℕ) :
    ∃ v, (∀ᶠ fuel in Filter.atTop,
        StrategyDay.replayDays (callbacks act self book) fuel tickConsumers days w = some v) ∧
      Rested consumers v ∧
      v.state = (testCalls self book consumers tickConsumers days).foldl act w.state := by
  induction days generalizing w with
  | nil => exact ⟨w, .of_forall fun _ => rfl, h, rfl⟩
  | cons day days ih =>
      obtain ⟨⟨hdate, hwrap⟩, hothers⟩ := List.forall_mem_cons.mp hdays
      obtain ⟨u, hday, hrested, hstate⟩ :=
        h.startReplay act book hself hdate hwrap tickConsumers
      obtain ⟨v, hrest, hrested', hstate'⟩ := ih hrested hothers
      refine ⟨v, ?_, hrested', ?_⟩
      · filter_upwards [hday, hrest] with fuel hfuel hfuel'
        rw [StrategyDay.replayDays, List.foldlM_cons, hfuel]
        exact hfuel'
      · rw [hstate', hstate, testCalls, testCalls, List.flatMap_cons, List.foldl_append]

end Day

def registered (self book : ℕ) (state : σ) : World σ where
  provider := (FakeTimerProvider.create.registerTimerConsumer self).registerTimerConsumer book
  state := state
  log := []

theorem rested_registered (self book : ℕ) (state : σ) :
    Rested (keys (registered self book state)) (registered self book state) := by
  refine ⟨rfl, fun c e => ?_⟩
  simp only [registered, FakeTimerProvider.timer_registerTimerConsumer]
  split_ifs <;> rfl

theorem mem_keys_registered (self book : ℕ) (state : σ) :
    self ∈ keys (registered self book state) := by
  have hfound : (registered self book state).provider.allTimers.find? self =
      some OrderedMap.empty := by
    simp only [registered, FakeTimerProvider.registerTimerConsumer, FakeTimerProvider.setTimers,
      OrderedMap.find?_insert]
    split_ifs <;> rfl
  exact List.mem_map_of_mem ((OrderedMap.mem_entries_iff _ _ _).mpr hfound)

/-! ### The timers of a day -/

def isTimer : Call → Bool
  | .timer _ => true
  | _ => false

/-- The ticks come in the order of their times, none of them after the last second. -/
def Ordered (ticks : List CTickData) : Prop :=
  SortedBy CTickData.timeInMS ticks ∧ ∀ tick ∈ ticks, tick.timeInMS ≤ lastMs

theorem Ordered.replayable {day : MarketDataReplayerMultiThread} (hdate : day.date ≠ 0)
    (h : Ordered day.allTicks) : Replayable day := by
  refine ⟨hdate, fun tick hmem => ?_⟩
  have hle := h.2 tick hmem
  unfold lastMs at hle
  omega

theorem due_mono {earlier later : ℕ} (h : earlier ≤ later) : due earlier ≤ due later := by
  unfold due
  omega

/-- When the strategy is told of a tick, all timers that are due by the time of the tick have gone
off, and no others. -/
def Timed (fired : ℕ) (cs : List Call) : Prop :=
  ∀ pre data now post, cs = pre ++ .marketData data now :: post →
    fired + pre.countP isTimer = due data.timeInMS ∧ now = data.timeInMS

theorem Timed.append {fired : ℕ} {cs ds : List Call} (hcs : Timed fired cs)
    (hds : Timed (fired + cs.countP isTimer) ds) : Timed fired (cs ++ ds) := by
  intro pre data now post hsplit
  obtain ⟨mid, rfl, rfl⟩ | ⟨mid, rfl, hmid⟩ := List.append_eq_append_iff.mp hsplit
  · obtain ⟨hcount, hnow⟩ := hds mid data now post rfl
    rw [List.countP_append, ← Nat.add_assoc]
    exact ⟨hcount, hnow⟩
  · cases mid with
    | nil =>
        rw [List.append_nil] at hds
        exact hds [] data now post hmid.symm
    | cons c mid =>
        obtain ⟨rfl, -⟩ := List.cons.inj hmid
        exact hcs pre data now mid rfl

theorem Timed.of_noTick {fired : ℕ} {cs : List Call}
    (h : ∀ data now, .marketData data now ∉ cs) : Timed fired cs := by
  rintro pre data now post rfl
  exact absurd (List.mem_append_cons_self ..) (h data now)

theorem countP_timerCalls (fired fired' : ℕ) :
    (timerCalls fired fired').countP isTimer = fired' - fired := by
  rw [List.countP_eq_length.mpr, timerCalls, List.length_map, List.length_range']
  intro c hc
  obtain ⟨k, rfl⟩ := of_mem_timerCalls hc
  rfl

theorem timerCalls_eq_replicate {first : ℕ} (hfirst : first ≠ 0) (last : ℕ) :
    timerCalls first last = List.replicate (last - first) (.timer 2) := by
  refine List.eq_replicate_iff.mpr ⟨?_, fun c hc => ?_⟩
  · rw [timerCalls, List.length_map, List.length_range']
  · obtain ⟨k, hk, rfl⟩ := List.mem_map.mp hc
    obtain ⟨i, -, rfl⟩ := List.mem_range'.mp hk
    have hk0 : first + 1 * i ≠ 0 := by omega
    rw [timerCall, if_neg hk0]

theorem timerCalls_lastMs :
    timerCalls 0 (due lastMs) = .timer 1 :: List.replicate 107999 (.timer 2) := by
  have hdue : due lastMs = 107999 + 1 := by decide
  rw [hdue, timerCalls_cons (Nat.succ_pos _), timerCalls_eq_replicate (Nat.succ_ne_zero 0),
    Nat.succ_sub_one]
  rfl

section Timers

variable (self book : ℕ) (tickConsumers : List ℕ) {fired : ℕ} {ticks : List CTickData}

theorem countP_tickCalls (tick : CTickData) :
    (tickCalls self book tickConsumers tick).countP isTimer = 0 := by
  refine List.countP_eq_zero.mpr fun c hc => ?_
  obtain rfl | rfl := of_mem_tickCalls hc
  · exact Bool.false_ne_true
  · exact Bool.false_ne_true

theorem timed_timerCalls (fired first last : ℕ) : Timed fired (timerCalls first last) := by
  refine .of_noTick fun data now hmem => ?_
  obtain ⟨k, hk⟩ := of_mem_timerCalls hmem
  cases hk

theorem timed_tickCalls (tick : CTickData) :
    Timed (due tick.timeInMS) (tickCalls self book tickConsumers tick) := by
  intro pre data now post hsplit
  have hcount := countP_tickCalls self book tickConsumers tick
  rw [hsplit, List.countP_append] at hcount
  obtain heq | heq := of_mem_tickCalls (hsplit ▸ List.mem_append_cons_self ..)
  · obtain ⟨rfl, rfl⟩ := Call.marketData.inj heq
    exact ⟨by omega, rfl⟩
  · cases heq

theorem timed_tradingCalls (hticks : Ordered ticks)
    (hfired : ∀ tick ∈ ticks, fired ≤ due tick.timeInMS) :
    Timed fired (tradingCalls self book tickConsumers fired ticks) := by
  induction ticks generalizing fired with
  | nil => exact timed_timerCalls _ _ _
  | cons tick ticks ih =>
      obtain ⟨hsorted, hbound⟩ := hticks
      obtain ⟨hbefore, hsorted⟩ := List.pairwise_cons.mp hsorted
      obtain ⟨-, hbound⟩ := List.forall_mem_cons.mp hbound
      have hdue := hfired tick (List.mem_cons_self ..)
      have htimed := ih ⟨hsorted, hbound⟩ fun later hlater => due_mono (hbefore later hlater)
      rw [tradingCalls, max_eq_right hdue]
      refine (timed_timerCalls _ _ _).append ?_
      rw [countP_timerCalls, Nat.add_sub_cancel' hdue]
      refine (timed_tickCalls self book tickConsumers tick).append ?_
      rwa [countP_tickCalls, Nat.add_zero]

theorem timed_dayCalls (consumers : List ℕ) (date : ℕ) (hticks : Ordered ticks) :
    Timed 0 (dayCalls self book consumers tickConsumers date ticks) := by
  have hstart : (startCalls self book date consumers).countP isTimer = 0 := by
    refine List.countP_eq_zero.mpr fun c hc => ?_
    obtain rfl | rfl := of_mem_startCalls hc
    · exact Bool.false_ne_true
    · exact Bool.false_ne_true
  have htrading := timed_tradingCalls self book tickConsumers hticks fun _ _ => Nat.zero_le _
  refine Timed.append (.of_noTick fun data now hmem => ?_) ?_
  · obtain heq | heq := of_mem_startCalls hmem
    · cases heq
    · cases heq
  · rw [hstart, Nat.add_zero]
    refine htrading.append (.of_noTick fun data now hmem => ?_)
    cases of_mem_endCalls hmem

theorem filter_isTimer_tradingCalls (hticks : ∀ tick ∈ ticks, tick.timeInMS ≤ lastMs)
    (hlast : fired ≤ due lastMs) :
    (tradingCalls self book tickConsumers fired ticks).filter isTimer =
      timerCalls fired (due lastMs) := by
  have htimers : ∀ first last, (timerCalls first last).filter isTimer = timerCalls first last := by
    refine fun first last => List.filter_eq_self.mpr fun c hc => ?_
    obtain ⟨k, rfl⟩ := of_mem_timerCalls hc
    rfl
  induction ticks generalizing fired with
  | nil => rw [tradingCalls, max_eq_right hlast, htimers]
  | cons tick ticks ih =>
      obtain ⟨htick, hothers⟩ := List.forall_mem_cons.mp hticks
      have hmax : max fired (due tick.timeInMS) ≤ due lastMs := max_le hlast (due_mono htick)
      have hnone := List.countP_eq_zero.mp (countP_tickCalls self book tickConsumers tick)
      rw [tradingCalls, List.filter_append, List.filter_append, htimers,
        List.filter_eq_nil_iff.mpr hnone, List.nil_append, ih hothers hmax,
        timerCalls_append (le_max_left _ _) hmax]

end Timers

/-! ### What a test calls -/

def strategyTick : Call → Option CTickData
  | .marketData data _ => some data
  | _ => none

def bookTick : Call → Option CTickData
  | .marketDataBook data => some data
  | _ => none

def isTrading : Call → Bool
  | .marketData .. | .marketDataBook _ | .timer _ => true
  | _ => false

/-- The calls of a day.  It starts in the strategy and in the position manager, either first, and
ends in the strategy. -/
structure OfDay (day : MarketDataReplayerMultiThread) (cs : List Call) : Prop where
  bounds : ∃ start trading, cs = start ++ (trading ++ [.endDay day.date]) ∧
    start.Perm [.startDay, .startDayBook day.date] ∧ ∀ c ∈ trading, isTrading c = true
  strategyTicks : cs.filterMap strategyTick = day.allTicks
  bookTicks : cs.filterMap bookTick = day.allTicks
  /-- The timer of half a second before nine, and the one of every half second from then on. -/
  timers : cs.filter isTimer = .timer 1 :: List.replicate 107999 (.timer 2)
  /-- Each tick comes at its own time, when exactly the timers due by then have gone off. -/
  timed : ∀ pre data now post, cs = pre ++ .marketData data now :: post →
    pre.countP isTimer = due data.timeInMS ∧ now = data.timeInMS

theorem flatMap_singleton_of_mem {α β : Type} [DecidableEq α] {l : List α} {a : α}
    (hnodup : l.Nodup) (hmem : a ∈ l) (x : β) :
    (l.flatMap fun b => if b = a then [x] else []) = [x] := by
  have hcount : ∀ l : List α,
      (l.flatMap fun b => if b = a then [x] else []) = List.replicate (l.count a) x := by
    intro l
    induction l with
    | nil => rfl
    | cons b l ih =>
        rw [List.flatMap_cons, ih, List.count_cons]
        by_cases hb : b = a
        · simp [hb, List.replicate_succ]
        · simp [hb]
  rw [hcount, List.count_eq_one_of_mem hnodup hmem, List.replicate_one]

section OfDay

variable {self book : ℕ} {tickConsumers : List ℕ} {consumers : List ℕ}

theorem filterMap_strategyTick_tickCalls (hnodup : tickConsumers.Nodup)
    (hself : self ∈ tickConsumers) (tick : CTickData) :
    (tickCalls self book tickConsumers tick).filterMap strategyTick = [tick] := by
  rw [tickCalls, List.filterMap_flatMap, ← flatMap_singleton_of_mem hnodup hself tick]
  refine congrArg (List.flatMap · tickConsumers) (funext fun consumer => ?_)
  split_ifs <;> rfl

theorem filterMap_bookTick_tickCalls (hne : self ≠ book) (hnodup : tickConsumers.Nodup)
    (hbook : book ∈ tickConsumers) (tick : CTickData) :
    (tickCalls self book tickConsumers tick).filterMap bookTick = [tick] := by
  rw [tickCalls, List.filterMap_flatMap, ← flatMap_singleton_of_mem hnodup hbook tick]
  refine congrArg (List.flatMap · tickConsumers) (funext fun consumer => ?_)
  by_cases hself : consumer = self
  · rw [if_pos hself, if_neg (hself.trans_ne hne)]
    rfl
  · rw [if_neg hself]
    split_ifs <;> rfl

theorem filterMap_tradingCalls {pick : Call → Option CTickData} {ticks : List CTickData}
    (htimer : ∀ eventID, pick (.timer eventID) = none)
    (hpick : ∀ tick, (tickCalls self book tickConsumers tick).filterMap pick = [tick])
    (fired : ℕ) :
    (tradingCalls self book tickConsumers fired ticks).filterMap pick = ticks := by
  have htimers : ∀ first last, (timerCalls first last).filterMap pick = [] := by
    refine fun first last => List.filterMap_eq_nil_iff.mpr fun c hc => ?_
    obtain ⟨k, rfl⟩ := of_mem_timerCalls hc
    exact htimer _
  induction ticks generalizing fired with
  | nil => exact htimers _ _
  | cons tick ticks ih =>
      rw [tradingCalls, List.filterMap_append, List.filterMap_append, htimers, hpick, ih]
      rfl

theorem endCalls_of_mem {date : ℕ} (hnodup : consumers.Nodup) (hself : self ∈ consumers) :
    endCalls self date consumers = [.endDay date] :=
  flatMap_singleton_of_mem hnodup hself _

theorem startCalls_of_perm (hne : self ≠ book) (date : ℕ) (hperm : consumers.Perm [self, book]) :
    (startCalls self book date consumers).Perm [.startDay, .startDayBook date] := by
  have hstart : startCalls self book date [self, book] = [.startDay, .startDayBook date] := by
    simp [startCalls, hne.symm]
  rw [← hstart]
  exact hperm.flatMap_right _

theorem ofDay_dayCalls (hne : self ≠ book) (hconsumers : consumers.Perm [self, book])
    (hnodup : tickConsumers.Nodup) (hself : self ∈ tickConsumers) (hbook : book ∈ tickConsumers)
    {day : MarketDataReplayerMultiThread} (hticks : Ordered day.allTicks) :
    OfDay day (dayCalls self book consumers tickConsumers day.date day.allTicks) := by
  have hpair : [self, book].Nodup := by simpa using hne
  have hend : endCalls self day.date consumers = [.endDay day.date] :=
    endCalls_of_mem (hconsumers.nodup_iff.mpr hpair) (hconsumers.mem_iff.mpr (by simp))
  have hstart := startCalls_of_perm hne day.date hconsumers
  have htimed := timed_dayCalls self book tickConsumers consumers day.date hticks
  have htimers := filter_isTimer_tradingCalls self book tickConsumers hticks.2 (Nat.zero_le _)
  have hnoStart {α : Type} {pick : Call → Option α} (hstartDay : pick .startDay = none)
      (hstartDayBook : pick (.startDayBook day.date) = none) :
      (startCalls self book day.date consumers).filterMap pick = [] := by
    refine List.filterMap_eq_nil_iff.mpr fun c hc => ?_
    obtain rfl | rfl := of_mem_startCalls hc
    · exact hstartDay
    · exact hstartDayBook
  refine ⟨⟨_, tradingCalls self book tickConsumers 0 day.allTicks, ?_, hstart, fun c hc => ?_⟩,
    ?_, ?_, ?_, fun pre data now post hsplit => ?_⟩
  · rw [dayCalls, hend]
  · obtain ⟨k, rfl⟩ | ⟨tick, -, hc⟩ := of_mem_tradingCalls hc
    · rfl
    · obtain rfl | rfl := of_mem_tickCalls hc <;> rfl
  · rw [dayCalls, hend, List.filterMap_append, List.filterMap_append, hnoStart rfl rfl,
      filterMap_tradingCalls (fun _ => rfl) (filterMap_strategyTick_tickCalls hnodup hself)]
    exact List.append_nil _
  · rw [dayCalls, hend, List.filterMap_append, List.filterMap_append, hnoStart rfl rfl,
      filterMap_tradingCalls (fun _ => rfl) (filterMap_bookTick_tickCalls hne hnodup hbook)]
    exact List.append_nil _
  · have hnone : (startCalls self book day.date consumers).filter isTimer = [] := by
      refine List.filter_eq_nil_iff.mpr fun c hc => ?_
      obtain rfl | rfl := of_mem_startCalls hc <;> exact Bool.false_ne_true
    have hlast : [Call.endDay day.date].filter isTimer = [] := rfl
    rw [dayCalls, hend, List.filter_append, List.filter_append, hnone, hlast, htimers,
      timerCalls_lastMs, List.nil_append, List.append_nil]
  · have hpre := htimed pre data now post hsplit
    rwa [Nat.zero_add] at hpre

end OfDay

theorem keys_registered {self book : ℕ} (hne : self ≠ book) (state : σ) :
    (keys (registered self book state)).Perm [self, book] := by
  change (OrderedMap.insertEntry book _ [(self, _)]).map Prod.fst |>.Perm [self, book]
  rw [OrderedMap.insertEntry, if_neg hne.symm]
  split_ifs
  · exact List.Perm.swap self book []
  · rfl

/-- Whatever a strategy does when it is called, the replay of the days comes to an end, calls on
every day what `OfDay` says and leaves the timers ready for the next day. -/
theorem calls_of_days {self book : ℕ} (hne : self ≠ book) {tickConsumers : List ℕ}
    (hnodup : tickConsumers.Nodup) (hself : self ∈ tickConsumers) (hbook : book ∈ tickConsumers)
    {days : List MarketDataReplayerMultiThread}
    (hdays : ∀ day ∈ days, day.date ≠ 0 ∧ Ordered day.allTicks) :
    ∃ calls : List (List Call), List.Forall₂ OfDay days calls ∧
      ∀ (σ : Type) (act : σ → Call → σ) (state : σ), ∃ v,
        (∀ᶠ fuel in Filter.atTop, replayDays (callbacks act self book) fuel tickConsumers days
          (registered self book state) = some v) ∧
        Rested (keys (registered self book state)) v ∧ v.state = calls.flatten.foldl act state := by
  let consumers := keys (registered self book ())
  refine ⟨days.map fun day => dayCalls self book consumers tickConsumers day.date day.allTicks,
    ?_, fun σ act state => ?_⟩
  · refine List.forall₂_map_right_iff.mpr (List.forall₂_same.mpr fun day hmem => ?_)
    exact ofDay_dayCalls hne (keys_registered hne ()) hnodup hself hbook (hdays day hmem).2
  · have hreplayable : ∀ day ∈ days, Replayable day := fun day hmem =>
      (hdays day hmem).2.replayable (hdays day hmem).1
    exact (rested_registered self book state).replayDays act book
      (mem_keys_registered self book state) hreplayable tickConsumers

def twoDays : List MarketDataReplayerMultiThread :=
  [⟨20150105, [{ instIndex := 10200000, timeInMS := 32000000 },
      { instIndex := 10200000, timeInMS := 43200000 }]⟩,
    ⟨20150106, [{ instIndex := 10200000, timeInMS := 32400000 }]⟩]

/-- A strategy that writes down its calls has the three ticks and 216000 timers at the end. -/
theorem calls_of_days_twoDays : ∃ v : World (List Call),
    (∀ᶠ fuel in Filter.atTop, replayDays (callbacks (fun cs c => c :: cs) 0 1) fuel [0, 1] twoDays
      (registered 0 1 []) = some v) ∧
    v.state.reverse.filterMap strategyTick = twoDays.flatMap (·.allTicks) ∧
    v.state.countP isTimer = 216000 := by
  have hmonday : Ordered [{ instIndex := 10200000, timeInMS := 32000000 },
      { instIndex := 10200000, timeInMS := 43200000 }] :=
    ⟨List.pairwise_pair.mpr (by decide), by decide⟩
  have htuesday : Ordered [{ instIndex := 10200000, timeInMS := 32400000 }] :=
    ⟨List.pairwise_singleton _ _, by decide⟩
  have hdays : ∀ day ∈ twoDays, day.date ≠ 0 ∧ Ordered day.allTicks :=
    List.forall_mem_cons.mpr ⟨⟨by decide, hmonday⟩,
      List.forall_mem_singleton.mpr ⟨by decide, htuesday⟩⟩
  have hnodup : [0, 1].Nodup := by decide
  obtain ⟨calls, hcalls, hreplay⟩ :=
    calls_of_days zero_ne_one hnodup (by decide) (by decide) hdays
  obtain ⟨v, hfuel, -, hstate⟩ := hreplay (List Call) (fun cs c => c :: cs) []
  obtain ⟨monday, others, hmonday, hothers, rfl⟩ := List.forall₂_cons_left_iff.mp hcalls
  obtain ⟨tuesday, none, htuesday, hnone, rfl⟩ := List.forall₂_cons_left_iff.mp hothers
  obtain rfl := List.forall₂_nil_left_iff.mp hnone
  have hlog : v.state = (monday ++ tuesday).reverse := by
    rw [hstate, List.foldl_flip_cons_eq_append]
    simp
  refine ⟨v, hfuel, ?_, ?_⟩
  · rw [hlog, List.reverse_reverse, List.filterMap_append, hmonday.strategyTicks,
      htuesday.strategyTicks]
    rfl
  · rw [hlog, List.countP_reverse, List.countP_append, List.countP_eq_length_filter,
      List.countP_eq_length_filter, hmonday.timers, htuesday.timers, List.length_cons,
      List.length_replicate]

end BluesTrading.StrategyDay
