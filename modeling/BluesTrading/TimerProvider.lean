import BluesTrading.Foundations.OrderedMap
import BluesTrading.Foundations.WhileLoop
import BluesTrading.OrderData

/-!
`FakeTimerProvider`: the timers of each consumer by event, and a clock that moves
from one trigger time to the next.  A consumer that is called back may set and
cancel any timers.  What happens is recorded in a log that no code reads.
-/

namespace BluesTrading.TimerProvider

open BluesTrading.Foundations
open BluesTrading.OrderData

/-- A `TimerInfo` object; `address` tells it from other objects with the same contents. -/
structure TimerInfo where
  address : ℕ
  consumer : ℕ
  eventid : ℕ
  nextTriggerTime : ℕ
  interval : ℕ
  isRepeat : Bool
  deriving DecidableEq

abbrev ConsumerTimerMap := OrderedMap ℕ TimerInfo

structure FakeTimerProvider where
  currentDate : ℕ
  currentTime : ℕ
  allTimers : OrderedMap ℕ ConsumerTimerMap
  /-- The number of objects that have been allocated. -/
  allocated : ℕ
  deriving DecidableEq

namespace FakeTimerProvider

def create : FakeTimerProvider := ⟨0, 0, OrderedMap.empty, 0⟩

def timersOf (p : FakeTimerProvider) (consumer : ℕ) : ConsumerTimerMap :=
  (p.allTimers.find? consumer).getD OrderedMap.empty

def timer (p : FakeTimerProvider) (consumer eventID : ℕ) : Option TimerInfo :=
  (p.timersOf consumer).find? eventID

def setTimers (p : FakeTimerProvider) (consumer : ℕ) (timers : ConsumerTimerMap) :
    FakeTimerProvider :=
  { p with allTimers := p.allTimers.insert consumer timers }

def setCurrentTime (p : FakeTimerProvider) (timeInMs : ℕ) : FakeTimerProvider :=
  { p with currentTime := timeInMs }

def registerTimerConsumer (p : FakeTimerProvider) (consumer : ℕ) : FakeTimerProvider :=
  p.setTimers consumer OrderedMap.empty

def newTimer (p : FakeTimerProvider) (consumer eventID timeInMSFromNow : ℕ) (isRepeat : Bool) :
    TimerInfo where
  address := p.allocated
  consumer := consumer
  eventid := eventID
  nextTriggerTime := (timeInMSFromNow + p.currentTime) % 2 ^ 32
  interval := timeInMSFromNow % 2 ^ 32
  isRepeat := isRepeat

/-- A timer under the event of another one is allocated and dropped. -/
def setTimer (p : FakeTimerProvider) (consumer eventID timeInMSFromNow : ℕ) (isRepeat : Bool) :
    Bool × FakeTimerProvider :=
  let info := p.newTimer consumer eventID timeInMSFromNow isRepeat
  let p := { p with allocated := p.allocated + 1 }
  match p.timer consumer eventID with
  | none => (true, p.setTimers consumer ((p.timersOf consumer).insert eventID info))
  | some _ => (false, p.setTimers consumer (p.timersOf consumer))

def cancelTimer (p : FakeTimerProvider) (consumer eventID : ℕ) : Bool × FakeTimerProvider :=
  ((p.timer consumer eventID).isSome,
    p.setTimers consumer ((p.timersOf consumer).erase eventID))

/-- The next trigger time of a repeating timer.  This is an assignment to the object, which
the table does not show if it has another object for the event by now. -/
def reschedule (p : FakeTimerProvider) (next_timer : TimerInfo) : FakeTimerProvider :=
  match p.timer next_timer.consumer next_timer.eventid with
  | none => p
  | some info =>
      if info.address = next_timer.address then
        p.setTimers next_timer.consumer ((p.timersOf next_timer.consumer).insert
          next_timer.eventid
          { info with nextTriggerTime := (info.nextTriggerTime + info.interval) % 2 ^ 32 })
      else p

def allInfos (p : FakeTimerProvider) : List TimerInfo :=
  p.allTimers.values.flatMap OrderedMap.values

def earlier (ret : Option TimerInfo) (eachTimer : TimerInfo) : Option TimerInfo :=
  match ret with
  | none => some eachTimer
  | some info =>
      if info.nextTriggerTime > eachTimer.nextTriggerTime then some eachTimer else some info

def getNextTimer (p : FakeTimerProvider) : Option TimerInfo := p.allInfos.foldl earlier none

theorem timer_setTimers (p : FakeTimerProvider) (consumer : ℕ) (timers : ConsumerTimerMap)
    (c e : ℕ) :
    (p.setTimers consumer timers).timer c e =
      if c = consumer then timers.find? e else p.timer c e := by
  unfold timer timersOf setTimers
  by_cases h : c = consumer
  · simp [h]
  · simp [h, OrderedMap.find?_insert]

@[simp] theorem timersOf_setTimers_self (p : FakeTimerProvider) (consumer : ℕ)
    (timers : ConsumerTimerMap) : (p.setTimers consumer timers).timersOf consumer = timers := by
  simp [timersOf, setTimers]

theorem setTimers_setTimers (p : FakeTimerProvider) (consumer : ℕ)
    (timers timers' : ConsumerTimerMap) :
    (p.setTimers consumer timers).setTimers consumer timers' = p.setTimers consumer timers' := by
  simp only [setTimers, OrderedMap.insert_insert]

theorem foldl_cancelTimer (p : FakeTimerProvider) (consumer : ℕ) {events : List ℕ}
    (hne : events ≠ []) :
    events.foldl (fun p eventID => (p.cancelTimer consumer eventID).2) p =
      p.setTimers consumer (events.foldl OrderedMap.erase (p.timersOf consumer)) := by
  induction events generalizing p with
  | nil => exact absurd rfl hne
  | cons e events ih =>
      rcases events with _ | ⟨e', events⟩
      · rfl
      · rw [List.foldl_cons, ih _ (List.cons_ne_nil e' events), cancelTimer, setTimers_setTimers,
          timersOf_setTimers_self, ← List.foldl_cons]

/-- To register a consumer again is to cancel all its timers. -/
theorem foldl_cancelTimer_eq_register (p : FakeTimerProvider) (consumer : ℕ) {events : List ℕ}
    (hne : events ≠ []) (hevents : ∀ e t, p.timer consumer e = some t → e ∈ events) :
    events.foldl (fun p eventID => (p.cancelTimer consumer eventID).2) p =
      p.registerTimerConsumer consumer := by
  rw [foldl_cancelTimer p consumer hne, OrderedMap.foldl_erase_eq_empty _ hevents]
  rfl

section SetTimer

variable (p : FakeTimerProvider) (consumer eventID timeInMSFromNow : ℕ) (isRepeat : Bool)

theorem setTimer_fst :
    (p.setTimer consumer eventID timeInMSFromNow isRepeat).1 =
      (p.timer consumer eventID).isNone := by
  simp only [setTimer]
  change (match p.timer consumer eventID with
    | none => _
    | some _ => _ : Bool × FakeTimerProvider).1 = _
  cases p.timer consumer eventID <;> rfl

theorem timer_setTimer (c e : ℕ) :
    (p.setTimer consumer eventID timeInMSFromNow isRepeat).2.timer c e =
      if c = consumer ∧ e = eventID then
        (p.timer c e).or (some (p.newTimer consumer eventID timeInMSFromNow isRepeat))
      else p.timer c e := by
  simp only [setTimer]
  change (match p.timer consumer eventID with
    | none => _
    | some _ => _ : Bool × FakeTimerProvider).2.timer c e = _
  cases hfound : p.timer consumer eventID with
  | none =>
      simp only [timer_setTimers, OrderedMap.find?_insert]
      split_ifs with hc he he he
      · rw [he.1, he.2, hfound]
        rfl
      all_goals simp_all [timer, timersOf]
  | some info =>
      simp only [timer_setTimers]
      split_ifs with hc he he
      all_goals simp_all [timer, timersOf]

@[simp] theorem allocated_setTimer :
    (p.setTimer consumer eventID timeInMSFromNow isRepeat).2.allocated = p.allocated + 1 := by
  simp only [setTimer]
  split <;> rfl

@[simp] theorem currentTime_setTimer :
    (p.setTimer consumer eventID timeInMSFromNow isRepeat).2.currentTime = p.currentTime := by
  simp only [setTimer]
  split <;> rfl

end SetTimer

theorem timer_cancelTimer (p : FakeTimerProvider) (consumer eventID c e : ℕ) :
    (p.cancelTimer consumer eventID).2.timer c e =
      if c = consumer ∧ e = eventID then none else p.timer c e := by
  simp only [cancelTimer, timer_setTimers, OrderedMap.find?_erase]
  split_ifs with hc he he he
  all_goals simp_all [timer]

theorem timer_reschedule (p : FakeTimerProvider) (t : TimerInfo) (c e : ℕ) :
    (p.reschedule t).timer c e =
      if c = t.consumer ∧ e = t.eventid then
        (p.timer c e).map fun info =>
          if info.address = t.address then
            { info with nextTriggerTime := (info.nextTriggerTime + info.interval) % 2 ^ 32 }
          else info
      else p.timer c e := by
  unfold reschedule
  cases hfound : p.timer t.consumer t.eventid with
  | none =>
      split_ifs with hkey
      · simp [hkey.1, hkey.2, hfound]
      · rfl
  | some info =>
      by_cases haddress : info.address = t.address
      · simp only [haddress, if_true, timer_setTimers, OrderedMap.find?_insert]
        by_cases hkey : c = t.consumer ∧ e = t.eventid
        · simp [hkey.1, hkey.2, hfound, haddress]
        · rw [if_neg hkey]
          split_ifs with hc he
          · exact absurd ⟨hc, he⟩ hkey
          · rw [hc, timer]
          · rfl
      · simp only [haddress, if_false]
        split_ifs with hkey
        · simp [hkey.1, hkey.2, hfound, haddress]
        · rfl

@[simp] theorem allocated_reschedule (p : FakeTimerProvider) (t : TimerInfo) :
    (p.reschedule t).allocated = p.allocated := by
  unfold reschedule
  split
  · rfl
  · split_ifs <;> rfl

theorem timer_of_reschedule {p : FakeTimerProvider} {t info : TimerInfo} {c e : ℕ}
    (hinfo : (p.reschedule t).timer c e = some info) :
    p.timer c e = some info ∨
      (c = t.consumer ∧ e = t.eventid) ∧ ∃ old, p.timer c e = some old ∧
        old.address = t.address ∧
        info = { old with nextTriggerTime := (old.nextTriggerTime + old.interval) % 2 ^ 32 } := by
  rw [timer_reschedule] at hinfo
  split_ifs at hinfo with hkey
  · obtain ⟨old, hold, rfl⟩ := Option.map_eq_some_iff.mp hinfo
    split_ifs with haddress
    · exact .inr ⟨hkey, old, hold, haddress, rfl⟩
    · exact .inl hold
  · exact .inl hinfo

@[simp] theorem currentTime_reschedule (p : FakeTimerProvider) (t : TimerInfo) :
    (p.reschedule t).currentTime = p.currentTime := by
  unfold reschedule
  split
  · rfl
  · split_ifs <;> rfl

theorem mem_allInfos {p : FakeTimerProvider} {t : TimerInfo} :
    t ∈ p.allInfos ↔ ∃ c e, p.timer c e = some t := by
  simp only [allInfos, OrderedMap.values, List.mem_flatMap, List.mem_map, Prod.exists,
    exists_eq_right, OrderedMap.mem_entries_iff, timer, timersOf]
  constructor
  · rintro ⟨timers, ⟨c, hc⟩, e, he⟩
    exact ⟨c, e, by rwa [hc]⟩
  · rintro ⟨c, e, he⟩
    cases hc : p.allTimers.find? c with
    | none =>
        rw [hc] at he
        cases he
    | some timers =>
        rw [hc] at he
        exact ⟨timers, ⟨c, hc⟩, e, he⟩

theorem foldl_earlier_eq_none (l : List TimerInfo) (h : l.foldl earlier none = none) : l = [] := by
  induction l using List.reverseRecOn with
  | nil => rfl
  | append_singleton l last ih =>
      rw [List.foldl_append, List.foldl_cons, List.foldl_nil] at h
      unfold earlier at h
      split at h
      · cases h
      · split_ifs at h

theorem foldl_earlier_split (l : List TimerInfo) {t : TimerInfo}
    (h : l.foldl earlier none = some t) :
    ∃ front back, l = front ++ t :: back ∧ (∀ x ∈ front, t.nextTriggerTime < x.nextTriggerTime) ∧
      ∀ x ∈ back, t.nextTriggerTime ≤ x.nextTriggerTime := by
  induction l using List.reverseRecOn generalizing t with
  | nil => cases h
  | append_singleton l last ih =>
      rw [List.foldl_append, List.foldl_cons, List.foldl_nil] at h
      cases hfold : l.foldl earlier none with
      | none =>
          obtain rfl := foldl_earlier_eq_none l hfold
          rw [List.foldl_nil] at h
          obtain rfl := Option.some.inj h
          exact ⟨[], [], rfl, by simp, by simp⟩
      | some first =>
          rw [hfold] at h
          obtain ⟨front, back, rfl, hfront, hback⟩ := ih hfold
          simp only [earlier] at h
          split_ifs at h with hlt
          · obtain rfl := Option.some.inj h
            refine ⟨front ++ first :: back, [], by simp, fun x hx => ?_, by simp⟩
            rcases List.mem_append.mp hx with hx | hx
            · exact hlt.trans (hfront x hx)
            · rcases List.mem_cons.mp hx with rfl | hx
              · exact hlt
              · exact lt_of_lt_of_le hlt (hback x hx)
          · obtain rfl := Option.some.inj h
            refine ⟨front, back ++ [last], by simp, hfront, fun x hx => ?_⟩
            rcases List.mem_append.mp hx with hx | hx
            · exact hback x hx
            · obtain rfl := List.mem_singleton.mp hx
              exact not_lt.mp hlt

theorem getNextTimer_eq_none {p : FakeTimerProvider} (h : p.getNextTimer = none) (c e : ℕ) :
    p.timer c e = none := by
  have hempty := foldl_earlier_eq_none p.allInfos h
  cases hfound : p.timer c e with
  | none => rfl
  | some t =>
      have hmem := mem_allInfos.mpr ⟨c, e, hfound⟩
      rw [hempty] at hmem
      cases hmem

/-- The next timer is in the table, and no other one is due before it. -/
theorem getNextTimer_spec {p : FakeTimerProvider} {t : TimerInfo} (h : p.getNextTimer = some t) :
    (∃ c e, p.timer c e = some t) ∧
      ∀ c e info, p.timer c e = some info → t.nextTriggerTime ≤ info.nextTriggerTime := by
  obtain ⟨front, back, hsplit, hfront, hback⟩ := foldl_earlier_split p.allInfos h
  refine ⟨mem_allInfos.mp (by simp [hsplit]), fun c e info hinfo => ?_⟩
  have hmem := mem_allInfos.mpr ⟨c, e, hinfo⟩
  rw [hsplit] at hmem
  rcases List.mem_append.mp hmem with hmem | hmem
  · exact (hfront info hmem).le
  · rcases List.mem_cons.mp hmem with rfl | hmem
    · exact le_rfl
    · exact hback info hmem

/-- Every timer is under its own consumer and event, and is one of the allocated objects. -/
def Keyed (p : FakeTimerProvider) : Prop :=
  ∀ c e t, p.timer c e = some t → t.consumer = c ∧ t.eventid = e ∧ t.address < p.allocated

theorem keyed_create : create.Keyed := by
  intro c e t ht
  cases ht

theorem Keyed.setTimer {p : FakeTimerProvider} (h : p.Keyed)
    (consumer eventID timeInMSFromNow : ℕ) (isRepeat : Bool) :
    (p.setTimer consumer eventID timeInMSFromNow isRepeat).2.Keyed := by
  intro c e t ht
  rw [timer_setTimer] at ht
  rw [allocated_setTimer]
  split_ifs at ht with hkey
  · rcases Option.or_eq_some_iff.mp ht with ht | ⟨-, ht⟩
    · obtain ⟨hc, he, haddress⟩ := h c e t ht
      exact ⟨hc, he, haddress.trans (Nat.lt_succ_self _)⟩
    · obtain rfl := Option.some.inj ht
      exact ⟨hkey.1.symm, hkey.2.symm, Nat.lt_succ_self _⟩
  · obtain ⟨hc, he, haddress⟩ := h c e t ht
    exact ⟨hc, he, haddress.trans (Nat.lt_succ_self _)⟩

theorem Keyed.cancelTimer {p : FakeTimerProvider} (h : p.Keyed) (consumer eventID : ℕ) :
    (p.cancelTimer consumer eventID).2.Keyed := by
  intro c e t ht
  rw [timer_cancelTimer] at ht
  split_ifs at ht
  exact h c e t ht

theorem timer_registerTimerConsumer (p : FakeTimerProvider) (consumer c e : ℕ) :
    (p.registerTimerConsumer consumer).timer c e =
      if c = consumer then none else p.timer c e :=
  timer_setTimers p consumer OrderedMap.empty c e

theorem Keyed.registerTimerConsumer {p : FakeTimerProvider} (h : p.Keyed) (consumer : ℕ) :
    (p.registerTimerConsumer consumer).Keyed := by
  intro c e t ht
  rw [timer_registerTimerConsumer] at ht
  split_ifs at ht
  exact h c e t ht

theorem Keyed.reschedule {p : FakeTimerProvider} (h : p.Keyed) (t : TimerInfo) :
    (p.reschedule t).Keyed := by
  intro c e info hinfo
  rw [allocated_reschedule]
  rcases timer_of_reschedule hinfo with hinfo | ⟨-, old, hold, -, rfl⟩
  · exact h c e info hinfo
  · exact h c e old hold

/-- Every timer goes off at a 32-bit time. -/
def Fits (p : FakeTimerProvider) : Prop :=
  ∀ c e t, p.timer c e = some t → t.nextTriggerTime < 2 ^ 32

theorem fits_create : create.Fits := by
  intro c e t ht
  cases ht

theorem Fits.setTimer {p : FakeTimerProvider} (h : p.Fits)
    (consumer eventID timeInMSFromNow : ℕ) (isRepeat : Bool) :
    (p.setTimer consumer eventID timeInMSFromNow isRepeat).2.Fits := by
  intro c e t ht
  rw [timer_setTimer] at ht
  split_ifs at ht
  · rcases Option.or_eq_some_iff.mp ht with ht | ⟨-, ht⟩
    · exact h c e t ht
    · obtain rfl := Option.some.inj ht
      exact Nat.mod_lt _ (by decide)
  · exact h c e t ht

theorem Fits.cancelTimer {p : FakeTimerProvider} (h : p.Fits) (consumer eventID : ℕ) :
    (p.cancelTimer consumer eventID).2.Fits := by
  intro c e t ht
  rw [timer_cancelTimer] at ht
  split_ifs at ht
  exact h c e t ht

theorem Fits.registerTimerConsumer {p : FakeTimerProvider} (h : p.Fits) (consumer : ℕ) :
    (p.registerTimerConsumer consumer).Fits := by
  intro c e t ht
  rw [timer_registerTimerConsumer] at ht
  split_ifs at ht
  exact h c e t ht

theorem Fits.reschedule {p : FakeTimerProvider} (h : p.Fits) (t : TimerInfo) :
    (p.reschedule t).Fits := by
  intro c e info hinfo
  rcases timer_of_reschedule hinfo with hinfo | ⟨-, old, -, -, rfl⟩
  · exact h c e info hinfo
  · exact Nat.mod_lt _ (by decide)

def nextConsumer (p : FakeTimerProvider) (after : Option ℕ) : Option ℕ :=
  p.allTimers.keys.find? fun consumer => after.all fun last => decide (last < consumer)

theorem mem_keys_of_timer {p : FakeTimerProvider} {c e : ℕ} {t : TimerInfo}
    (h : p.timer c e = some t) : c ∈ p.allTimers.keys := by
  unfold timer timersOf at h
  cases hfound : p.allTimers.find? c with
  | none =>
      rw [hfound] at h
      cases h
  | some timers => exact List.mem_map_of_mem ((p.allTimers.mem_entries_iff c timers).mpr hfound)

theorem nextConsumer_eq_none {p : FakeTimerProvider} {after : Option ℕ}
    (h : p.nextConsumer after = none) {c : ℕ} (hc : c ∈ p.allTimers.keys) :
    ∃ last ∈ after, c ≤ last := by
  have hnot := List.find?_eq_none.mp h c hc
  cases after with
  | none => exact absurd rfl hnot
  | some last => exact ⟨last, rfl, by simpa using hnot⟩

theorem nextConsumer_eq_some {p : FakeTimerProvider} {after : Option ℕ} {consumer : ℕ}
    (h : p.nextConsumer after = some consumer) :
    (∀ last ∈ after, last < consumer) ∧
      ∀ c ∈ p.allTimers.keys, c < consumer → ∃ last ∈ after, c ≤ last := by
  obtain ⟨hafter, before, rest, hkeys, hbefore⟩ := List.find?_eq_some_iff_append.mp h
  refine ⟨fun last hlast => ?_, fun c hc hlt => ?_⟩
  · rw [Option.mem_def.mp hlast] at hafter
    simpa using hafter
  · have hsorted : p.allTimers.keys.Pairwise (· < ·) :=
      List.pairwise_map.mpr p.allTimers.sorted
    rw [hkeys] at hc hsorted
    have hfront : c ∈ before := by
      rcases List.mem_append.mp hc with hc | hc
      · exact hc
      · rcases List.mem_cons.mp hc with rfl | hc
        · exact absurd hlt (lt_irrefl _)
        · have hle := (List.pairwise_cons.mp (List.pairwise_append.mp hsorted).2.1).1 c hc
          exact absurd hlt hle.asymm
    have hnot := hbefore c hfront
    cases after with
    | none => simp at hnot
    | some last => exact ⟨last, rfl, by simpa using hnot⟩

end FakeTimerProvider

/-! ### Callbacks -/

/-- What a consumer does when it is called: it sets and cancels timers one after the
other, seeing the returned values, and ends in a state.  To register a consumer again is to
cancel all its timers, see `World.react_cancelTimers_eq_register`. -/
inductive Reaction (σ : Type)
  | done (state : σ)
  | setTimer (consumer eventID timeInMSFromNow : ℕ) (isRepeat : Bool) (next : Bool → Reaction σ)
  | cancelTimer (consumer eventID : ℕ) (next : Bool → Reaction σ)

/-- The callbacks of all consumers, which share a state.  The last argument is what
the clock shows. -/
structure Consumers (σ : Type) where
  onTimer : (state : σ) → (consumer eventID currentTime : ℕ) → Reaction σ
  onStartDay : (state : σ) → (consumer date currentTime : ℕ) → Reaction σ
  onEndDay : (state : σ) → (consumer date currentTime : ℕ) → Reaction σ
  onMarketData : (state : σ) → (consumer : ℕ) → (data : CTickData) → (currentTime : ℕ) → Reaction σ

inductive Event
  | setTimer (info : TimerInfo) (currentTime : ℕ)
  /-- A consumer has cancelled a timer. -/
  | cancelTimer (info : TimerInfo)
  /-- A timer was set when all timers of its consumer were cleared. -/
  | clearTimer (info : TimerInfo)
  | onTimer (info : TimerInfo) (currentTime : ℕ)
  /-- The callback of a timer has returned, and found is set for its event now. -/
  | returned (info : TimerInfo) (found : Option TimerInfo)
  | onStartDay (consumer currentTime : ℕ)
  | onEndDay (consumer currentTime : ℕ)
  | onMarketData (consumer : ℕ) (data : CTickData) (currentTime : ℕ)
  deriving DecidableEq

structure World (σ : Type) where
  provider : FakeTimerProvider
  state : σ
  log : List Event

namespace World

variable {σ : Type}

def record (w : World σ) (events : List Event) : World σ := { w with log := w.log ++ events }

def setTimer (w : World σ) (consumer eventID timeInMSFromNow : ℕ) (isRepeat : Bool) :
    Bool × World σ :=
  let info := w.provider.newTimer consumer eventID timeInMSFromNow isRepeat
  let (inserted, provider) := w.provider.setTimer consumer eventID timeInMSFromNow isRepeat
  (inserted, { w with provider := provider }.record
    (if inserted then [.setTimer info w.provider.currentTime] else []))

def cancelTimer (w : World σ) (consumer eventID : ℕ) : Bool × World σ :=
  let (erased, provider) := w.provider.cancelTimer consumer eventID
  (erased, { w with provider := provider }.record
    ((w.provider.timer consumer eventID).toList.map .cancelTimer))

def clearTimers (w : World σ) (consumer : ℕ) : World σ :=
  { w with provider := w.provider.registerTimerConsumer consumer }.record
    ((w.provider.timersOf consumer).values.map .clearTimer)

def react (w : World σ) : Reaction σ → World σ
  | .done state => { w with state := state }
  | .setTimer consumer eventID timeInMSFromNow isRepeat next =>
      let (inserted, w) := w.setTimer consumer eventID timeInMSFromNow isRepeat
      w.react (next inserted)
  | .cancelTimer consumer eventID next =>
      let (erased, w) := w.cancelTimer consumer eventID
      w.react (next erased)

def setCurrentTime (w : World σ) (timeInMs : ℕ) : World σ :=
  { w with provider := w.provider.setCurrentTime timeInMs }

end World

def Reaction.cancelTimers {σ : Type} (consumer : ℕ) (events : List ℕ) (next : Reaction σ) :
    Reaction σ :=
  events.foldr (fun eventID next => .cancelTimer consumer eventID fun _ => next) next

theorem World.react_cancelTimers {σ : Type} (w : World σ) (consumer : ℕ) (events : List ℕ)
    (next : Reaction σ) :
    ∃ gone : List TimerInfo,
      (∀ t, t ∈ gone ↔ ∃ e ∈ events, w.provider.timer consumer e = some t) ∧
      w.react (.cancelTimers consumer events next) =
        ({ w with
          provider := events.foldl (fun p e => (p.cancelTimer consumer e).2) w.provider }.record
          (gone.map .cancelTimer)).react next := by
  induction events generalizing w with
  | nil => exact ⟨[], by simp, by simp [Reaction.cancelTimers, World.record]⟩
  | cons e events ih =>
      obtain ⟨gone, hgone, hreact⟩ := ih (w.cancelTimer consumer e).2
      have htimer : ∀ e', (w.cancelTimer consumer e).2.provider.timer consumer e' =
          if consumer = consumer ∧ e' = e then none else w.provider.timer consumer e' :=
        w.provider.timer_cancelTimer consumer e consumer
      refine ⟨(w.provider.timer consumer e).toList ++ gone, fun t => ?_, ?_⟩
      · rw [List.mem_append, hgone, Option.mem_toList]
        constructor
        · rintro (ht | ⟨e', hmem, ht⟩)
          · exact ⟨e, List.mem_cons_self, ht⟩
          · rw [htimer] at ht
            split_ifs at ht
            exact ⟨e', List.mem_cons_of_mem e hmem, ht⟩
        · rintro ⟨e', hmem, ht⟩
          by_cases he : e' = e
          · exact .inl (he ▸ ht)
          · refine .inr ⟨e', (List.mem_cons.mp hmem).resolve_left he, ?_⟩
            rw [htimer, if_neg fun h => he h.2, ht]
      · change (w.cancelTimer consumer e).2.react (.cancelTimers consumer events next) = _
        rw [hreact]
        simp [World.cancelTimer, World.record]

/-- A callback that registers a consumer is one that cancels all its timers. -/
theorem World.react_cancelTimers_eq_register {σ : Type} (w : World σ) (consumer : ℕ)
    {events : List ℕ} (next : Reaction σ) (hne : events ≠ [])
    (hevents : ∀ e t, w.provider.timer consumer e = some t → e ∈ events) :
    ∃ gone : List TimerInfo, (∀ t, t ∈ gone ↔ ∃ e, w.provider.timer consumer e = some t) ∧
      w.react (.cancelTimers consumer events next) =
        ({ w with provider := w.provider.registerTimerConsumer consumer }.record
          (gone.map .cancelTimer)).react next := by
  obtain ⟨gone, hgone, hreact⟩ := w.react_cancelTimers consumer events next
  refine ⟨gone, fun t => (hgone t).trans ⟨?_, ?_⟩, ?_⟩
  · rintro ⟨e, -, he⟩
    exact ⟨e, he⟩
  · rintro ⟨e, he⟩
    exact ⟨e, hevents e t he, he⟩
  · rw [hreact, FakeTimerProvider.foldl_cancelTimer_eq_register _ _ hne hevents]

/-! ### The clock -/

section Clock

variable {σ : Type} (consumers : Consumers σ)

def callOnTimer (w : World σ) (next_timer : TimerInfo) : World σ :=
  let w := (w.setCurrentTime next_timer.nextTriggerTime).record
    [.onTimer next_timer next_timer.nextTriggerTime]
  w.react (consumers.onTimer w.state next_timer.consumer next_timer.eventid
    next_timer.nextTriggerTime)

/-- The body of the loop of `advanceToTime`.  What is cancelled at the end is whatever timer
is set for the event after the callback. -/
def fireTimer (w : World σ) (next_timer : TimerInfo) : World σ :=
  let w := callOnTimer consumers w next_timer
  let w := w.record
    [.returned next_timer (w.provider.timer next_timer.consumer next_timer.eventid)]
  if next_timer.isRepeat then { w with provider := w.provider.reschedule next_timer }
  else
    { w with
      provider := (w.provider.cancelTimer next_timer.consumer next_timer.eventid).2 }

def isDue (timeInMs : ℕ) (w : World σ) : Bool :=
  match w.provider.getNextTimer with
  | none => false
  | some next_timer => next_timer.nextTriggerTime ≤ timeInMs

def fireNext (w : World σ) : World σ :=
  match w.provider.getNextTimer with
  | none => w
  | some next_timer => fireTimer consumers w next_timer

/-- There is no result if more than `fuel` turns are needed. -/
def advanceToTime (fuel timeInMs : ℕ) (w : World σ) : Option (World σ) :=
  (whileLoop (isDue timeInMs) (fireNext consumers) fuel w).map fun w => w.setCurrentTime timeInMs

/-- A loop over the consumers of a map that the body may add consumers to. -/
def forEachConsumer (body : World σ → ℕ → World σ) (fuel : ℕ) (w : World σ) :
    Option (World σ) :=
  (whileLoop (fun s : World σ × Option ℕ => (s.1.provider.nextConsumer s.2).isSome)
    (fun s => match s.1.provider.nextConsumer s.2 with
      | none => s
      | some consumer => (body s.1 consumer, some consumer)) fuel (w, none)).map Prod.fst

def callOnStartDay (date : ℕ) (w : World σ) (consumer : ℕ) : World σ :=
  let now := w.provider.currentTime
  (w.record [.onStartDay consumer now]).react (consumers.onStartDay w.state consumer date now)

def startDate (fuel date : ℕ) (w : World σ) : Option (World σ) :=
  forEachConsumer (callOnStartDay consumers date) fuel
    { w with provider := { w.provider with currentDate := date, currentTime := 0 } }

def lastMs : ℕ := 23 * 3600 * 1000 + 59 * 60 * 1000 + 59000

def callOnEndDay (w : World σ) (consumer : ℕ) : World σ :=
  let w := w.clearTimers consumer
  let now := w.provider.currentTime
  (w.record [.onEndDay consumer now]).react
    (consumers.onEndDay w.state consumer w.provider.currentDate now)

/-- The second half of `endDate`: clear the timers of each consumer and tell it. -/
def closeDate (fuel : ℕ) (w : World σ) : Option (World σ) :=
  forEachConsumer (callOnEndDay consumers) fuel w

def endDate (fuel date : ℕ) (w : World σ) : Option (World σ) :=
  if date = w.provider.currentDate ∧ date ≠ 0 then
    (advanceToTime consumers fuel lastMs w).bind (closeDate consumers fuel)
  else some w

def callOnMarketData (data : CTickData) (w : World σ) (consumer : ℕ) : World σ :=
  let now := w.provider.currentTime
  (w.record [.onMarketData consumer data now]).react
    (consumers.onMarketData w.state consumer data now)

def replayTick (fuel : ℕ) (tickConsumers : List ℕ) (w : World σ) (tick : CTickData) :
    Option (World σ) :=
  (advanceToTime consumers fuel tick.timeInMS w).map fun w =>
    tickConsumers.foldl (callOnMarketData consumers tick) w

def replayTicks (fuel date : ℕ) (tickConsumers : List ℕ) (allTicks : List CTickData)
    (w : World σ) : Option (World σ) :=
  (startDate consumers fuel date w).bind fun w =>
    allTicks.foldlM (replayTick consumers fuel tickConsumers) w

def startReplay (fuel date : ℕ) (tickConsumers : List ℕ) (allTicks : List CTickData)
    (w : World σ) : Option (World σ) :=
  (replayTicks consumers fuel date tickConsumers allTicks w).bind (endDate consumers fuel date)

end Clock

end BluesTrading.TimerProvider
