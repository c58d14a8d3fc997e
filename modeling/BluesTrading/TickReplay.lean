import BluesTrading.DayClock
import BluesTrading.MarketDataReplayer

namespace BluesTrading.TickReplay

open BluesTrading.Foundations
open BluesTrading.Foundations.SortedMerge
open BluesTrading.OrderData
open BluesTrading.MarketDataReplayer
open BluesTrading.TimerProvider
open BluesTrading.TimerDelivery
open BluesTrading.DayClock

/-! ### Vectors of owning pointers -/

abbrev TickPtrs := List (Option CTickData)

/-- The first loop of `addDataStore`, from the two iterators on.  There is no result if the tick
of a null pointer is read, which happens only while neither vector is at its end. -/
def mergeLoop : TickPtrs → TickPtrs → TickPtrs → Option (TickPtrs × TickPtrs × TickPtrs)
  | some ref1 :: rest1, some ref2 :: rest2, result =>
      if ref1.timeInMS < ref2.timeInMS then
        mergeLoop rest1 (some ref2 :: rest2) (result ++ [some ref1])
      else mergeLoop (some ref1 :: rest1) rest2 (result ++ [some ref2])
  | [], iter2, result => some ([], iter2, result)
  | iter1, [], result => some (iter1, [], result)
  | _, _, _ => none
termination_by iter1 iter2 => iter1.length + iter2.length

def moveRest (iter result : TickPtrs) : TickPtrs :=
  iter.foldl (fun result tick => result ++ [tick]) result

def addTickPtrs (allTicks tickDataVec : TickPtrs) : Option TickPtrs :=
  (mergeLoop allTicks tickDataVec []).map fun (iter1, iter2, result) =>
    moveRest iter2 (moveRest iter1 result)

def loadTickPtrs (stores : List MarketDataStore) : Option TickPtrs :=
  stores.foldlM (fun allTicks store => addTickPtrs allTicks (store.tickDataVec.map some)) []

theorem moveRest_eq (iter result : TickPtrs) : moveRest iter result = result ++ iter := by
  unfold moveRest
  induction iter generalizing result with
  | nil => simp
  | cons tick iter ih => simp [ih]

theorem mergeLoop_map_some (ticks1 ticks2 : List CTickData) (result : TickPtrs) :
    ∃ iter1 iter2 moved, mergeLoop (ticks1.map some) (ticks2.map some) result =
        some (iter1, iter2, result ++ moved) ∧
      moved ++ iter1 ++ iter2 = (mergeIn CTickData.timeInMS ticks1 ticks2).map some := by
  unfold mergeIn
  induction ticks1 generalizing ticks2 result with
  | nil => exact ⟨[], ticks2.map some, [], by simp [mergeLoop], by simp⟩
  | cons ref1 rest1 ih1 =>
      induction ticks2 generalizing result with
      | nil => exact ⟨(ref1 :: rest1).map some, [], [], by simp [mergeLoop], by simp⟩
      | cons ref2 rest2 ih2 =>
          by_cases hlt : ref1.timeInMS < ref2.timeInMS
          · obtain ⟨iter1, iter2, moved, hloop, hmoved⟩ :=
              ih1 (ref2 :: rest2) (result ++ [some ref1])
            refine ⟨iter1, iter2, some ref1 :: moved, ?_, ?_⟩
            · rw [List.map_cons, List.map_cons, mergeLoop, if_pos hlt, ← List.map_cons, hloop]
              simp
            · rw [List.cons_merge_cons_pos _ _ _ (decide_eq_true hlt), List.map_cons, ← hmoved]
              rfl
          · obtain ⟨iter1, iter2, moved, hloop, hmoved⟩ := ih2 (result ++ [some ref2])
            refine ⟨iter1, iter2, some ref2 :: moved, ?_, ?_⟩
            · rw [List.map_cons, List.map_cons, mergeLoop, if_neg hlt, ← List.map_cons, hloop]
              simp
            · rw [List.cons_merge_cons_neg _ _ _ (by simpa using not_lt.mp hlt), List.map_cons,
                ← hmoved]
              rfl

theorem addTickPtrs_map_some (ticks1 ticks2 : List CTickData) :
    addTickPtrs (ticks1.map some) (ticks2.map some) =
      some ((mergeIn CTickData.timeInMS ticks1 ticks2).map some) := by
  obtain ⟨iter1, iter2, moved, hloop, hmoved⟩ := mergeLoop_map_some ticks1 ticks2 []
  rw [addTickPtrs, hloop, ← hmoved]
  simp [moveRest_eq]

/-- No pointer is read after it has been moved from, and none is null in the end. -/
theorem loadTickPtrs_eq (date : ℕ) (stores : List MarketDataStore) :
    loadTickPtrs stores =
      some ((MarketDataReplayerMultiThread.loaded date stores).allTicks.map some) := by
  rw [allTicks_loaded]
  induction stores using List.reverseRecOn with
  | nil => rfl
  | append_singleton stores store ih =>
      rw [loadTickPtrs, List.foldlM_append, ← loadTickPtrs, ih, mergeAll_concat,
        ← addTickPtrs_map_some]
      simp

/-! ### A timer that is pending -/

section Pending

variable {σ : Type} {consumers : Consumers σ} {u w w' : World σ} {t : TimerInfo}
  {turn : List Event}

theorem advanced_zero (h : t.nextTriggerTime < 2 ^ 32) : advanced t 0 = t := by
  simp only [advanced, occurrence, Nat.zero_mul, Nat.add_zero, Nat.mod_eq_of_lt h]

/-- What becomes of a timer of the table during a turn of events: it has been cancelled, it waits
for its next occurrence, or it does not repeat and has been delivered. -/
def Followed (turn : List Event) (w : World σ) (t : TimerInfo) : Prop :=
  Removed turn t ∨
    (∃ n, w.provider.timer t.consumer t.eventid = some (advanced t n) ∧
      (t.isRepeat = false → n = 0) ∧ ∀ k < n, Delivered turn t k) ∨
    t.isRepeat = false ∧ Delivered turn t 0

theorem Followed.extend (h : Followed turn w t) {events : List Event}
    (hwaiting : ∀ n, w.provider.timer t.consumer t.eventid = some (advanced t n) →
      (t.isRepeat = false → n = 0) → (∀ k < n, Delivered turn t k) →
      Followed (turn ++ events) w' t) : Followed (turn ++ events) w' t := by
  have hmono : turn <+: turn ++ events := List.prefix_append _ _
  rcases h with hremoved | ⟨n, htimer, honce, hdelivered⟩ | ⟨honce, hdelivered⟩
  · exact .inl (hremoved.mono hmono)
  · exact hwaiting n htimer honce hdelivered
  · exact .inr (.inr ⟨honce, hdelivered.mono hmono⟩)

theorem Followed.of_timer_eq (h : Followed turn w t) (events : List Event)
    (htimer : ∀ n, w.provider.timer t.consumer t.eventid = some (advanced t n) →
      w'.provider.timer t.consumer t.eventid = some (advanced t n)) :
    Followed (turn ++ events) w' t :=
  h.extend fun n hn honce hdelivered => .inr (.inl ⟨n, htimer n hn, honce,
    fun k hk => (hdelivered k hk).mono (List.prefix_append _ _)⟩)

/-- The log has gone on by a turn of events since `u`. -/
structure Since (u : World σ) (t : TimerInfo) (turn : List Event) (w : World σ) : Prop where
  log : w.log = u.log ++ turn
  keyed : w.provider.Keyed
  allocated : t.address < w.provider.allocated
  followed : Followed turn w t

theorem Since.extend (h : Since u t turn w) {events : List Event} (hlog : w'.log = w.log ++ events)
    (hkeyed : w'.provider.Keyed) (hallocated : w.provider.allocated ≤ w'.provider.allocated)
    (hfollowed : Followed (turn ++ events) w' t) : Since u t (turn ++ events) w' :=
  ⟨by rw [hlog, h.log, List.append_assoc], hkeyed, h.allocated.trans_le hallocated, hfollowed⟩

theorem keptByCalls_since (u : World σ) (t : TimerInfo) :
    KeptByCalls fun w => ∃ turn, Since u t turn w where
  setTimer := by
    rintro w c e timeInMSFromNow isRepeat ⟨turn, h⟩
    refine ⟨_, h.extend (log_setTimer w c e timeInMSFromNow isRepeat)
      (h.keyed.setTimer c e timeInMSFromNow isRepeat) ?_ (h.followed.of_timer_eq _ ?_)⟩
    · exact (Nat.le_succ _).trans_eq
        (w.provider.allocated_setTimer c e timeInMSFromNow isRepeat).symm
    · intro n hn
      have htimer := w.provider.timer_setTimer c e timeInMSFromNow isRepeat t.consumer t.eventid
      rw [hn] at htimer
      refine htimer.trans ?_
      split_ifs <;> rfl
  cancelTimer := by
    rintro w c e ⟨turn, h⟩
    refine ⟨_, h.extend rfl (h.keyed.cancelTimer c e) le_rfl
      (h.followed.extend fun n hn honce hdelivered => ?_)⟩
    have htimer := w.provider.timer_cancelTimer c e t.consumer t.eventid
    split_ifs at htimer with hkey
    · rw [hkey.1, hkey.2] at hn
      exact .inl ⟨advanced t n, .inl (List.mem_append_right _ (by simp [hn])), rfl⟩
    · exact .inr (.inl ⟨n, htimer.trans hn, honce,
        fun k hk => (hdelivered k hk).mono (List.prefix_append _ _)⟩)
  state := fun _ _ ⟨turn, h⟩ => ⟨turn, h.log, h.keyed, h.allocated, h.followed⟩

theorem Since.fireTimer (h : Since u t turn w) {fired : TimerInfo}
    (hnext : w.provider.getNextTimer = some fired) :
    ∃ turn', Since u t turn' (fireTimer consumers w fired) := by
  obtain ⟨hfired, -⟩ := FakeTimerProvider.getNextTimer_spec hnext
  set called := (w.setCurrentTime fired.nextTriggerTime).record
    [.onTimer fired fired.nextTriggerTime] with hcalled
  set returned := callOnTimer consumers w fired with hreturned
  have hstart : Since u t (turn ++ [.onTimer fired fired.nextTriggerTime]) called :=
    h.extend rfl h.keyed le_rfl (h.followed.of_timer_eq _ fun _ hn => hn)
  obtain ⟨turn', hturn'⟩ : ∃ turn', Since u t turn' returned :=
    (keptByCalls_since u t).react _ ⟨_, hstart⟩
  have hmem : Event.onTimer fired fired.nextTriggerTime ∈ turn' := by
    have hlog : called.log <+: returned.log :=
      ((keptByCalls_unmoved called).react _ (Unmoved.refl called)).log
    rw [hstart.log, hturn'.log, List.prefix_append_right_inj] at hlog
    exact hlog.subset (List.mem_append_right _ (List.mem_singleton_self _))
  have hkeyed : (TimerProvider.fireTimer consumers w fired).provider.Keyed :=
    (keptBySteps_keyed consumers).fireTimer w fired hnext h.keyed
  refine ⟨_, hturn'.extend (log_fireTimer consumers w fired) hkeyed
    (allocated_fireTimer consumers w fired).ge
    (hturn'.followed.extend fun n hn honce hdelivered => ?_)⟩
  have hmono : turn' <+: turn' ++ [.returned fired
      (returned.provider.timer fired.consumer fired.eventid)] := List.prefix_append _ _
  have htimer := timer_fireTimer consumers w fired t.consumer t.eventid
  rw [← hreturned, hn] at htimer
  by_cases hkey : t.consumer = fired.consumer ∧ t.eventid = fired.eventid
  · have heq : advanced t n = fired := eq_of_callOnTimer_of_lt consumers h.keyed hfired
      (by rw [← hkey.1, ← hkey.2]; exact hn) h.allocated
    have hnow : Delivered turn' t n := ⟨fired, heq ▸ hmem, (congrArg TimerInfo.address heq).symm⟩
    have hrepeat : t.isRepeat = fired.isRepeat := by rw [← heq, advanced]
    rw [if_pos hkey, ← hrepeat] at htimer
    cases hkind : t.isRepeat with
    | true =>
        rw [hkind, if_pos rfl, Option.map_some, if_pos (congrArg TimerInfo.address heq),
          advanced_succ] at htimer
        refine .inr (.inl ⟨n + 1, htimer, fun h => absurd (hkind.symm.trans h) (by decide), ?_⟩)
        intro k hk
        rcases Nat.lt_succ_iff_lt_or_eq.mp hk with hk | rfl
        · exact (hdelivered k hk).mono hmono
        · exact hnow.mono hmono
    | false =>
        obtain rfl := honce hkind
        exact .inr (.inr ⟨hkind, hnow.mono hmono⟩)
  · rw [if_neg hkey] at htimer
    exact .inr (.inl ⟨n, htimer, honce, fun k hk => (hdelivered k hk).mono hmono⟩)

/-- A timer that is in the table when the clock is advanced, and that nobody cancels in the
meantime, has been delivered as often as it was due. -/
theorem delivered_of_advanceToTime {fuel timeInMs : ℕ} (hkeyed : u.provider.Keyed)
    (hfits : u.provider.Fits) (h : advanceToTime consumers fuel timeInMs u = some w)
    (hturn : w.log = u.log ++ turn) {c e : ℕ} (ht : u.provider.timer c e = some t)
    (hremoved : ¬ Removed turn t) {k : ℕ} (hk : t.isRepeat = false → k = 0)
    (hdue : t.nextTriggerTime + k * t.interval ≤ timeInMs) : Delivered turn t k := by
  obtain ⟨rfl, rfl, hallocated⟩ := hkeyed c e t ht
  have hstart : Since u t [] u := by
    refine ⟨(List.append_nil _).symm, hkeyed, hallocated, .inr (.inl ⟨0, ?_, fun _ => rfl, ?_⟩)⟩
    · rw [advanced_zero (hfits _ _ t ht), ht]
    · exact fun k hk => absurd hk k.not_lt_zero
  obtain ⟨v, rfl, ⟨turn', hv⟩, hidle⟩ := advanceToTime_invariant
    (I := fun w => ∃ turn, Since u t turn w)
    (fun w fired hnext _ ⟨_, hw⟩ => hw.fireTimer hnext) h ⟨[], hstart⟩
  obtain rfl : turn' = turn := List.append_cancel_left (hv.log.symm.trans hturn)
  rcases hv.followed with hgone | ⟨n, htimer, -, hdelivered⟩ | ⟨honce, hdelivered⟩
  · exact absurd hgone hremoved
  · refine hdelivered k (not_le.mp fun hle => ?_)
    have hlate : timeInMs < occurrence t n := hidle _ _ _ htimer
    have hmod : occurrence t n ≤ t.nextTriggerTime + n * t.interval := Nat.mod_le _ _
    have hmono := Nat.mul_le_mul_right t.interval hle
    omega
  · obtain rfl := hk honce
    exact hdelivered

end Pending

/-! ### What the consumers hear -/

/-- Who is told of which tick, and what the clock shows. -/
def heard : Event → Option (ℕ × CTickData × ℕ)
  | .onMarketData consumer data now => some (consumer, data, now)
  | _ => none

section Heard

variable {σ : Type} {consumers : Consumers σ} {w w' : World σ} {fuel date : ℕ}
  {tickConsumers : List ℕ}

theorem keptByCalls_heard (told : List (ℕ × CTickData × ℕ)) (now : ℕ) :
    KeptByCalls (σ := σ) fun w =>
      w.log.filterMap heard = told ∧ w.provider.currentTime = now where
  setTimer := by
    rintro w c e timeInMSFromNow isRepeat ⟨htold, hnow⟩
    refine ⟨?_, (w.provider.currentTime_setTimer c e timeInMSFromNow isRepeat).trans hnow⟩
    rw [log_setTimer, List.filterMap_append, htold]
    split_ifs <;> simp [heard]
  cancelTimer := by
    rintro w c e ⟨htold, hnow⟩
    refine ⟨?_, hnow⟩
    rw [← htold]
    change (w.log ++ (w.provider.timer c e).toList.map Event.cancelTimer).filterMap heard = _
    simp [heard, Function.comp_def]
  state := fun _ _ h => h

/-- Whatever a consumer does, it is told of nothing but what it is called for. -/
theorem heard_call (w : World σ) (event : Event) (reaction : Reaction σ) :
    ((w.record [event]).react reaction).log.filterMap heard =
        w.log.filterMap heard ++ (heard event).toList ∧
      ((w.record [event]).react reaction).provider.currentTime = w.provider.currentTime := by
  refine (keptByCalls_heard _ _).react reaction ⟨?_, rfl⟩
  rw [log_record, List.filterMap_append]
  cases hevent : heard event <;> simp [hevent]

theorem heard_callOnMarketData (tick : CTickData) (w : World σ) :
    (tickConsumers.foldl (callOnMarketData consumers tick) w).log.filterMap heard =
      w.log.filterMap heard ++
        tickConsumers.map fun consumer => (consumer, tick, w.provider.currentTime) := by
  induction tickConsumers generalizing w with
  | nil => simp
  | cons consumer rest ih =>
      obtain ⟨htold, hnow⟩ := heard_call w
        (.onMarketData consumer tick w.provider.currentTime)
        (consumers.onMarketData w.state consumer tick w.provider.currentTime)
      rw [List.foldl_cons, ih]
      change (callOnMarketData consumers tick w consumer).log.filterMap heard = _ at htold
      change (callOnMarketData consumers tick w consumer).provider.currentTime = _ at hnow
      rw [htold, hnow]
      simp [heard]

theorem heard_advanceToTime {timeInMs : ℕ}
    (h : advanceToTime consumers fuel timeInMs w = some w') :
    w'.log.filterMap heard = w.log.filterMap heard ∧ w'.provider.currentTime = timeInMs := by
  have hfire : ∀ v t, v.provider.getNextTimer = some t → t.nextTriggerTime ≤ timeInMs →
      v.log.filterMap heard = w.log.filterMap heard →
      (fireTimer consumers v t).log.filterMap heard = w.log.filterMap heard := by
    intro v t _ _ hv
    obtain ⟨hcalled, -⟩ := heard_call (v.setCurrentTime t.nextTriggerTime)
      (.onTimer t t.nextTriggerTime)
      (consumers.onTimer v.state t.consumer t.eventid t.nextTriggerTime)
    rw [log_fireTimer, List.filterMap_append]
    exact (congrArg (· ++ []) (hcalled.trans (List.append_nil _))).trans
      ((List.append_nil _).trans hv)
  obtain ⟨v, rfl, hv, -⟩ := advanceToTime_invariant hfire h rfl
  exact ⟨hv, rfl⟩

theorem heard_replayTick {tick : CTickData}
    (h : replayTick consumers fuel tickConsumers w tick = some w') :
    w'.log.filterMap heard = w.log.filterMap heard ++
      tickConsumers.map fun consumer => (consumer, tick, tick.timeInMS) := by
  obtain ⟨v, hv, rfl⟩ := Option.map_eq_some_iff.mp h
  obtain ⟨htold, hnow⟩ := heard_advanceToTime hv
  rw [heard_callOnMarketData, htold, hnow]

theorem heard_allTicks {allTicks : List CTickData}
    (h : allTicks.foldlM (replayTick consumers fuel tickConsumers) w = some w') :
    w'.log.filterMap heard = w.log.filterMap heard ++ allTicks.flatMap fun tick =>
      tickConsumers.map fun consumer => (consumer, tick, tick.timeInMS) := by
  induction allTicks generalizing w with
  | nil =>
      obtain rfl := Option.some.inj h
      simp
  | cons tick rest ih =>
      obtain ⟨v, hv, hrest⟩ := Option.bind_eq_some_iff.mp h
      rw [ih hrest, heard_replayTick hv, List.flatMap_cons, List.append_assoc]

theorem heard_forEachConsumer {body : World σ → ℕ → World σ}
    (hbody : ∀ w consumer, (body w consumer).log.filterMap heard = w.log.filterMap heard)
    (h : forEachConsumer body fuel w = some w') :
    w'.log.filterMap heard = w.log.filterMap heard :=
  forEachConsumer_invariant (I := fun v => v.log.filterMap heard = w.log.filterMap heard)
    (fun v consumer hv => (hbody v consumer).trans hv) h rfl

theorem heard_startDate (h : startDate consumers fuel date w = some w') :
    w'.log.filterMap heard = w.log.filterMap heard := by
  have hbody : ∀ v consumer, (callOnStartDay consumers date v consumer).log.filterMap heard =
      v.log.filterMap heard := by
    intro v consumer
    exact (heard_call v _ _).1.trans (List.append_nil _)
  exact heard_forEachConsumer
    (w := { w with provider := { w.provider with currentDate := date, currentTime := 0 } }) hbody h

theorem heard_endDate (h : endDate consumers fuel date w = some w') :
    w'.log.filterMap heard = w.log.filterMap heard := by
  have hbody : ∀ v consumer, (callOnEndDay consumers v consumer).log.filterMap heard =
      v.log.filterMap heard := by
    intro v consumer
    have hcleared : (v.clearTimers consumer).log.filterMap heard = v.log.filterMap heard := by
      change (v.log ++ (v.provider.timersOf consumer).values.map Event.clearTimer).filterMap _ = _
      simp [heard, Function.comp_def]
    exact ((heard_call (v.clearTimers consumer) _ _).1.trans (List.append_nil _)).trans hcleared
  rw [endDate] at h
  split_ifs at h
  · obtain ⟨v, hv, hclose⟩ := Option.bind_eq_some_iff.mp h
    rw [← (heard_advanceToTime hv).1]
    exact heard_forEachConsumer hbody hclose
  · rw [Option.some.inj h]

theorem heard_startReplay {allTicks : List CTickData}
    (h : startReplay consumers fuel date tickConsumers allTicks w = some w') :
    w'.log.filterMap heard = w.log.filterMap heard ++ allTicks.flatMap fun tick =>
      tickConsumers.map fun consumer => (consumer, tick, tick.timeInMS) := by
  obtain ⟨u, hu, hend⟩ := Option.bind_eq_some_iff.mp h
  obtain ⟨v, hv, hticks⟩ := Option.bind_eq_some_iff.mp hu
  rw [heard_endDate hend, heard_allTicks hticks, heard_startDate hv]

theorem filter_heard_tick {consumer : ℕ} (hnodup : tickConsumers.Nodup)
    (hmem : consumer ∈ tickConsumers) (allTicks : List CTickData) :
    (allTicks.flatMap fun tick =>
        tickConsumers.map fun consumer => (consumer, tick, tick.timeInMS)).filter
          (fun told => told.1 = consumer) =
      allTicks.map fun tick => (consumer, tick, tick.timeInMS) := by
  have hone : tickConsumers.filter (fun c => c = consumer) = [consumer] := by
    rw [List.filter_eq, List.count_eq_one_of_mem hnodup hmem]
    rfl
  induction allTicks with
  | nil => rfl
  | cons tick rest ih =>
      rw [List.flatMap_cons, List.filter_append, ih, List.filter_map]
      simp [Function.comp_def, hone]

end Heard

/-! ### The day -/

section Day

variable {σ : Type} {consumers : Consumers σ} {w w' : World σ} {fuel date : ℕ}
  {tickConsumers : List ℕ} {allTicks : List CTickData}

/-- One turn of the replay, from the world in which the clock is advanced to the one in which
the first consumer sees the tick. -/
structure TickTurn (consumers : Consumers σ) (fuel : ℕ) (tick : CTickData) (u v : World σ) :
    Prop where
  advance : advanceToTime consumers fuel tick.timeInMS u = some v
  clock : v.provider.currentTime = tick.timeInMS
  noneDue : ∀ c e t, v.provider.timer c e = some t → tick.timeInMS < t.nextTriggerTime
  delivered : ∃ turn, v.log = u.log ++ turn ∧
    ∀ c e t, u.provider.timer c e = some t → ¬ Removed turn t →
      ∀ k, (t.isRepeat = false → k = 0) → t.nextTriggerTime + k * t.interval ≤ tick.timeInMS →
        Delivered turn t k

theorem tickTurn {tick : CTickData} {u v : World σ} (hkeyed : u.provider.Keyed)
    (hfits : u.provider.Fits) (h : advanceToTime consumers fuel tick.timeInMS u = some v) :
    TickTurn consumers fuel tick u v where
  advance := h
  clock := (heard_advanceToTime h).2
  noneDue := by
    obtain ⟨v, rfl, -, hidle⟩ := advanceToTime_invariant (I := fun _ => True)
      (fun _ _ _ _ _ => trivial) h trivial
    exact hidle
  delivered := by
    obtain ⟨turn, hturn⟩ : u.log <+: v.log :=
      (keptByTurns_logGrows consumers u.log).advanceToTime h (List.prefix_refl _)
    exact ⟨turn, hturn.symm, fun c e t ht hremoved k hk hdue =>
      delivered_of_advanceToTime hkeyed hfits h hturn.symm ht hremoved hk hdue⟩

theorem replayTicks_invariant {I : World σ → Prop} (hI : KeptBySteps consumers I)
    (h : replayTicks consumers fuel date tickConsumers allTicks w = some w') (hw : I w) :
    I w' := by
  obtain ⟨v, hv, hticks⟩ := Option.bind_eq_some_iff.mp h
  have hstart : I v := hI.startDate hv hw
  clear h hv
  induction allTicks generalizing v with
  | nil => exact Option.some.inj hticks ▸ hstart
  | cons tick rest ih =>
      obtain ⟨u, hu, hrest⟩ := Option.bind_eq_some_iff.mp hticks
      obtain ⟨u', hu', rfl⟩ := Option.map_eq_some_iff.mp hu
      refine ih _ hrest (List.foldlRecOn tickConsumers _ (hI.advanceToTime hu' hstart) ?_)
      exact fun u hu consumer _ => hI.callOnMarketData tick consumer hu

theorem replayTicks_concat (pre : List CTickData) (tick : CTickData) :
    replayTicks consumers fuel date tickConsumers (pre ++ [tick]) w =
      (replayTicks consumers fuel date tickConsumers pre w).bind fun u =>
        replayTick consumers fuel tickConsumers u tick := by
  simp [replayTicks, List.foldlM_append, Option.bind_assoc]

/-- Every timer that has been set and that nobody has cancelled has been delivered as often as it
was due by a time. -/
def DueDelivered (log : List Event) (timeInMs : ℕ) : Prop :=
  ∀ info now, Event.setTimer info now ∈ log → ¬ Removed log info →
    ∀ k, (info.isRepeat = false → k = 0) →
      info.nextTriggerTime + k * info.interval ≤ timeInMs → Delivered log info k

theorem exists_tickTurn (hkeyed : w.provider.Keyed) (hfits : w.provider.Fits)
    (htracked : KeptOwn w.log → Tracked w) {pre post : List CTickData} {tick : CTickData}
    (h : replayTicks consumers fuel date tickConsumers (pre ++ tick :: post) w = some w') :
    ∃ u v, replayTicks consumers fuel date tickConsumers pre w = some u ∧
      TickTurn consumers fuel tick u v ∧
      replayTicks consumers fuel date tickConsumers (pre ++ [tick]) w =
        some (tickConsumers.foldl (callOnMarketData consumers tick) v) ∧
      (KeptOwn v.log → DueDelivered v.log tick.timeInMS) := by
  obtain ⟨x, hx, hticks⟩ := Option.bind_eq_some_iff.mp h
  rw [List.foldlM_append] at hticks
  obtain ⟨u, hu, hrest⟩ := Option.bind_eq_some_iff.mp hticks
  obtain ⟨y, hy, -⟩ := Option.bind_eq_some_iff.mp hrest
  obtain ⟨v, hv, rfl⟩ := Option.map_eq_some_iff.mp hy
  have hpre : replayTicks consumers fuel date tickConsumers pre w = some u := by
    rw [replayTicks, hx]
    exact hu
  refine ⟨u, v, hpre, tickTurn ?_ ?_ hv, ?_, ?_⟩
  · exact replayTicks_invariant (keptBySteps_keyed consumers) hpre hkeyed
  · exact replayTicks_invariant (keptBySteps_fits consumers) hpre hfits
  · rw [replayTicks_concat, hpre]
    exact hy
  · intro hown info now hset hremoved k hk hdue
    have huv : u.log <+: v.log :=
      (keptByTurns_logGrows consumers u.log).advanceToTime hv (List.prefix_refl _)
    have hu : Tracked u := replayTicks_invariant (keptByTurns_tracked consumers).keptBySteps hpre
      htracked (hown.of_prefix huv)
    exact hu.delivered hv hown hset hremoved hk hdue

end Day

/-- The stores of a day come out as one sorted sequence with all their ticks, each store in its
own order, and every consumer sees just this sequence, each tick at its own time and after the
timers that are due by then: those that were in the table, and all that were ever set as long as no
callback of a timer that does not repeat returns with a new one under its own event. -/
theorem merged_and_replayed {stores : List MarketDataStore}
    (hsorted : ∀ store ∈ stores, SortedStore store) (date : ℕ) :
    ∃ allTicks, loadTickPtrs stores = some (allTicks.map some) ∧
      (MarketDataReplayerMultiThread.loaded date stores).allTicks = allTicks ∧
      SortedBy CTickData.timeInMS allTicks ∧
      allTicks.Perm (stores.flatMap MarketDataStore.tickDataVec) ∧
      Interleaves (stores.map MarketDataStore.tickDataVec) allTicks ∧
      ∀ {σ : Type} (consumers : Consumers σ) (state : σ) (as : List Action) (w w' : World σ)
        (fuel : ℕ) (tickConsumers : List ℕ),
        Run (step consumers) (fun _ _ => True) (initial state) as w → tickConsumers.Nodup →
        startReplay consumers fuel date tickConsumers allTicks w = some w' →
        (∃ day, w'.log = w.log ++ day ∧
          (day.filterMap heard = allTicks.flatMap fun tick =>
            tickConsumers.map fun consumer => (consumer, tick, tick.timeInMS)) ∧
          ∀ consumer ∈ tickConsumers,
            (day.filterMap heard).filter (fun told => told.1 = consumer) =
              allTicks.map fun tick => (consumer, tick, tick.timeInMS)) ∧
        ∀ pre tick post, allTicks = pre ++ tick :: post →
          ∃ u v, replayTicks consumers fuel date tickConsumers pre w = some u ∧
            TickTurn consumers fuel tick u v ∧
            replayTicks consumers fuel date tickConsumers (pre ++ [tick]) w =
              some (tickConsumers.foldl (callOnMarketData consumers tick) v) ∧
            (KeptOwn v.log → DueDelivered v.log tick.timeInMS) := by
  refine ⟨_, loadTickPtrs_eq date stores, rfl, ?_, ?_, ?_, ?_⟩
  · rw [allTicks_loaded]
    exact sortedBy_mergeAll hsorted
  · rw [allTicks_loaded]
    exact mergeAll_perm_flatMap stores
  · rw [allTicks_loaded]
    exact interleaves_mergeAll stores
  · intro σ consumers state as w w' fuel tickConsumers hrun hnodup hreplay
    obtain ⟨u, hu, hend⟩ := Option.bind_eq_some_iff.mp hreplay
    refine ⟨?_, ?_⟩
    · obtain ⟨day, hday⟩ : w.log <+: w'.log := (prefix_replayTicks hu).trans
        ((keptByTurns_logGrows consumers u.log).step (a := .endDate fuel date) hend
          (List.prefix_refl _))
      have hheard := heard_startReplay hreplay
      rw [← hday, List.filterMap_append] at hheard
      have hticks := List.append_cancel_left hheard
      refine ⟨day, hday.symm, hticks, fun consumer hconsumer => ?_⟩
      rw [hticks, filter_heard_tick hnodup hconsumer]
    · intro pre tick post hsplit
      rw [hsplit] at hu
      exact exists_tickTurn (keyed_of_run hrun) (fits_of_run hrun) (tracked_of_run hrun) hu

def handingOnActions : List Action :=
  [.registerTimerConsumer 1, .setTimer 1 7 32399990 false, .setTimer 1 9 32399992 false]

def thirdTimer : TimerInfo := ⟨2, 1, 8, 32399995, 5, false⟩

/-- Two stores with a tick at the same time, and a timer that is set while the clock is advanced to
that time. -/
theorem merged_and_replayed_handingOn :
    ∃ allTicks w w' day v,
      loadTickPtrs [openingStore 5220000, openingStore 5240000] = some (allTicks.map some) ∧
      Run (step handingOn) (fun _ _ => True) (initial ()) handingOnActions w ∧
      startReplay handingOn 4 20150105 [2, 3] allTicks w = some w' ∧ w'.log = w.log ++ day ∧
      (∀ consumer ∈ [2, 3], (day.filterMap heard).filter (fun told => told.1 = consumer) =
        allTicks.map fun tick => (consumer, tick, tick.timeInMS)) ∧
      (replayTicks handingOn 4 20150105 [2, 3] [] w).bind (advanceToTime handingOn 4 32400000) =
        some v ∧
      Event.setTimer thirdTimer 32399990 ∈ v.log ∧ Delivered v.log thirdTimer 0 := by
  obtain ⟨allTicks, hptrs, hloaded, -, -, -, hreplayed⟩ :=
    @merged_and_replayed [openingStore 5220000, openingStore 5240000]
      (by simp [SortedStore, SortedBy, openingStore]) 20150105
  obtain rfl : [{ instIndex := 5240000, timeInMS := 32400000 },
      { instIndex := 5220000, timeInMS := 32400000 }] = allTicks := by
    rw [← hloaded]
    simp [MarketDataReplayerMultiThread.loaded, MarketDataReplayerMultiThread.create,
      MarketDataReplayerMultiThread.addDataStore, openingStore]
  let w := (Run.execute (step handingOn) (fun _ _ => True) (initial ()) handingOnActions).get
    (by decide +kernel)
  have hrun : Run (step handingOn) (fun _ _ => True) (initial ()) handingOnActions w :=
    Run.of_execute (Option.some_get _).symm
  obtain ⟨w', hw'⟩ := Option.isSome_iff_exists.mp
    (show (startReplay handingOn 4 20150105 [2, 3] [{ instIndex := 5240000, timeInMS := 32400000 },
      { instIndex := 5220000, timeInMS := 32400000 }] w).isSome by decide +kernel)
  obtain ⟨⟨day, hlog, -, hheard⟩, hturns⟩ :=
    hreplayed _ () _ w w' 4 [2, 3] hrun (by decide) hw'
  obtain ⟨u, v, hu, hturn, -, hdue⟩ := hturns [] _ _ rfl
  have hv : (replayTicks handingOn 4 20150105 [2, 3] [] w).bind
      (advanceToTime handingOn 4 32400000) = some v := by
    rw [hu]
    exact hturn.advance
  have hvlog : ((replayTicks handingOn 4 20150105 [2, 3] [] w).bind
      (advanceToTime handingOn 4 32400000)).map World.log =
        some [.setTimer ⟨0, 1, 7, 32399990, 32399990, false⟩ 0,
          .setTimer ⟨1, 1, 9, 32399992, 32399992, false⟩ 0, .onStartDay 1 0,
          .onTimer ⟨0, 1, 7, 32399990, 32399990, false⟩ 32399990,
          .cancelTimer ⟨1, 1, 9, 32399992, 32399992, false⟩, .setTimer thirdTimer 32399990,
          .returned ⟨0, 1, 7, 32399990, 32399990, false⟩
            (some ⟨0, 1, 7, 32399990, 32399990, false⟩),
          .onTimer thirdTimer 32399995, .returned thirdTimer (some thirdTimer)] := by
    decide +kernel
  rw [hv, Option.map_some, Option.some_inj] at hvlog
  have hset : Event.setTimer thirdTimer 32399990 ∈ v.log := by simp [hvlog]
  refine ⟨_, w, w', day, v, hptrs, hrun, hw', hlog, hheard, hv, hset, ?_⟩
  refine hdue ?_ thirdTimer 32399990 hset ?_ 0 (fun _ => rfl) (by decide)
  · rw [hvlog]
    decide
  · rw [hvlog]
    simp [Removed, thirdTimer]

def twoTickStore : MarketDataStore :=
  { instIndex := 5220000, date := 20150105, maxLevels := 5,
    tickDataVec := [{ instIndex := 5220000, timeInMS := 10 },
      { instIndex := 5220000, timeInMS := 20 }] }

/-- The timer that was set at 10 for 15 is not delivered before the tick at 20, nor later. -/
theorem not_dueDelivered_rearming :
    SortedStore twoTickStore ∧
      loadTickPtrs [twoTickStore] = some (twoTickStore.tickDataVec.map some) ∧
      ∃ w w' u v, Run (step rearming) (fun _ _ => True) (initial ())
          [.registerTimerConsumer 1, .setTimer 1 7 10 false] w ∧
        startReplay rearming 3 20150105 [2] twoTickStore.tickDataVec w = some w' ∧
        replayTicks rearming 3 20150105 [2] (twoTickStore.tickDataVec.take 1) w = some u ∧
        advanceToTime rearming 3 20 u = some v ∧
        Event.setTimer ⟨1, 1, 7, 15, 5, false⟩ 10 ∈ u.log ∧
        ¬ Removed w'.log ⟨1, 1, 7, 15, 5, false⟩ ∧
        ¬ DueDelivered v.log 20 ∧ ∀ k, ¬ Delivered w'.log ⟨1, 1, 7, 15, 5, false⟩ k := by
  let w := (Run.execute (step rearming) (fun _ _ => True) (initial ())
    [.registerTimerConsumer 1, .setTimer 1 7 10 false]).get (by decide +kernel)
  let w' := (startReplay rearming 3 20150105 [2] twoTickStore.tickDataVec w).get (by decide +kernel)
  let u := (replayTicks rearming 3 20150105 [2] (twoTickStore.tickDataVec.take 1) w).get
    (by decide +kernel)
  let v := (advanceToTime rearming 3 20 u).get (by decide +kernel)
  have hulog : u.log = [.setTimer ⟨0, 1, 7, 10, 10, false⟩ 0, .onStartDay 1 0,
      .onTimer ⟨0, 1, 7, 10, 10, false⟩ 10, .cancelTimer ⟨0, 1, 7, 10, 10, false⟩,
      .setTimer ⟨1, 1, 7, 15, 5, false⟩ 10,
      .returned ⟨0, 1, 7, 10, 10, false⟩ (some ⟨1, 1, 7, 15, 5, false⟩),
      .onMarketData 2 { instIndex := 5220000, timeInMS := 10 } 10] := by decide +kernel
  have hvlog : v.log = u.log := by decide +kernel
  have hlog : w'.log = u.log ++
      [.onMarketData 2 { instIndex := 5220000, timeInMS := 20 } 20, .onEndDay 1 lastMs] := by
    decide +kernel
  have hset : Event.setTimer ⟨1, 1, 7, 15, 5, false⟩ 10 ∈ u.log := by simp [hulog]
  have hremoved : ¬ Removed w'.log ⟨1, 1, 7, 15, 5, false⟩ := by simp [hlog, hulog, Removed]
  have hlost : ∀ k, ¬ Delivered w'.log ⟨1, 1, 7, 15, 5, false⟩ k := by
    simp [hlog, hulog, Delivered]
  have hprefix : v.log <+: w'.log := by
    rw [hlog, hvlog]
    exact List.prefix_append _ _
  refine ⟨by simp [SortedStore, SortedBy, twoTickStore], ?_, w, w', u, v,
    Run.of_execute (Option.some_get _).symm, (Option.some_get _).symm, (Option.some_get _).symm,
    (Option.some_get _).symm, hset, hremoved, fun hdue => ?_, hlost⟩
  · rw [loadTickPtrs_eq 20150105]
    simp [MarketDataReplayerMultiThread.loaded, MarketDataReplayerMultiThread.create,
      MarketDataReplayerMultiThread.addDataStore, twoTickStore]
  · have hsetBefore : Event.setTimer ⟨1, 1, 7, 15, 5, false⟩ 10 ∈ v.log := by
      rw [hvlog]
      exact hset
    have hdelivered := hdue ⟨1, 1, 7, 15, 5, false⟩ 10 hsetBefore
      (fun hgone => hremoved (hgone.mono hprefix)) 0 (fun _ => rfl) (by decide)
    exact hlost 0 (hdelivered.mono hprefix)

end BluesTrading.TickReplay
