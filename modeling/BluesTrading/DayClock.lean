import BluesTrading.TimerDelivery

namespace BluesTrading.DayClock

open BluesTrading.Foundations
open BluesTrading.OrderData
open BluesTrading.TimerProvider
open BluesTrading.TimerDelivery

variable {σ : Type}

def clock : Event → Option ℕ
  | .onTimer _ now => some now
  | .onStartDay _ now => some now
  | .onEndDay _ now => some now
  | .onMarketData _ _ now => some now
  | _ => none

def dayLength : ℕ := 24 * 3600 * 1000

/-- The timers that have been set since `start` are set for a time of the day that is not over,
with a positive interval. -/
def SetsAhead (start log : List Event) : Prop :=
  ∀ info now, Event.setTimer info now ∈ log.drop start.length →
    now ≤ info.nextTriggerTime ∧ info.nextTriggerTime < dayLength ∧ 0 < info.interval

/-- No timer that is still set goes off in the last second, if it has not done so before. -/
def QuietLastSecond (start log : List Event) : Prop :=
  ∀ info now, Event.setTimer info now ∈ log → ¬ Removed log info →
    ∀ k, (info.isRepeat = false → k = 0) → lastMs < info.nextTriggerTime + k * info.interval →
      info.nextTriggerTime + k * info.interval < dayLength → Delivered start info k

/-- A timer that repeats goes off again before the trigger time overflows. -/
def NoOverflow (t : TimerInfo) : Prop := t.isRepeat = true → t.interval + dayLength ≤ 2 ^ 32

theorem SetsAhead.of_prefix {start log log' : List Event} (h : SetsAhead start log')
    (hlog : log <+: log') : SetsAhead start log :=
  fun info now hset => h info now ((hlog.drop start.length).subset hset)

/-! ### A clock that does not go back -/

/-- The callbacks since `start` have seen a clock that only goes up. -/
def Steady (start : List Event) (w : World σ) : Prop :=
  ∃ day, w.log = start ++ day ∧ (day.filterMap clock).Pairwise (· ≤ ·) ∧
    ∀ seen ∈ day.filterMap clock, seen ≤ w.provider.currentTime

/-- The clock shows `now`, and no timer should have gone off before. -/
structure OnTime (start : List Event) (now : ℕ) (w : World σ) : Prop where
  shows : w.provider.currentTime = now
  steady : Steady start w
  ahead : ∀ c e t, w.provider.timer c e = some t → now ≤ t.nextTriggerTime
  noOverflow : ∀ c e t, w.provider.timer c e = some t → NoOverflow t

section Steady

variable {start : List Event} {w : World σ} {now : ℕ}

theorem Steady.setCurrentTime (h : Steady start w) (hle : w.provider.currentTime ≤ now) :
    Steady start (w.setCurrentTime now) :=
  let ⟨day, hlog, hsorted, hseen⟩ := h
  ⟨day, hlog, hsorted, fun seen hmem => (hseen seen hmem).trans hle⟩

theorem Steady.record (h : Steady start w) (events : List Event)
    (hevents : ∀ event ∈ events, ∀ seen ∈ clock event, seen = w.provider.currentTime) :
    Steady start (w.record events) := by
  obtain ⟨day, hlog, hsorted, hseen⟩ := h
  have hnow : ∀ seen ∈ events.filterMap clock, seen = w.provider.currentTime := by
    intro seen hmem
    obtain ⟨event, hevent, hclock⟩ := List.mem_filterMap.mp hmem
    exact hevents event hevent seen hclock
  refine ⟨day ++ events, ?_, ?_, ?_⟩
  · rw [log_record, hlog, List.append_assoc]
  · rw [List.filterMap_append, List.pairwise_append]
    refine ⟨hsorted, ?_, fun before hbefore seen hmem => ?_⟩
    · exact List.pairwise_of_forall_mem_list fun a ha b hb => (hnow a ha).trans_le (hnow b hb).ge
    · exact (hseen before hbefore).trans_eq (hnow seen hmem).symm
  · intro seen hmem
    rw [List.filterMap_append, List.mem_append] at hmem
    exact hmem.elim (hseen seen) fun hmem => (hnow seen hmem).le

/-- A callback neither moves the clock nor looks at it. -/
theorem keptByCalls_steady (start : List Event) (now : ℕ) :
    KeptByCalls (σ := σ) fun w => w.provider.currentTime = now ∧ Steady start w where
  setTimer := by
    intro w c e timeInMSFromNow isRepeat h
    refine ⟨(w.provider.currentTime_setTimer c e timeInMSFromNow isRepeat).trans h.1, ?_⟩
    obtain ⟨day, hlog, hsorted, hseen⟩ := h.2.record
      (if (w.provider.setTimer c e timeInMSFromNow isRepeat).1 then
        [.setTimer (w.provider.newTimer c e timeInMSFromNow isRepeat) w.provider.currentTime]
      else []) (by split_ifs <;> simp [clock])
    exact ⟨day, hlog, hsorted, fun seen hmem => (hseen seen hmem).trans_eq
      (w.provider.currentTime_setTimer c e timeInMSFromNow isRepeat).symm⟩
  cancelTimer := by
    intro w c e h
    exact ⟨h.1, h.2.record ((w.provider.timer c e).toList.map .cancelTimer)
      (by simp [clock])⟩
  state := fun _ _ h => h

/-- With timers set ahead, a callback leaves no timer behind the clock. -/
theorem keptByCalls_ahead (start : List Event) (now : ℕ) :
    KeptByCalls (σ := σ) fun w => w.provider.currentTime = now ∧ start <+: w.log ∧
      (SetsAhead start w.log → ∀ c e t, w.provider.timer c e = some t →
        now ≤ t.nextTriggerTime ∧ NoOverflow t) where
  setTimer := by
    rintro w c e timeInMSFromNow isRepeat ⟨hnow, hstart, hw⟩
    have hlog := prefix_setTimer w c e timeInMSFromNow isRepeat
    refine ⟨(w.provider.currentTime_setTimer c e timeInMSFromNow isRepeat).trans hnow,
      hstart.trans hlog, fun hahead c' e' t ht => ?_⟩
    rcases timer_setTimer_cases w ht with ht | ⟨rfl, hlast⟩
    · exact hw (hahead.of_prefix hlog) c' e' t ht
    · have hmem := hahead (w.provider.newTimer c e timeInMSFromNow isRepeat) w.provider.currentTime
      rw [hlast, List.drop_append_of_le_length hstart.length_le] at hmem
      obtain ⟨hle, hlt, -⟩ := hmem (List.mem_append_right _ (List.mem_singleton_self _))
      subst hnow
      refine ⟨hle, fun _ => ?_⟩
      simp only [FakeTimerProvider.newTimer, dayLength] at hle hlt ⊢
      omega
  cancelTimer := by
    rintro w c e ⟨hnow, hstart, hw⟩
    have hlog := prefix_cancelTimer w c e
    refine ⟨hnow, hstart.trans hlog, fun hahead c' e' t ht => ?_⟩
    exact hw (hahead.of_prefix hlog) c' e' t (timer_of_cancelTimer w ht)
  state := fun _ _ h => h

theorem OnTime.prefix (h : OnTime start now w) : start <+: w.log :=
  let ⟨day, hlog, _⟩ := h.steady
  hlog ▸ List.prefix_append start day

theorem OnTime.react (h : OnTime start now w) (reaction : Reaction σ)
    (hahead : SetsAhead start (w.react reaction).log) : OnTime start now (w.react reaction) := by
  obtain ⟨hshows, hsteady⟩ := (keptByCalls_steady start now).react reaction ⟨h.shows, h.steady⟩
  obtain ⟨-, -, hw⟩ := (keptByCalls_ahead start now).react reaction
    ⟨h.shows, h.prefix, fun _ c e t ht => ⟨h.ahead c e t ht, h.noOverflow c e t ht⟩⟩
  exact ⟨hshows, hsteady, fun c e t ht => (hw hahead c e t ht).1,
    fun c e t ht => (hw hahead c e t ht).2⟩

theorem OnTime.record (h : OnTime start now w) (event : Event)
    (hevent : ∀ seen ∈ clock event, seen = now) : OnTime start now (w.record [event]) where
  shows := h.shows
  steady := h.steady.record [event] (by simpa [h.shows] using hevent)
  ahead := h.ahead
  noOverflow := h.noOverflow

end Steady

/-! ### The day goes on -/

/-- What holds whenever no callback is running. -/
structure Replaying (start : List Event) (now : ℕ) (w : World σ) : Prop
    extends OnTime start now w where
  tracked : Tracked w

section Replaying

variable {consumers : Consumers σ} {start : List Event} {w w' : World σ} {now : ℕ}
  {t : TimerInfo}

theorem onTime_callOnTimer (h : OnTime start now w) (ht : w.provider.getNextTimer = some t)
    (hahead : SetsAhead start (callOnTimer consumers w t).log) :
    OnTime start t.nextTriggerTime (callOnTimer consumers w t) := by
  obtain ⟨⟨c, e, hte⟩, hfirst⟩ := FakeTimerProvider.getNextTimer_spec ht
  have hle : now ≤ t.nextTriggerTime := h.ahead c e t hte
  have hset : OnTime start t.nextTriggerTime (w.setCurrentTime t.nextTriggerTime) :=
    ⟨rfl, h.steady.setCurrentTime (h.shows.trans_le hle), hfirst, h.noOverflow⟩
  exact (hset.record _ (by simp [clock])).react _ hahead

/-- A fired timer is set for a later time if it repeats. -/
theorem onTime_fireTimer (h : Replaying start now w) (ht : w.provider.getNextTimer = some t)
    (hlt : t.nextTriggerTime < dayLength)
    (hahead : SetsAhead start (fireTimer consumers w t).log) :
    OnTime start t.nextTriggerTime (fireTimer consumers w t) := by
  obtain ⟨⟨c, e, hte⟩, -⟩ := FakeTimerProvider.getNextTimer_spec ht
  have hcalled : OnTime start t.nextTriggerTime (callOnTimer consumers w t) :=
    onTime_callOnTimer h.toOnTime ht
      (hahead.of_prefix (log_fireTimer consumers w t ▸ List.prefix_append _ _))
  have hclock := currentTime_fireTimer consumers w t
  refine ⟨hclock.trans hcalled.shows, ?_, fun c' e' info hinfo => ?_,
    fun c' e' info hinfo => ?_⟩
  · obtain ⟨day, hlog, hsorted, hseen⟩ := (hcalled.record (.returned t
      ((callOnTimer consumers w t).provider.timer t.consumer t.eventid)) (by simp [clock])).steady
    exact ⟨day, (log_fireTimer consumers w t).trans hlog, hsorted,
      fun seen hmem => (hseen seen hmem).trans_eq hclock.symm⟩
  · rcases timer_of_fireTimer consumers hinfo with
      hinfo | ⟨hrepeat, ⟨rfl, rfl⟩, old, hold, haddress, rfl⟩
    · exact hcalled.ahead c' e' info hinfo
    · obtain rfl := eq_of_callOnTimer consumers h.tracked.keyed ⟨c, e, hte⟩ hold haddress
      have hshort := h.noOverflow c e old hte hrepeat
      dsimp only
      omega
  · rcases timer_of_fireTimer consumers hinfo with hinfo | ⟨-, -, old, hold, -, rfl⟩
    · exact hcalled.noOverflow c' e' info hinfo
    · exact hcalled.noOverflow c' e' old hold

theorem Replaying.advanceToTime (h : Replaying start now w) {fuel timeInMs : ℕ}
    (hle : now ≤ timeInMs) (hlt : timeInMs < dayLength)
    (hadvance : advanceToTime consumers fuel timeInMs w = some w') (hown : KeptOwn w'.log)
    (hahead : SetsAhead start w'.log) : Replaying start timeInMs w' := by
  let I : World σ → Prop := fun v =>
    KeptOwn v.log → SetsAhead start v.log → ∃ now ≤ timeInMs, Replaying start now v
  have hfire : ∀ v t, v.provider.getNextTimer = some t → t.nextTriggerTime ≤ timeInMs → I v →
      I (fireTimer consumers v t) := by
    intro v t ht hdue hv hown hahead
    have hprefix := prefix_fireTimer consumers v t
    obtain ⟨before, -, hv⟩ := hv (hown.of_prefix hprefix) (hahead.of_prefix hprefix)
    exact ⟨t.nextTriggerTime, hdue, onTime_fireTimer hv ht (hdue.trans_lt hlt) hahead,
      tracked_fireTimer consumers hv.tracked (FakeTimerProvider.getNextTimer_spec ht).1 hown⟩
  obtain ⟨v, rfl, hv, hidle⟩ := advanceToTime_invariant hfire hadvance fun _ _ => ⟨now, hle, h⟩
  obtain ⟨before, hbefore, hv⟩ := hv hown hahead
  refine ⟨⟨rfl, hv.steady.setCurrentTime (hv.shows.trans_le hbefore), ?_, hv.noOverflow⟩,
    hv.tracked.setCurrentTime timeInMs⟩
  exact fun c e t ht => (hidle c e t ht).le

theorem prefix_react (w : World σ) (reaction : Reaction σ) : w.log <+: (w.react reaction).log :=
  ((keptByCalls_unmoved w).react reaction (Unmoved.refl w)).log

theorem prefix_call (w : World σ) (event : Event) (reaction : Reaction σ) :
    w.log <+: ((w.record [event]).react reaction).log :=
  (List.prefix_append _ _).trans (prefix_react (w.record [event]) reaction)

theorem Replaying.call (h : Replaying start now w) {event : Event} (reaction : Reaction σ)
    (hclock : clock event = some now) (hset : ∀ info now, event ≠ .setTimer info now)
    (hahead : SetsAhead start ((w.record [event]).react reaction).log) :
    Replaying start now ((w.record [event]).react reaction) where
  toOnTime := (h.toOnTime.record event (by simp [hclock])).react reaction hahead
  tracked := keptByCalls_tracked.react _ (h.tracked.record event hset)

theorem Replaying.startDate {fuel date : ℕ} (htracked : Tracked w)
    (hleft : ∀ c e t, w.provider.timer c e = some t → NoOverflow t)
    (hstart : startDate consumers fuel date w = some w') (hahead : SetsAhead w.log w'.log) :
    Replaying w.log 0 w' := by
  have hdate : Replaying w.log 0
      { w with provider := { w.provider with currentDate := date, currentTime := 0 } } :=
    ⟨⟨rfl, ⟨[], (List.append_nil _).symm, List.Pairwise.nil, by simp⟩,
      fun _ _ _ _ => Nat.zero_le _, hleft⟩,
      htracked.of_timer_eq (List.prefix_refl _) (fun _ _ h => h) rfl fun _ _ => rfl⟩
  refine forEachConsumer_invariant (I := fun v => SetsAhead w.log v.log → Replaying w.log 0 v) ?_
    hstart (fun _ => hdate) hahead
  intro v consumer hv hahead
  have hbefore := hv (hahead.of_prefix (prefix_call v _ _))
  exact hbefore.call _ (congrArg some hbefore.shows) (fun _ _ => by simp) hahead

theorem prefix_callOnMarketData (data : CTickData) (tickConsumers : List ℕ) (w : World σ) :
    w.log <+: (tickConsumers.foldl (callOnMarketData consumers data) w).log := by
  induction tickConsumers generalizing w with
  | nil => exact List.prefix_refl _
  | cons consumer rest ih => exact (prefix_call w _ _).trans (ih _)

theorem Replaying.callOnMarketData (h : Replaying start now w) (data : CTickData)
    (tickConsumers : List ℕ)
    (hahead : SetsAhead start (tickConsumers.foldl (callOnMarketData consumers data) w).log) :
    Replaying start now (tickConsumers.foldl (callOnMarketData consumers data) w) := by
  induction tickConsumers generalizing w with
  | nil => exact h
  | cons consumer rest ih =>
      exact ih (h.call _ (congrArg some h.shows) (fun _ _ => by simp)
        (hahead.of_prefix (prefix_callOnMarketData data rest _))) hahead

theorem prefix_replayTick {fuel : ℕ} {tickConsumers : List ℕ} {tick : CTickData}
    (h : replayTick consumers fuel tickConsumers w tick = some w') : w.log <+: w'.log := by
  obtain ⟨v, hv, rfl⟩ := Option.map_eq_some_iff.mp h
  exact ((keptByTurns_logGrows consumers w.log).advanceToTime hv (List.prefix_refl _)).trans
    (prefix_callOnMarketData tick tickConsumers v)

theorem prefix_allTicks {fuel : ℕ} {tickConsumers : List ℕ} {allTicks : List CTickData}
    (h : allTicks.foldlM (replayTick consumers fuel tickConsumers) w = some w') :
    w.log <+: w'.log := by
  induction allTicks generalizing w with
  | nil => exact Option.some.inj h ▸ List.prefix_refl _
  | cons tick rest ih =>
      obtain ⟨v, hv, hrest⟩ := Option.bind_eq_some_iff.mp h
      exact (prefix_replayTick hv).trans (ih hrest)

theorem Replaying.allTicks (h : Replaying start now w) (hle : now ≤ lastMs) {fuel : ℕ}
    {tickConsumers : List ℕ} {allTicks : List CTickData}
    (hsorted : allTicks.Pairwise fun a b => a.timeInMS ≤ b.timeInMS)
    (hnow : ∀ tick ∈ allTicks, now ≤ tick.timeInMS)
    (hlast : ∀ tick ∈ allTicks, tick.timeInMS ≤ lastMs)
    (hreplay : allTicks.foldlM (replayTick consumers fuel tickConsumers) w = some w')
    (hown : KeptOwn w'.log) (hahead : SetsAhead start w'.log) :
    ∃ later ≤ lastMs, Replaying start later w' := by
  induction allTicks generalizing w now with
  | nil => exact Option.some.inj hreplay ▸ ⟨now, hle, h⟩
  | cons tick rest ih =>
      obtain ⟨v, hv, hrest⟩ := Option.bind_eq_some_iff.mp hreplay
      obtain ⟨u, hu, rfl⟩ := Option.map_eq_some_iff.mp hv
      obtain ⟨hfirst, hsorted⟩ := List.pairwise_cons.mp hsorted
      obtain ⟨htick, hlast⟩ := List.forall_mem_cons.mp hlast
      have hrestlog := prefix_allTicks hrest
      have hcallslog := (prefix_callOnMarketData tick tickConsumers u).trans hrestlog
      have hu : Replaying start tick.timeInMS u :=
        h.advanceToTime (hnow tick List.mem_cons_self) (htick.trans_lt (by decide)) hu
          (hown.of_prefix hcallslog) (hahead.of_prefix hcallslog)
      exact ih (hu.callOnMarketData tick tickConsumers (hahead.of_prefix hrestlog)) htick hsorted
        hfirst hlast hrest

end Replaying

/-! ### The end of the day -/

/-- Every occurrence before midnight of a timer that is still set has been delivered. -/
def AllDelivered (log : List Event) : Prop :=
  ∀ info now, Event.setTimer info now ∈ log → ¬ Removed log info →
    ∀ k, (info.isRepeat = false → k = 0) → info.nextTriggerTime + k * info.interval < dayLength →
      Delivered log info k

section EndOfDay

variable (consumers : Consumers σ)

/-- `StartReplay` up to the point where `endDate` begins to call the consumers. -/
def beforeEndDay (fuel date : ℕ) (tickConsumers : List ℕ) (allTicks : List CTickData)
    (w : World σ) : Option (World σ) :=
  (replayTicks consumers fuel date tickConsumers allTicks w).bind
    (advanceToTime consumers fuel lastMs)

variable {consumers} {w w' : World σ} {fuel date : ℕ} {tickConsumers : List ℕ}
  {allTicks : List CTickData}

theorem currentDate_setTimer (p : FakeTimerProvider) (c e timeInMSFromNow : ℕ) (isRepeat : Bool) :
    (p.setTimer c e timeInMSFromNow isRepeat).2.currentDate = p.currentDate := by
  simp only [FakeTimerProvider.setTimer]
  split <;> rfl

theorem currentDate_reschedule (p : FakeTimerProvider) (t : TimerInfo) :
    (p.reschedule t).currentDate = p.currentDate := by
  unfold FakeTimerProvider.reschedule
  split
  · rfl
  · split_ifs <;> rfl

theorem keptByCalls_currentDate (date : ℕ) :
    KeptByCalls (σ := σ) fun w => w.provider.currentDate = date where
  setTimer := fun w c e timeInMSFromNow isRepeat h =>
    (currentDate_setTimer w.provider c e timeInMSFromNow isRepeat).trans h
  cancelTimer := fun _ _ _ h => h
  state := fun _ _ h => h

theorem currentDate_advanceToTime {timeInMs : ℕ}
    (h : advanceToTime consumers fuel timeInMs w = some w') :
    w'.provider.currentDate = w.provider.currentDate := by
  have hfire : ∀ v t, v.provider.getNextTimer = some t → t.nextTriggerTime ≤ timeInMs →
      v.provider.currentDate = w.provider.currentDate →
      (fireTimer consumers v t).provider.currentDate = w.provider.currentDate := by
    intro v t _ _ hv
    have hcalled : (callOnTimer consumers v t).provider.currentDate = w.provider.currentDate :=
      (keptByCalls_currentDate _).react _ hv
    rw [fireTimer]
    split_ifs
    · exact (currentDate_reschedule _ t).trans hcalled
    · exact hcalled
  obtain ⟨v, rfl, hv, -⟩ := advanceToTime_invariant hfire h rfl
  exact hv

theorem currentDate_replayTicks
    (h : replayTicks consumers fuel date tickConsumers allTicks w = some w') :
    w'.provider.currentDate = date := by
  obtain ⟨v, hv, hticks⟩ := Option.bind_eq_some_iff.mp h
  have hstart : ∀ (v : World σ) consumer, v.provider.currentDate = date →
      (callOnStartDay consumers date v consumer).provider.currentDate = date :=
    fun v consumer hv => (keptByCalls_currentDate date).react _ hv
  have hdate : v.provider.currentDate = date :=
    forEachConsumer_invariant (I := fun v => v.provider.currentDate = date) hstart hv rfl
  clear h hv
  induction allTicks generalizing v with
  | nil => exact Option.some.inj hticks ▸ hdate
  | cons tick rest ih =>
      obtain ⟨u, hu, hrest⟩ := Option.bind_eq_some_iff.mp hticks
      obtain ⟨u', hu', rfl⟩ := Option.map_eq_some_iff.mp hu
      refine ih _ hrest ?_
      refine List.foldlRecOn tickConsumers _
        (motive := fun u : World σ => u.provider.currentDate = date)
        ((currentDate_advanceToTime hu').trans hdate) ?_
      intro u hu consumer _
      exact (keptByCalls_currentDate date).react _ hu

theorem startReplay_eq (hdate : date ≠ 0) :
    startReplay consumers fuel date tickConsumers allTicks w =
      (beforeEndDay consumers fuel date tickConsumers allTicks w).bind
        (closeDate consumers fuel) := by
  rw [startReplay, beforeEndDay, Option.bind_assoc]
  refine Option.bind_congr fun v hv => ?_
  rw [endDate, if_pos ⟨(currentDate_replayTicks hv).symm, hdate⟩]

theorem Steady.closeDate {start : List Event} (h : Steady start w)
    (hclose : closeDate consumers fuel w = some w') : Steady start w' := by
  let I : World σ → Prop := fun v =>
    v.provider.currentTime = w.provider.currentTime ∧ Steady start v
  have hbody : ∀ v consumer, I v → I (callOnEndDay consumers v consumer) := by
    intro v consumer hv
    have hclear : Steady start (v.clearTimers consumer) :=
      hv.2.record ((v.provider.timersOf consumer).values.map .clearTimer)
        (by simp [clock])
    have hcall : Steady start ((v.clearTimers consumer).record
        [.onEndDay consumer (v.clearTimers consumer).provider.currentTime]) :=
      hclear.record _ (by simp [clock])
    exact (keptByCalls_steady start _).react _ ⟨hv.1, hcall⟩
  exact (forEachConsumer_invariant hbody hclose ⟨rfl, h⟩).2

theorem prefix_replayTicks
    (h : replayTicks consumers fuel date tickConsumers allTicks w = some w') :
    w.log <+: w'.log := by
  obtain ⟨v, hv, hticks⟩ := Option.bind_eq_some_iff.mp h
  exact ((keptByTurns_logGrows consumers w.log).startDate hv (List.prefix_refl _)).trans
    (prefix_allTicks hticks)

theorem Replaying.replayTicks (htracked : Tracked w)
    (hleft : ∀ c e t, w.provider.timer c e = some t → NoOverflow t)
    (hsorted : allTicks.Pairwise fun a b => a.timeInMS ≤ b.timeInMS)
    (hlast : ∀ tick ∈ allTicks, tick.timeInMS ≤ lastMs)
    (hreplay : replayTicks consumers fuel date tickConsumers allTicks w = some w')
    (hown : KeptOwn w'.log) (hahead : SetsAhead w.log w'.log) :
    ∃ now ≤ lastMs, Replaying w.log now w' := by
  obtain ⟨v, hv, hticks⟩ := Option.bind_eq_some_iff.mp hreplay
  have hstart : Replaying w.log 0 v :=
    Replaying.startDate htracked hleft hv (hahead.of_prefix (prefix_allTicks hticks))
  exact hstart.allTicks (Nat.zero_le _) hsorted (fun _ _ => Nat.zero_le _) hlast hticks hown hahead

/-- On a day with no tick and no timer in the last second, and no callback of a timer that does
not repeat that sets another one under its own event, the clock only goes up and every timer
is delivered in time. -/
theorem day_of_quietLastSecond {state : σ} {as : List Action}
    (hrun : Run (step consumers) (fun _ _ => True) (initial state) as w)
    (hreplay : startReplay consumers fuel date tickConsumers allTicks w = some w')
    (hsorted : allTicks.Pairwise fun a b => a.timeInMS ≤ b.timeInMS)
    (hahead : SetsAhead w.log w'.log)
    (hleft : ∀ c e t, w.provider.timer c e = some t → NoOverflow t)
    (hown : KeptOwn w'.log) (hlast : ∀ tick ∈ allTicks, tick.timeInMS ≤ lastMs)
    (hquiet : ∀ v, beforeEndDay consumers fuel date tickConsumers allTicks w = some v →
      QuietLastSecond w.log v.log) :
    (∃ day, w'.log = w.log ++ day ∧ (day.filterMap clock).Pairwise (· ≤ ·)) ∧
      (date ≠ 0 → ∃ v, beforeEndDay consumers fuel date tickConsumers allTicks w = some v ∧
        closeDate consumers fuel v = some w' ∧ AllDelivered v.log) := by
  obtain ⟨u, hu, hend⟩ := Option.bind_eq_some_iff.mp hreplay
  have hendlog : u.log <+: w'.log :=
    (keptByTurns_logGrows consumers u.log).step (a := .endDate fuel date) hend (List.prefix_refl _)
  have hlog : w.log <+: w'.log := (prefix_replayTicks hu).trans hendlog
  obtain ⟨now, hnow, hday⟩ := Replaying.replayTicks (tracked_of_run hrun (hown.of_prefix hlog))
    hleft hsorted hlast hu (hown.of_prefix hendlog) (hahead.of_prefix hendlog)
  by_cases hdate : date = 0
  · rw [endDate, if_neg fun h => h.2 hdate] at hend
    obtain rfl := Option.some.inj hend
    obtain ⟨day, hday, hclock, -⟩ := hday.steady
    exact ⟨⟨day, hday, hclock⟩, fun h => absurd hdate h⟩
  · rw [startReplay_eq hdate] at hreplay
    obtain ⟨v, hv, hclose⟩ := Option.bind_eq_some_iff.mp hreplay
    have hadvance : advanceToTime consumers fuel lastMs u = some v := by
      rwa [beforeEndDay, hu] at hv
    have hcloselog : v.log <+: w'.log :=
      (keptByTurns_logGrows consumers v.log).closeDate hclose (List.prefix_refl _)
    have hown : KeptOwn v.log := hown.of_prefix hcloselog
    have hend := hday.advanceToTime hnow (by decide) hadvance hown (hahead.of_prefix hcloselog)
    obtain ⟨day, hlog, hclock, -⟩ := hend.steady.closeDate hclose
    refine ⟨⟨day, hlog, hclock⟩, fun _ => ⟨v, hv, hclose, ?_⟩⟩
    intro info set hset hremoved k hk hbefore
    by_cases hdue : info.nextTriggerTime + k * info.interval ≤ lastMs
    · exact hday.tracked.delivered hadvance hown hset hremoved hk hdue
    · have hearlier := hquiet v hv info set hset hremoved k hk (not_le.mp hdue) hbefore
      have huv : u.log <+: v.log :=
        (keptByTurns_logGrows consumers u.log).advanceToTime hadvance (List.prefix_refl _)
      exact hearlier.mono ((prefix_replayTicks hu).trans huv)

end EndOfDay

/-! ### Sample days -/

def settingAtStart (timeInMSFromNow : ℕ) (isRepeat : Bool) : Consumers Unit :=
  { idle with
    onStartDay := fun _ consumer _ _ =>
      .setTimer consumer 7 timeInMSFromNow isRepeat fun _ => .done () }

def registered : World Unit := (initial ()).clearTimers 1

theorem run_registered (consumers : Consumers Unit) :
    Run (step consumers) (fun _ _ => True) (initial ()) [.registerTimerConsumer 1] registered :=
  .cons trivial rfl (.nil _)

def noonTimer : TimerInfo := ⟨0, 1, 7, 43200000, 43200000, true⟩

def sampleTick (timeInMS : ℕ) : CTickData := { instIndex := 5220000, timeInMS := timeInMS }

/-- A timer for noon and midnight, and a tick in the morning. -/
theorem day_of_quietLastSecond_noon :
    ∃ w', startReplay (settingAtStart 43200000 true) 2 20140103 [2] [sampleTick 36000000]
        registered = some w' ∧
      w'.log = [.onStartDay 1 0, .setTimer noonTimer 0,
        .onMarketData 2 (sampleTick 36000000) 36000000,
        .onTimer noonTimer 43200000, .returned noonTimer (some noonTimer),
        .clearTimer { noonTimer with nextTriggerTime := 86400000 }, .onEndDay 1 lastMs] ∧
      ∃ v, beforeEndDay (settingAtStart 43200000 true) 2 20140103 [2] [sampleTick 36000000]
          registered = some v ∧ AllDelivered v.log := by
  let day := startReplay (settingAtStart 43200000 true) 2 20140103 [2] [sampleTick 36000000]
    registered
  let w' := day.get (by decide +kernel)
  have hreplay : day = some w' := (Option.some_get _).symm
  have hlog : w'.log = [.onStartDay 1 0, .setTimer noonTimer 0,
      .onMarketData 2 (sampleTick 36000000) 36000000, .onTimer noonTimer 43200000,
      .returned noonTimer (some noonTimer),
      .clearTimer { noonTimer with nextTriggerTime := 86400000 }, .onEndDay 1 lastMs] := by
    decide +kernel
  have hset : ∀ info now, Event.setTimer info now ∈ w'.log → info = noonTimer ∧ now = 0 := by
    rw [hlog]
    simp
  have hahead : SetsAhead registered.log w'.log := by
    intro info now hmem
    obtain ⟨rfl, rfl⟩ := hset info now hmem
    decide
  have hown : KeptOwn w'.log := by
    rw [hlog]
    decide
  have hleft : ∀ c e t, registered.provider.timer c e = some t → NoOverflow t := by
    intro c e t ht
    rw [FakeTimerProvider.getNextTimer_eq_none (by decide +kernel) c e] at ht
    cases ht
  have hquiet : ∀ v, beforeEndDay (settingAtStart 43200000 true) 2 20140103 [2]
      [sampleTick 36000000] registered = some v → QuietLastSecond registered.log v.log := by
    intro v hv info now hmem hremoved k hk hlate hbefore
    have hclose := (startReplay_eq (by decide)).symm.trans hreplay
    rw [hv] at hclose
    have hgrows : v.log <+: w'.log :=
      (keptByTurns_logGrows _ v.log).closeDate hclose (List.prefix_refl _)
    obtain ⟨rfl, rfl⟩ := hset info now (hgrows.subset hmem)
    simp only [noonTimer, dayLength, lastMs] at hlate hbefore
    omega
  obtain ⟨v, hv, -, hdelivered⟩ := (day_of_quietLastSecond (run_registered _) hreplay
    (by simp) hahead hleft hown (by decide) hquiet).2 (by decide)
  exact ⟨w', hreplay, hlog, v, hv, hdelivered⟩

/-- A tick and a timer in the last second of the day: the clock goes back when the day ends,
and the timer is not delivered. -/
theorem not_allDelivered_lastSecond :
    let lateTimer : TimerInfo := ⟨0, 1, 7, 86399500, 86399500, false⟩
    ∃ w' v, startReplay (settingAtStart 86399500 false) 2 20140103 [2] [sampleTick 86399200]
        registered = some w' ∧
      beforeEndDay (settingAtStart 86399500 false) 2 20140103 [2] [sampleTick 86399200]
        registered = some v ∧
      SetsAhead registered.log w'.log ∧ KeptOwn w'.log ∧
      w'.log.filterMap clock = [0, 86399200, 86399000] ∧
      ¬ (w'.log.filterMap clock).Pairwise (· ≤ ·) ∧
      Event.setTimer lateTimer 0 ∈ v.log ∧ ¬ Removed v.log lateTimer ∧
      ¬ Delivered v.log lateTimer 0 ∧ ¬ AllDelivered v.log := by
  intro lateTimer
  let day := startReplay (settingAtStart 86399500 false) 2 20140103 [2] [sampleTick 86399200]
    registered
  let eve := beforeEndDay (settingAtStart 86399500 false) 2 20140103 [2] [sampleTick 86399200]
    registered
  let w' := day.get (by decide +kernel)
  let v := eve.get (by decide +kernel)
  have hlog : w'.log = [.onStartDay 1 0, .setTimer lateTimer 0,
      .onMarketData 2 (sampleTick 86399200) 86399200, .clearTimer lateTimer,
      .onEndDay 1 86399000] := by decide +kernel
  have hlog' : v.log = [.onStartDay 1 0, .setTimer lateTimer 0,
      .onMarketData 2 (sampleTick 86399200) 86399200] := by decide +kernel
  have hclock : w'.log.filterMap clock = [0, 86399200, 86399000] := by
    rw [hlog]
    rfl
  have hset : Event.setTimer lateTimer 0 ∈ v.log := by simp [hlog']
  have hremoved : ¬ Removed v.log lateTimer := by simp [hlog', Removed]
  have hdelivered : ¬ Delivered v.log lateTimer 0 := by simp [hlog', Delivered]
  refine ⟨w', v, (Option.some_get _).symm, (Option.some_get _).symm, ?_, ?_, hclock, ?_, hset,
    hremoved, hdelivered, fun h => hdelivered (h lateTimer 0 hset hremoved 0 (fun _ => rfl) ?_)⟩
  · rw [hlog]
    intro info now hmem
    replace hmem := List.mem_of_mem_drop hmem
    simp only [List.mem_cons, List.not_mem_nil, reduceCtorEq, Event.setTimer.injEq, false_or,
      or_false] at hmem
    obtain ⟨rfl, rfl⟩ := hmem
    decide
  · rw [hlog]
    decide
  · rw [hclock]
    decide
  · decide

end BluesTrading.DayClock
