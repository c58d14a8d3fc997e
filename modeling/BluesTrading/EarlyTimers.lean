import BluesTrading.TimerTermination

namespace BluesTrading.EarlyTimers

open BluesTrading.Foundations
open BluesTrading.TimerProvider
open BluesTrading.TimerDelivery
open BluesTrading.TimerTrace
open BluesTrading.TimerTermination

variable {σ : Type} {consumers : Consumers σ} {w w' : World σ} {t : TimerInfo} {start last : ℕ}

/-- The time at which a timer that is set at `now` goes off after it has done so `k` times. -/
def trigger (now timeInMSFromNow k : ℕ) : ℕ := (now + (k + 1) * timeInMSFromNow) % 2 ^ 32

/-- As long as the times that come before are not beyond the last target, none is before the
first clock value. -/
def StaysAhead (now timeInMSFromNow : ℕ) (isRepeat : Bool) (last : ℕ) : Prop :=
  ∀ k, (isRepeat = false → k = 0) → (∀ j < k, trigger now timeInMSFromNow j ≤ last) →
    now ≤ trigger now timeInMSFromNow k

/-- The rest of a day, with targets that do not go down and end with the last one. -/
def SameDay (last : ℕ) (w : World σ) : Action → Prop
  | .setNextTickTime _ timeInMs => w.provider.currentTime ≤ timeInMs ∧ timeInMs ≤ last
  | .endDate _ _ => w.provider.currentTime ≤ lastMs ∧ lastMs ≤ last
  | .startDate _ _ => False
  | _ => True

/-- What a world comes to on a day, with the last advance of the clock perhaps unfinished. -/
def ReachesToday (consumers : Consumers σ) (last : ℕ) (w v : World σ) : Prop :=
  ∃ begun u as timeInMs,
    (begun = w ∨ ∃ fuel date, startDate consumers fuel date w = some begun) ∧
    Run (step consumers) (SameDay last) begun as u ∧
    u.provider.currentTime ≤ timeInMs ∧ timeInMs ≤ last ∧
    LoopReaches (isDue timeInMs) (fireNext consumers) u v

/-- No timer that is set at `now` is delivered at an earlier time of the day. -/
def NeverEarly (now timeInMSFromNow : ℕ) (isRepeat : Bool) (last : ℕ) : Prop :=
  ∀ (σ : Type) (consumers : Consumers σ) (state : σ) (as : List Action) (w v : World σ),
    Run (step consumers) (fun _ _ => True) (initial state) as w →
    ReachesToday consumers last w v →
    ∀ info, Event.setTimer info now ∈ v.log → w.provider.allocated ≤ info.address →
      info.interval = timeInMSFromNow → info.isRepeat = isRepeat →
      ∀ fired seen, Event.onTimer fired seen ∈ v.log → fired.address = info.address → now ≤ seen

theorem occurrence_eq_trigger {info : TimerInfo} {now : ℕ}
    (h : info.nextTriggerTime = (info.interval + now) % 2 ^ 32) (k : ℕ) :
    occurrence info k = trigger now info.interval k := by
  rw [occurrence, h, Nat.mod_add_mod, trigger, Nat.succ_mul]
  congr 1
  omega

/-! ### Which object an event is about -/

structure Numbered (w : World σ) : Prop where
  keyed : w.provider.Keyed
  set : ∀ info now, Event.setTimer info now ∈ w.log →
    info.address < w.provider.allocated ∧ info.nextTriggerTime = (info.interval + now) % 2 ^ 32
  fired : ∀ fired seen, Event.onTimer fired seen ∈ w.log →
    fired.address < w.provider.allocated

/-- The times to which a timer comes while the clock is advanced up to the last target. -/
def Comes (last : ℕ) (info : TimerInfo) (k : ℕ) : Prop :=
  (info.isRepeat = false → k = 0) ∧ ∀ j < k, occurrence info j ≤ last

/-- The objects that were set since the start are where their delays have taken them. -/
structure OnCourse (start last : ℕ) (w : World σ) : Prop extends Numbered w where
  timer : ∀ info now, Event.setTimer info now ∈ w.log → start ≤ info.address →
    ∀ c e t, w.provider.timer c e = some t → t.address = info.address →
      ∃ k, t = advanced info k ∧ Comes last info k
  delivered : ∀ info now, Event.setTimer info now ∈ w.log → start ≤ info.address →
    ∀ fired seen, Event.onTimer fired seen ∈ w.log → fired.address = info.address →
      ∃ k, seen = occurrence info k ∧ Comes last info k

def Silent : Event → Prop
  | .setTimer _ _ | .onTimer _ _ => False
  | _ => True

theorem Numbered.frame (h : Numbered w) (hlog : ∀ event ∈ w'.log, event ∈ w.log ∨ Silent event)
    (hallocated : w.provider.allocated ≤ w'.provider.allocated) (hkeyed : w'.provider.Keyed) :
    Numbered w' where
  keyed := hkeyed
  set := by
    intro info now hmem
    obtain ⟨haddress, htime⟩ := h.set info now ((hlog _ hmem).resolve_right id)
    exact ⟨haddress.trans_le hallocated, htime⟩
  fired := fun fired seen hmem =>
    (h.fired fired seen ((hlog _ hmem).resolve_right id)).trans_le hallocated

/-- Nothing happens to a timer but that it may be taken out of the table. -/
theorem OnCourse.frame (h : OnCourse start last w)
    (hlog : ∀ event ∈ w'.log, event ∈ w.log ∨ Silent event)
    (hallocated : w.provider.allocated ≤ w'.provider.allocated) (hkeyed : w'.provider.Keyed)
    (htimer : ∀ c e t, w'.provider.timer c e = some t → w.provider.timer c e = some t) :
    OnCourse start last w' where
  toNumbered := h.toNumbered.frame hlog hallocated hkeyed
  timer := fun info now hmem hstart c e t ht =>
    h.timer info now ((hlog _ hmem).resolve_right id) hstart c e t (htimer c e t ht)
  delivered := fun info now hmem hstart fired seen hfired =>
    h.delivered info now ((hlog _ hmem).resolve_right id) hstart fired seen
      ((hlog _ hfired).resolve_right id)

theorem mem_or_silent {log events : List Event} (hsilent : ∀ event ∈ events, Silent event) :
    ∀ event ∈ log ++ events, event ∈ log ∨ Silent event :=
  fun event hmem => (List.mem_append.mp hmem).imp_right (hsilent event)

theorem silent_cancelTimer (w : World σ) (c e : ℕ) :
    ∀ event ∈ (w.provider.timer c e).toList.map Event.cancelTimer, Silent event := by
  intro event hmem
  obtain ⟨info, -, rfl⟩ := List.mem_map.mp hmem
  trivial

theorem silent_clearTimers (w : World σ) (c : ℕ) :
    ∀ event ∈ (w.provider.timersOf c).values.map Event.clearTimer, Silent event := by
  intro event hmem
  obtain ⟨info, -, rfl⟩ := List.mem_map.mp hmem
  trivial

theorem OnCourse.record (h : OnCourse start last w) {events : List Event}
    (hsilent : ∀ event ∈ events, Silent event) : OnCourse start last (w.record events) :=
  h.frame (mem_or_silent hsilent) le_rfl h.keyed fun _ _ _ ht => ht

theorem OnCourse.clearTimers (h : OnCourse start last w) (c : ℕ) :
    OnCourse start last (w.clearTimers c) := by
  refine h.frame (mem_or_silent (silent_clearTimers w c)) le_rfl
    (h.keyed.registerTimerConsumer c) fun c' e t ht => ?_
  replace ht : (w.provider.registerTimerConsumer c).timer c' e = some t := ht
  rw [FakeTimerProvider.timer_registerTimerConsumer] at ht
  split_ifs at ht
  exact ht

theorem Numbered.setTimer (h : Numbered w) (c e timeInMSFromNow : ℕ) (isRepeat : Bool) :
    Numbered (w.setTimer c e timeInMSFromNow isRepeat).2 := by
  have hkeyed := h.keyed.setTimer c e timeInMSFromNow isRepeat
  have hallocated : (w.setTimer c e timeInMSFromNow isRepeat).2.provider.allocated =
      w.provider.allocated + 1 := w.provider.allocated_setTimer c e timeInMSFromNow isRepeat
  rcases setTimer_cases w c e timeInMSFromNow isRepeat with ⟨hlog, -⟩ | ⟨-, hlog, -⟩
  · refine h.frame (fun event hmem => .inl (hlog ▸ hmem)) ?_ hkeyed
    omega
  · refine ⟨hkeyed, fun info now hmem => ?_, fun fired seen hmem => ?_⟩
    · rw [hlog] at hmem
      rw [hallocated]
      rcases List.mem_append.mp hmem with hmem | hmem
      · obtain ⟨haddress, htime⟩ := h.set info now hmem
        exact ⟨haddress.trans (Nat.lt_succ_self _), htime⟩
      · obtain ⟨rfl, rfl⟩ := Event.setTimer.inj (List.mem_singleton.mp hmem)
        refine ⟨Nat.lt_succ_self _, ?_⟩
        simp only [FakeTimerProvider.newTimer, Nat.mod_add_mod]
    · rw [hlog] at hmem
      rw [hallocated]
      rcases List.mem_append.mp hmem with hmem | hmem
      · exact (h.fired fired seen hmem).trans (Nat.lt_succ_self _)
      · cases List.mem_singleton.mp hmem

theorem keptByCalls_numbered : KeptByCalls (σ := σ) Numbered where
  setTimer := fun _ c e timeInMSFromNow isRepeat h => h.setTimer c e timeInMSFromNow isRepeat
  cancelTimer := fun w c e h =>
    h.frame (mem_or_silent (silent_cancelTimer w c e)) le_rfl (h.keyed.cancelTimer c e)
  state := fun _ _ h => h.frame (fun _ hmem => .inl hmem) le_rfl h.keyed

theorem OnCourse.setTimer (h : OnCourse start last w) (c e timeInMSFromNow : ℕ)
    (isRepeat : Bool) : OnCourse start last (w.setTimer c e timeInMSFromNow isRepeat).2 := by
  have hnumbered := h.toNumbered.setTimer c e timeInMSFromNow isRepeat
  rcases setTimer_cases w c e timeInMSFromNow isRepeat with ⟨hlog, htimer⟩ | ⟨-, hlog, htimer⟩
  · refine h.frame (fun event hmem => .inl (hlog ▸ hmem)) ?_ hnumbered.keyed fun c' e' t ht => ?_
    · exact (Nat.le_succ _).trans_eq
        (w.provider.allocated_setTimer c e timeInMSFromNow isRepeat).symm
    · exact (htimer c' e').symm.trans ht
  · set new := w.provider.newTimer c e timeInMSFromNow isRepeat with hnew
    refine ⟨hnumbered, fun info now hmem hstart c' e' t ht haddress => ?_,
      fun info now hmem hstart fired seen hfired haddress => ?_⟩
    · rw [hlog] at hmem
      rw [htimer] at ht
      rcases List.mem_append.mp hmem with hmem | hmem
      · split_ifs at ht
        · obtain rfl := Option.some.inj ht
          exact absurd haddress ((h.set info now hmem).1.ne')
        · exact h.timer info now hmem hstart c' e' t ht haddress
      · obtain ⟨rfl, -⟩ := Event.setTimer.inj (List.mem_singleton.mp hmem)
        split_ifs at ht
        · obtain rfl := Option.some.inj ht
          refine ⟨0, ?_, fun _ => rfl, fun j hj => absurd hj j.not_lt_zero⟩
          rw [advanced, occurrence_zero (Nat.mod_lt _ (by decide))]
        · exact absurd haddress (h.keyed c' e' t ht).2.2.ne
    · rw [hlog] at hmem hfired
      replace hfired : Event.onTimer fired seen ∈ w.log :=
        (List.mem_append.mp hfired).resolve_right (by simp)
      rcases List.mem_append.mp hmem with hmem | hmem
      · exact h.delivered info now hmem hstart fired seen hfired haddress
      · obtain ⟨rfl, -⟩ := Event.setTimer.inj (List.mem_singleton.mp hmem)
        exact absurd haddress (h.fired fired seen hfired).ne

theorem keptByCalls_onCourse (start last : ℕ) : KeptByCalls (σ := σ) (OnCourse start last) where
  setTimer := fun _ c e timeInMSFromNow isRepeat h => h.setTimer c e timeInMSFromNow isRepeat
  cancelTimer := fun w c e h => h.frame (mem_or_silent (silent_cancelTimer w c e)) le_rfl
    (h.keyed.cancelTimer c e) fun _ _ _ ht => timer_of_cancelTimer w ht
  state := fun _ _ h =>
    h.frame (fun _ hmem => .inl hmem) le_rfl h.keyed fun _ _ _ ht => ht

/-! ### A turn of the loop -/

theorem Numbered.recordOnTimer (h : Numbered w) (ht : ∃ c e, w.provider.timer c e = some t) :
    Numbered ((w.setCurrentTime t.nextTriggerTime).record [.onTimer t t.nextTriggerTime]) := by
  obtain ⟨c, e, ht⟩ := ht
  refine ⟨h.keyed, fun info now hmem => ?_, fun fired seen hfired => ?_⟩
  · exact h.set info now ((List.mem_append.mp hmem).resolve_right (by simp))
  · rcases List.mem_append.mp hfired with hfired | hfired
    · exact h.fired fired seen hfired
    · obtain ⟨rfl, -⟩ := Event.onTimer.inj (List.mem_singleton.mp hfired)
      exact (h.keyed c e fired ht).2.2

theorem Numbered.fireTimer_of_callOnTimer (h : Numbered (callOnTimer consumers w t)) :
    Numbered (fireTimer consumers w t) := by
  refine h.frame ?_ (allocated_fireTimer consumers w t).ge ?_
  · rw [log_fireTimer]
    exact mem_or_silent (by simp [Silent])
  · rw [fireTimer]
    split_ifs
    · exact h.keyed.reschedule t
    · exact h.keyed.cancelTimer t.consumer t.eventid

theorem keptBySteps_numbered (consumers : Consumers σ) : KeptBySteps consumers Numbered where
  toKeptByCalls := keptByCalls_numbered
  clock := fun _ _ _ h => h.frame (fun _ hmem => .inl hmem) le_rfl h.keyed
  call := fun _ event hcall h => by
    refine h.frame (mem_or_silent ?_) le_rfl h.keyed
    cases event <;> simp_all [IsCall, Silent]
  clearTimers := fun w c h => h.frame (mem_or_silent (silent_clearTimers w c)) le_rfl
    (h.keyed.registerTimerConsumer c)
  fireTimer := fun _ _ hnext h => Numbered.fireTimer_of_callOnTimer
    (keptByCalls_numbered.react _ (h.recordOnTimer (FakeTimerProvider.getNextTimer_spec hnext).1))

theorem OnCourse.callOnTimer (h : OnCourse start last w)
    (ht : ∃ c e, w.provider.timer c e = some t) :
    OnCourse start last (callOnTimer consumers w t) := by
  refine (keptByCalls_onCourse start last).react _ ⟨h.toNumbered.recordOnTimer ht,
    fun info now hmem => ?_, fun info now hmem hstart fired seen hfired haddress => ?_⟩
  · exact h.timer info now ((List.mem_append.mp hmem).resolve_right (by simp))
  · replace hmem := (List.mem_append.mp hmem).resolve_right (by simp)
    rcases List.mem_append.mp hfired with hfired | hfired
    · exact h.delivered info now hmem hstart fired seen hfired haddress
    · obtain ⟨rfl, rfl⟩ := Event.onTimer.inj (List.mem_singleton.mp hfired)
      obtain ⟨c, e, ht⟩ := ht
      obtain ⟨k, rfl, hk⟩ := h.timer info now hmem hstart c e fired ht haddress
      exact ⟨k, rfl, hk⟩

theorem Comes.succ {info : TimerInfo} {k : ℕ} (h : Comes last info k)
    (hrepeat : info.isRepeat = true) (hle : occurrence info k ≤ last) :
    Comes last info (k + 1) := by
  refine ⟨fun honce => absurd (hrepeat.symm.trans honce) (by decide), fun j hj => ?_⟩
  rcases Nat.lt_succ_iff_lt_or_eq.mp hj with hj | rfl
  · exact h.2 j hj
  · exact hle

theorem OnCourse.fireTimer (h : OnCourse start last w)
    (ht : ∃ c e, w.provider.timer c e = some t) (hle : t.nextTriggerTime ≤ last) :
    OnCourse start last (fireTimer consumers w t) := by
  have hcalled : OnCourse start last (TimerProvider.callOnTimer consumers w t) :=
    h.callOnTimer ht
  have hlog : ∀ event ∈ (TimerProvider.fireTimer consumers w t).log,
      event ∈ (TimerProvider.callOnTimer consumers w t).log ∨ Silent event := by
    rw [log_fireTimer]
    exact mem_or_silent (by simp [Silent])
  refine ⟨hcalled.toNumbered.fireTimer_of_callOnTimer,
    fun info now hmem hstart c e t' ht' haddress => ?_,
    fun info now hmem hstart fired seen hfired haddress => ?_⟩
  · replace hmem := (hlog _ hmem).resolve_right id
    rcases timer_of_fireTimer consumers ht' with ht' | ⟨hrepeat, ⟨rfl, rfl⟩, old, hold, hsame, rfl⟩
    · exact hcalled.timer info now hmem hstart c e t' ht' haddress
    · obtain rfl : old = t := eq_of_callOnTimer consumers h.keyed ht hold hsame
      obtain ⟨k, rfl, hk⟩ := hcalled.timer info now hmem hstart _ _ old hold haddress
      exact ⟨k + 1, advanced_succ info k, hk.succ hrepeat hle⟩
  · exact hcalled.delivered info now ((hlog _ hmem).resolve_right id) hstart fired seen
      ((hlog _ hfired).resolve_right id) haddress

/-! ### A day -/

theorem OnCourse.setClock (h : OnCourse start last w) (date time : ℕ) :
    OnCourse start last
      { w with provider := { w.provider with currentDate := date, currentTime := time } } :=
  h.frame (fun _ hmem => .inl hmem) le_rfl h.keyed fun _ _ _ ht => ht

theorem OnCourse.startDate (h : OnCourse start last w) {fuel date : ℕ}
    (hstart : startDate consumers fuel date w = some w') : OnCourse start last w' :=
  forEachConsumer_invariant
    (fun _ _ hv => (keptByCalls_onCourse start last).react _ (hv.record (by simp [Silent])))
    hstart (h.setClock date 0)

theorem OnCourse.closeDate (h : OnCourse start last w) {fuel : ℕ}
    (hclose : closeDate consumers fuel w = some w') : OnCourse start last w' :=
  forEachConsumer_invariant
    (fun _ c hv => (keptByCalls_onCourse start last).react _
      ((hv.clearTimers c).record (by simp [Silent]))) hclose h

theorem OnCourse.advanceToTime (h : OnCourse start last w) {fuel timeInMs : ℕ}
    (hle : timeInMs ≤ last) (hadvance : advanceToTime consumers fuel timeInMs w = some w') :
    OnCourse start last w' := by
  obtain ⟨v, rfl, hv, -⟩ := advanceToTime_invariant
    (fun v t ht hdue hv => OnCourse.fireTimer hv (FakeTimerProvider.getNextTimer_spec ht).1
      (hdue.trans hle)) hadvance h
  exact hv.setClock v.provider.currentDate timeInMs

theorem OnCourse.step (h : OnCourse start last w) {a : Action} (hday : SameDay last w a)
    (htake : step consumers w a = some w') : OnCourse start last w' := by
  cases a with
  | registerTimerConsumer consumer =>
      obtain rfl := Option.some.inj htake
      exact h.clearTimers consumer
  | setTimer consumer eventID timeInMSFromNow isRepeat =>
      obtain rfl := Option.some.inj htake
      exact h.setTimer consumer eventID timeInMSFromNow isRepeat
  | cancelTimer consumer eventID =>
      obtain rfl := Option.some.inj htake
      exact (keptByCalls_onCourse start last).cancelTimer w consumer eventID h
  | setNextTickTime fuel timeInMs => exact h.advanceToTime hday.2 htake
  | startDate fuel date => exact hday.elim
  | endDate fuel date =>
      simp only [TimerDelivery.step, endDate] at htake
      split_ifs at htake with hdate
      · obtain ⟨v, hv, hclose⟩ := Option.bind_eq_some_iff.mp htake
        exact (h.advanceToTime hday.2 hv).closeDate hclose
      · exact Option.some.inj htake ▸ h
  | onMarketData consumer data =>
      obtain rfl := Option.some.inj htake
      exact (keptByCalls_onCourse start last).react _ (h.record (by simp [Silent]))

theorem OnCourse.reachesToday {v : World σ} (h : OnCourse start last w)
    (hreach : ReachesToday consumers last w v) : OnCourse start last v := by
  obtain ⟨begun, u, as, timeInMs, hbegun, hday, -, hle, hloop⟩ := hreach
  have hstart : OnCourse start last begun := by
    rcases hbegun with rfl | ⟨fuel, date, hdate⟩
    · exact h
    · exact h.startDate hdate
  have hu : OnCourse start last u :=
    hday.invariant (fun _ _ _ hpermit htake hs => hs.step hpermit htake) hstart
  refine hloop.invariant (fun s hdue hs => ?_) hu
  obtain ⟨t, hnext, hdue, hfire⟩ := fireNext_of_isDue consumers hdue
  exact hfire ▸ hs.fireTimer (FakeTimerProvider.getNextTimer_spec hnext).1 (hdue.trans hle)

theorem numbered_of_run {state : σ} {as : List Action}
    (hrun : Run (step consumers) (fun _ _ => True) (initial state) as w) : Numbered w :=
  hrun.invariant (fun _ _ _ _ htake => (keptBySteps_numbered consumers).step htake)
    ⟨FakeTimerProvider.keyed_create, by simp [initial], by simp [initial]⟩

theorem Numbered.onCourse (h : Numbered w) (last : ℕ) :
    OnCourse w.provider.allocated last w where
  toNumbered := h
  timer := fun info now hmem hstart => absurd (h.set info now hmem).1 (not_lt.mpr hstart)
  delivered := fun info now hmem hstart => absurd (h.set info now hmem).1 (not_lt.mpr hstart)

theorem StaysAhead.neverEarly {now timeInMSFromNow : ℕ} {isRepeat : Bool}
    (h : StaysAhead now timeInMSFromNow isRepeat last) :
    NeverEarly now timeInMSFromNow isRepeat last := by
  rintro σ consumers state as w v hrun hreach info hset hstart rfl rfl fired seen hfired haddress
  have hv : OnCourse w.provider.allocated last v :=
    ((numbered_of_run hrun).onCourse last).reachesToday hreach
  have htrigger := occurrence_eq_trigger (hv.set info now hset).2
  obtain ⟨k, rfl, honce, hearlier⟩ := hv.delivered info now hset hstart fired seen hfired haddress
  rw [htrigger]
  exact h k honce fun j hj => (htrigger j).symm.trans_le (hearlier j hj)

/-! ### A day with a single timer -/

theorem getNextTimer_of_single {p : FakeTimerProvider}
    (h : ∀ c e, p.timer c e = if c = t.consumer ∧ e = t.eventid then some t else none) :
    p.getNextTimer = some t := by
  cases hnext : p.getNextTimer with
  | none =>
      have ht := h t.consumer t.eventid
      rw [FakeTimerProvider.getNextTimer_eq_none hnext, if_pos ⟨rfl, rfl⟩] at ht
      cases ht
  | some first =>
      obtain ⟨⟨c, e, hfirst⟩, -⟩ := FakeTimerProvider.getNextTimer_spec hnext
      rw [h] at hfirst
      split_ifs at hfirst
      exact hfirst.symm

theorem turn_of_single (consumers : Consumers σ)
    (h : ∀ c e, w.provider.timer c e = if c = t.consumer ∧ e = t.eventid then some t else none)
    (hle : t.nextTriggerTime ≤ last) :
    isDue last w = true ∧ fireNext consumers w = fireTimer consumers w t := by
  rw [isDue, fireNext, getNextTimer_of_single h]
  exact ⟨decide_eq_true hle, rfl⟩

/-- A timer that is alone comes to all its times up to the first that is beyond the target. -/
theorem exists_loopReaches (hidle : Idle consumers) {info : TimerInfo}
    (hkeyed : w.provider.Keyed) (hfits : info.nextTriggerTime < 2 ^ 32)
    (hsingle : ∀ c e, w.provider.timer c e =
      if c = info.consumer ∧ e = info.eventid then some info else none) {k : ℕ}
    (hk : Comes last info k) :
    ∃ v, LoopReaches (isDue last) (fireNext consumers) w v ∧ w.log <+: v.log ∧
      v.provider.Keyed ∧ ∀ c e, v.provider.timer c e =
        if c = info.consumer ∧ e = info.eventid then some (advanced info k) else none := by
  induction k with
  | zero =>
      refine ⟨w, .start, List.prefix_refl _, hkeyed, ?_⟩
      rwa [advanced, occurrence_zero hfits]
  | succ k ih =>
      have hrepeat : info.isRepeat = true := by
        by_contra honce
        exact k.succ_ne_zero (hk.1 (by simpa using honce))
      have hbefore : Comes last info k :=
        ⟨fun honce => absurd (hrepeat.symm.trans honce) (by decide),
          fun j hj => hk.2 j (hj.trans (Nat.lt_succ_self k))⟩
      obtain ⟨v, hreach, hlog, hkeyed, hv⟩ := ih hbefore
      have hnext := getNextTimer_of_single (t := advanced info k) hv
      obtain ⟨hdue, hfire⟩ := turn_of_single consumers (t := advanced info k) hv
        (hk.2 k (Nat.lt_succ_self k))
      refine ⟨_, hreach.turn hdue, ?_, ?_, ?_⟩ <;> rw [hfire]
      · exact hlog.trans (prefix_fireTimer consumers v _)
      · exact (keptBySteps_keyed consumers).fireTimer v _ hnext hkeyed
      · intro c e
        rw [timer_fireTimer_wrapped hidle hkeyed hnext, hv]
        by_cases hkey : c = info.consumer ∧ e = info.eventid
        · have hnew : advanced (advanced info k) 1 = advanced info (k + 1) := by
            rw [advanced, occurrence_advanced]
            rfl
          exact (if_pos hkey).trans ((if_pos hrepeat).trans (hnew ▸ (if_pos hkey).symm))
        · exact (if_neg hkey).trans ((if_neg hkey).trans (if_neg hkey).symm)

theorem exists_loopReaches_delivered (hidle : Idle consumers) {info : TimerInfo}
    (hkeyed : w.provider.Keyed) (hfits : info.nextTriggerTime < 2 ^ 32)
    (hsingle : ∀ c e, w.provider.timer c e =
      if c = info.consumer ∧ e = info.eventid then some info else none) {k : ℕ}
    (hk : Comes last info k) (hle : occurrence info k ≤ last) :
    ∃ v, LoopReaches (isDue last) (fireNext consumers) w v ∧ w.log <+: v.log ∧
      Event.onTimer (advanced info k) (occurrence info k) ∈ v.log := by
  obtain ⟨v, hreach, hlog, -, hv⟩ := exists_loopReaches hidle hkeyed hfits hsingle hk
  obtain ⟨hdue, hfire⟩ := turn_of_single consumers (t := advanced info k) hv hle
  refine ⟨_, hreach.turn hdue, ?_, ?_⟩ <;> rw [hfire]
  · exact hlog.trans (prefix_fireTimer consumers v _)
  · rw [log_fireTimer]
    exact List.mem_append_left _ (mem_log_callOnTimer consumers v (advanced info k))

theorem staysAhead_of_neverEarly {now timeInMSFromNow : ℕ} {isRepeat : Bool} (hle : now ≤ last)
    (hdelay : timeInMSFromNow < 2 ^ 32) (h : NeverEarly now timeInMSFromNow isRepeat last) :
    StaysAhead now timeInMSFromNow isRepeat last := by
  intro k honce hearlier
  rcases Nat.lt_or_ge last (trigger now timeInMSFromNow k) with hlate | hdue
  · exact hle.trans hlate.le
  let w := (initial ()).setCurrentTime now
  let info := w.provider.newTimer 1 7 timeInMSFromNow isRepeat
  let u := (w.setTimer 1 7 timeInMSFromNow isRepeat).2
  have hrun : Run (step idle) (fun _ _ => True) (initial ()) [.setNextTickTime 1 now] w :=
    .cons trivial rfl (.nil _)
  have hday : Run (step idle) (SameDay last) w [.setTimer 1 7 timeInMSFromNow isRepeat] u :=
    .cons trivial rfl (.nil _)
  have hlog : u.log = [.setTimer info now] := rfl
  have hsingle : ∀ c e, u.provider.timer c e =
      if c = info.consumer ∧ e = info.eventid then some info else none := by
    intro c e
    refine (w.provider.timer_setTimer 1 7 timeInMSFromNow isRepeat c e).trans ?_
    rfl
  have hinterval : info.interval = timeInMSFromNow := Nat.mod_eq_of_lt hdelay
  have htrigger : ∀ j, occurrence info j = trigger now timeInMSFromNow j := by
    intro j
    have htime : info.nextTriggerTime = (info.interval + now) % 2 ^ 32 := by
      rw [hinterval]
      rfl
    rw [occurrence_eq_trigger htime, hinterval]
  have hk : Comes last info k := ⟨honce, fun j hj => (htrigger j).trans_le (hearlier j hj)⟩
  have hkeyed : u.provider.Keyed :=
    (show w.provider.Keyed from FakeTimerProvider.keyed_create).setTimer 1 7 timeInMSFromNow
      isRepeat
  obtain ⟨v, hreach, hgrow, hfired⟩ := exists_loopReaches_delivered idle_idle hkeyed
    (Nat.mod_lt _ (by decide)) hsingle hk ((htrigger k).trans_le hdue)
  have hseen := h Unit idle () _ w v hrun ⟨w, u, _, last, .inl rfl, hday, hle, le_rfl, hreach⟩
    info (hgrow.subset (hlog ▸ List.mem_singleton_self _)) (Nat.zero_le _) hinterval rfl _ _
    hfired rfl
  rwa [htrigger] at hseen

/-! ### When a timer stays ahead -/

section Ahead

variable {now timeInMSFromNow : ℕ} {isRepeat : Bool}

theorem trigger_zero (now timeInMSFromNow : ℕ) :
    trigger now timeInMSFromNow 0 = (now + timeInMSFromNow) % 2 ^ 32 := by
  rw [trigger, Nat.zero_add, Nat.one_mul]

theorem StaysAhead.first_fits (h : StaysAhead now timeInMSFromNow isRepeat last)
    (hdelay : timeInMSFromNow < 2 ^ 32) : now + timeInMSFromNow < 2 ^ 32 := by
  have hfirst := h 0 (fun _ => rfl) fun j hj => absurd hj j.not_lt_zero
  rw [trigger_zero] at hfirst
  omega

theorem trigger_fits (hlast : last < 2 ^ 31) (hfirst : now + timeInMSFromNow < 2 ^ 32) {k : ℕ}
    (hearlier : ∀ j < k, trigger now timeInMSFromNow j ≤ last) :
    now + (k + 1) * timeInMSFromNow < 2 ^ 32 := by
  induction k with
  | zero => rwa [Nat.zero_add, Nat.one_mul]
  | succ k ih =>
      have hbefore := ih fun j hj => hearlier j (hj.trans (Nat.lt_succ_self k))
      have hle := hearlier k (Nat.lt_succ_self k)
      rw [trigger, Nat.mod_eq_of_lt hbefore] at hle
      rw [Nat.succ_mul] at hbefore hle ⊢
      rw [Nat.succ_mul]
      omega

theorem staysAhead_iff (hdelay : timeInMSFromNow < 2 ^ 32)
    (hkind : isRepeat = false ∨ last < 2 ^ 31) :
    StaysAhead now timeInMSFromNow isRepeat last ↔ now + timeInMSFromNow < 2 ^ 32 := by
  refine ⟨fun h => h.first_fits hdelay, fun hfirst k honce hearlier => ?_⟩
  have hfits : now + (k + 1) * timeInMSFromNow < 2 ^ 32 := by
    rcases hkind with hkind | hlast
    · rwa [honce hkind, Nat.zero_add, Nat.one_mul]
    · exact trigger_fits hlast hfirst hearlier
  rw [trigger, Nat.mod_eq_of_lt hfits]
  exact Nat.le_add_right now _

/-- A timer is never delivered at an earlier time than the one at which it was set just if it
stays ahead; for one that goes off once, and on a day of less than `2 ^ 31` milliseconds, just if
its first time does not wrap. -/
theorem neverEarly_iff (hle : now ≤ last) (hdelay : timeInMSFromNow < 2 ^ 32) :
    (NeverEarly now timeInMSFromNow isRepeat last ↔
        StaysAhead now timeInMSFromNow isRepeat last) ∧
      (isRepeat = false ∨ last < 2 ^ 31 →
        (NeverEarly now timeInMSFromNow isRepeat last ↔ now + timeInMSFromNow < 2 ^ 32)) := by
  have hiff : NeverEarly now timeInMSFromNow isRepeat last ↔
      StaysAhead now timeInMSFromNow isRepeat last :=
    ⟨staysAhead_of_neverEarly hle hdelay, StaysAhead.neverEarly⟩
  exact ⟨hiff, fun hkind => hiff.trans (staysAhead_iff hdelay hkind)⟩

theorem neverEarly_iff_minutes : NeverEarly 36000000 60000 true lastMs :=
  ((@neverEarly_iff lastMs 36000000 60000 true (by decide) (by decide)).2
    (.inr (by decide))).mpr (by decide)

/-- At ten o'clock, the delay up to half past nine. -/
theorem not_neverEarly_passed :
    ¬ NeverEarly 36000000 ((34200000 + (2 ^ 32 - 36000000)) % 2 ^ 32) false lastMs := by
  intro h
  have hfirst := (staysAhead_of_neverEarly (by decide) (by decide) h).first_fits (by decide)
  exact absurd hfirst (by decide)

end Ahead

end BluesTrading.EarlyTimers
