import BluesTrading.Foundations.Runs
import BluesTrading.TimerProvider

namespace BluesTrading.TimerDelivery

open BluesTrading.Foundations
open BluesTrading.OrderData
open BluesTrading.TimerProvider

variable {σ : Type}

/-! ### The log only grows -/

section Log

variable (w : World σ)

@[simp] theorem log_record (events : List Event) : (w.record events).log = w.log ++ events := rfl

theorem log_setTimer (c e timeInMSFromNow : ℕ) (isRepeat : Bool) :
    (w.setTimer c e timeInMSFromNow isRepeat).2.log = w.log ++
      if (w.provider.timer c e).isNone then
        [.setTimer (w.provider.newTimer c e timeInMSFromNow isRepeat) w.provider.currentTime]
      else [] := by
  rw [← FakeTimerProvider.setTimer_fst w.provider c e timeInMSFromNow isRepeat]
  rfl

theorem prefix_setTimer (c e timeInMSFromNow : ℕ) (isRepeat : Bool) :
    w.log <+: (w.setTimer c e timeInMSFromNow isRepeat).2.log :=
  List.prefix_append _ _

theorem prefix_cancelTimer (c e : ℕ) : w.log <+: (w.cancelTimer c e).2.log :=
  List.prefix_append _ _

theorem prefix_clearTimers (c : ℕ) : w.log <+: (w.clearTimers c).log := List.prefix_append _ _

theorem setTimer_cases (c e timeInMSFromNow : ℕ) (isRepeat : Bool) :
    ((w.setTimer c e timeInMSFromNow isRepeat).2.log = w.log ∧
      ∀ c' e', (w.setTimer c e timeInMSFromNow isRepeat).2.provider.timer c' e' =
        w.provider.timer c' e') ∨
    (w.provider.timer c e = none ∧
      (w.setTimer c e timeInMSFromNow isRepeat).2.log = w.log ++
        [.setTimer (w.provider.newTimer c e timeInMSFromNow isRepeat) w.provider.currentTime] ∧
      ∀ c' e', (w.setTimer c e timeInMSFromNow isRepeat).2.provider.timer c' e' =
        if c' = c ∧ e' = e then some (w.provider.newTimer c e timeInMSFromNow isRepeat)
        else w.provider.timer c' e') := by
  have hlog := log_setTimer w c e timeInMSFromNow isRepeat
  have htimer : ∀ c' e', (w.setTimer c e timeInMSFromNow isRepeat).2.provider.timer c' e' = _ :=
    w.provider.timer_setTimer c e timeInMSFromNow isRepeat
  cases hfound : w.provider.timer c e with
  | some old =>
      refine .inl ⟨by simpa [hfound] using hlog, fun c' e' => ?_⟩
      rw [htimer]
      split_ifs with hkey
      · rw [hkey.1, hkey.2, hfound]
        rfl
      · rfl
  | none =>
      refine .inr ⟨rfl, by simpa [hfound] using hlog, fun c' e' => ?_⟩
      rw [htimer]
      split_ifs with hkey
      · rw [hkey.1, hkey.2, hfound]
        rfl
      · rfl

theorem timer_setTimer_cases {c e timeInMSFromNow : ℕ} {isRepeat : Bool} {c' e' : ℕ}
    {t : TimerInfo}
    (ht : (w.setTimer c e timeInMSFromNow isRepeat).2.provider.timer c' e' = some t) :
    w.provider.timer c' e' = some t ∨
      t = w.provider.newTimer c e timeInMSFromNow isRepeat ∧
        (w.setTimer c e timeInMSFromNow isRepeat).2.log =
          w.log ++ [.setTimer t w.provider.currentTime] := by
  rcases setTimer_cases w c e timeInMSFromNow isRepeat with ⟨-, htimer⟩ | ⟨-, hlog, htimer⟩
  · exact .inl ((htimer c' e').symm.trans ht)
  · rw [htimer] at ht
    split_ifs at ht
    · obtain rfl := Option.some.inj ht
      exact .inr ⟨rfl, hlog⟩
    · exact .inl ht

theorem timer_of_cancelTimer {c e c' e' : ℕ} {t : TimerInfo}
    (ht : (w.cancelTimer c e).2.provider.timer c' e' = some t) :
    w.provider.timer c' e' = some t := by
  replace ht : (w.provider.cancelTimer c e).2.timer c' e' = some t := ht
  rw [FakeTimerProvider.timer_cancelTimer] at ht
  split_ifs at ht
  exact ht

end Log

/-! ### Invariants of the callbacks and loops -/

section Invariants

variable {I : World σ → Prop} {w w' : World σ} {consumers : Consumers σ} {fuel timeInMs : ℕ}

/-- What the calls of a callback may not break. -/
structure KeptByCalls (I : World σ → Prop) : Prop where
  setTimer : ∀ w c e timeInMSFromNow isRepeat, I w → I (w.setTimer c e timeInMSFromNow isRepeat).2
  cancelTimer : ∀ w c e, I w → I (w.cancelTimer c e).2
  state : ∀ (w : World σ) state, I w → I { w with state := state }

theorem KeptByCalls.react (hI : KeptByCalls I) (reaction : Reaction σ) (hw : I w) :
    I (w.react reaction) := by
  induction reaction generalizing w with
  | done state => exact hI.state w state hw
  | setTimer c e timeInMSFromNow isRepeat next ih =>
      exact ih _ (hI.setTimer w c e timeInMSFromNow isRepeat hw)
  | cancelTimer c e next ih => exact ih _ (hI.cancelTimer w c e hw)

theorem forEachConsumer_invariant {body : World σ → ℕ → World σ}
    (hbody : ∀ w consumer, I w → I (body w consumer))
    (h : forEachConsumer body fuel w = some w') (hw : I w) : I w' := by
  obtain ⟨⟨v, last⟩, hloop, rfl⟩ := Option.map_eq_some_iff.mp h
  refine (whileLoop_invariant (I := fun s => I s.1) ?_ hloop hw).1
  rintro ⟨w, after⟩ - hw
  dsimp only
  split
  · exact hw
  · exact hbody w _ hw

theorem fireNext_of_isDue (consumers : Consumers σ) (hdue : isDue timeInMs w = true) :
    ∃ t, w.provider.getNextTimer = some t ∧ t.nextTriggerTime ≤ timeInMs ∧
      fireNext consumers w = fireTimer consumers w t := by
  unfold isDue at hdue
  unfold fireNext
  cases hnext : w.provider.getNextTimer with
  | none =>
      rw [hnext] at hdue
      cases hdue
  | some t =>
      rw [hnext] at hdue
      exact ⟨t, rfl, of_decide_eq_true hdue, rfl⟩

theorem isDue_of_timer {c e : ℕ} {t : TimerInfo} (ht : w.provider.timer c e = some t)
    (hle : t.nextTriggerTime ≤ timeInMs) : isDue timeInMs w = true := by
  unfold isDue
  cases hnext : w.provider.getNextTimer with
  | none =>
      rw [FakeTimerProvider.getNextTimer_eq_none hnext] at ht
      cases ht
  | some first =>
      exact decide_eq_true (((FakeTimerProvider.getNextTimer_spec hnext).2 c e t ht).trans hle)

theorem advanceToTime_invariant
    (hfire : ∀ w t, w.provider.getNextTimer = some t → t.nextTriggerTime ≤ timeInMs → I w →
      I (fireTimer consumers w t))
    (h : advanceToTime consumers fuel timeInMs w = some w') (hw : I w) :
    ∃ v, w' = v.setCurrentTime timeInMs ∧ I v ∧
      ∀ c e t, v.provider.timer c e = some t → timeInMs < t.nextTriggerTime := by
  obtain ⟨v, hloop, rfl⟩ := Option.map_eq_some_iff.mp h
  have hturn : ∀ w, isDue timeInMs w = true → I w → I (fireNext consumers w) := by
    intro w hdue hw
    obtain ⟨t, hnext, hle, hturn⟩ := fireNext_of_isDue consumers hdue
    rw [hturn]
    exact hfire w t hnext hle hw
  obtain ⟨hv, hidle⟩ := whileLoop_invariant hturn hloop hw
  refine ⟨v, rfl, hv, fun c e t ht => ?_⟩
  by_contra hle
  rw [isDue_of_timer ht (not_lt.mp hle)] at hidle
  cases hidle

end Invariants

/-! ### What a callback does to the table -/

/-- The objects of the table that were there before are where they were. -/
structure Unmoved (w w' : World σ) : Prop where
  log : w.log <+: w'.log
  allocated : w.provider.allocated ≤ w'.provider.allocated
  timer : ∀ c e t, w'.provider.timer c e = some t →
    w.provider.timer c e = some t ∨ w.provider.allocated ≤ t.address

theorem Unmoved.refl (w : World σ) : Unmoved w w := ⟨List.prefix_refl _, le_rfl, fun _ _ _ => .inl⟩

theorem keptByCalls_unmoved (w : World σ) : KeptByCalls (Unmoved w) where
  setTimer := by
    intro v c e timeInMSFromNow isRepeat h
    refine ⟨h.log.trans (prefix_setTimer v c e timeInMSFromNow isRepeat), ?_, ?_⟩
    · exact h.allocated.trans ((Nat.le_succ _).trans_eq
        (v.provider.allocated_setTimer c e timeInMSFromNow isRepeat).symm)
    · intro c' e' t ht
      rcases timer_setTimer_cases v ht with ht | ⟨rfl, -⟩
      · exact h.timer c' e' t ht
      · exact .inr h.allocated
  cancelTimer := by
    intro v c e h
    refine ⟨h.log.trans (prefix_cancelTimer v c e), h.allocated, fun c' e' t ht => ?_⟩
    exact h.timer c' e' t (timer_of_cancelTimer v ht)
  state := fun _ _ h => ⟨h.log, h.allocated, h.timer⟩

/-! ### A timer waits until it is delivered -/

/-- The time at which a timer goes off after it has done so `k` times. -/
def occurrence (info : TimerInfo) (k : ℕ) : ℕ :=
  (info.nextTriggerTime + k * info.interval) % 2 ^ 32

def advanced (info : TimerInfo) (k : ℕ) : TimerInfo :=
  { info with nextTriggerTime := occurrence info k }

def Delivered (log : List Event) (info : TimerInfo) (k : ℕ) : Prop :=
  ∃ fired, Event.onTimer fired (occurrence info k) ∈ log ∧ fired.address = info.address

def Removed (log : List Event) (info : TimerInfo) : Prop :=
  ∃ gone, (Event.cancelTimer gone ∈ log ∨ Event.clearTimer gone ∈ log) ∧
    gone.address = info.address

/-- No callback of a timer that does not repeat returns with a new timer under its event. -/
def KeptOwn (log : List Event) : Prop :=
  ∀ fired info, Event.returned fired (some info) ∈ log → fired.isRepeat = false →
    info.address = fired.address

def keepsOwn : Event → Bool
  | .returned fired (some info) => fired.isRepeat || info.address = fired.address
  | _ => true

theorem keptOwn_iff {log : List Event} : KeptOwn log ↔ ∀ event ∈ log, keepsOwn event = true := by
  constructor
  · intro h event hmem
    cases event with
    | returned fired found =>
        cases found with
        | none => rfl
        | some info =>
            rw [keepsOwn, Bool.or_eq_true, decide_eq_true_eq, or_iff_not_imp_left,
              Bool.not_eq_true]
            exact h fired info hmem
    | _ => rfl
  · intro h fired info hmem honce
    have hkeeps := h _ hmem
    rwa [keepsOwn, honce, Bool.false_or, decide_eq_true_eq] at hkeeps

instance : DecidablePred KeptOwn := fun _ => decidable_of_iff _ keptOwn_iff.symm

structure Waiting (w : World σ) (info : TimerInfo) (n : ℕ) : Prop where
  timer : w.provider.timer info.consumer info.eventid = some (advanced info n)
  once : info.isRepeat = false → n = 0
  delivered : ∀ k < n, Delivered w.log info k

def Kept (w : World σ) (info : TimerInfo) : Prop :=
  (∃ n, Waiting w info n) ∨ info.isRepeat = false ∧ Delivered w.log info 0

structure Tracked (w : World σ) : Prop where
  keyed : ∀ c e t, w.provider.timer c e = some t →
    t.consumer = c ∧ t.eventid = e ∧ t.address < w.provider.allocated
  kept : ∀ info now, Event.setTimer info now ∈ w.log → ¬ Removed w.log info → Kept w info

theorem advanced_succ (info : TimerInfo) (n : ℕ) :
    { advanced info n with
      nextTriggerTime := ((advanced info n).nextTriggerTime + (advanced info n).interval)
        % 2 ^ 32 } = advanced info (n + 1) := by
  simp only [advanced, occurrence, TimerInfo.mk.injEq, true_and, and_true]
  rw [Nat.mod_add_mod, Nat.add_assoc, Nat.succ_mul]

section Monotone

variable {log log' : List Event} {info : TimerInfo}

theorem Delivered.mono {k : ℕ} (h : Delivered log info k) (hlog : log <+: log') :
    Delivered log' info k :=
  let ⟨fired, hfired, haddress⟩ := h
  ⟨fired, hlog.subset hfired, haddress⟩

theorem Removed.mono (h : Removed log info) (hlog : log <+: log') : Removed log' info :=
  let ⟨gone, hgone, haddress⟩ := h
  ⟨gone, hgone.imp (hlog.subset ·) (hlog.subset ·), haddress⟩

theorem KeptOwn.of_prefix (h : KeptOwn log') (hlog : log <+: log') : KeptOwn log :=
  fun fired info hreturned => h fired info (hlog.subset hreturned)

end Monotone

section Kept

variable {w w' : World σ} {info : TimerInfo} {n : ℕ}

theorem Waiting.of_timer (h : Waiting w info n) (hlog : w.log <+: w'.log)
    (htimer : w'.provider.timer info.consumer info.eventid = some (advanced info n)) :
    Waiting w' info n :=
  ⟨htimer, h.once, fun k hk => (h.delivered k hk).mono hlog⟩

/-- A timer stays kept if it is delivered, or stays in the table while it waits. -/
theorem Kept.of_waiting (h : Kept w info) (hlog : w.log <+: w'.log)
    (hwaiting : ∀ n, Waiting w info n → Kept w' info) : Kept w' info := by
  rcases h with ⟨n, hn⟩ | ⟨honce, hdelivered⟩
  · exact hwaiting n hn
  · exact .inr ⟨honce, hdelivered.mono hlog⟩

theorem Tracked.of_timer_eq (h : Tracked w) (hlog : w.log <+: w'.log)
    (hset : ∀ info now, Event.setTimer info now ∈ w'.log → Event.setTimer info now ∈ w.log)
    (hallocated : w'.provider.allocated = w.provider.allocated)
    (htimer : ∀ c e, w'.provider.timer c e = w.provider.timer c e) : Tracked w' where
  keyed := by
    intro c e t ht
    rw [htimer] at ht
    rw [hallocated]
    exact h.keyed c e t ht
  kept := by
    intro info now hinfo hremoved
    have hkept := h.kept info now (hset info now hinfo) fun hw => hremoved (hw.mono hlog)
    exact hkept.of_waiting hlog fun n hn =>
      .inl ⟨n, hn.of_timer hlog (by rw [htimer, hn.timer])⟩

theorem tracked_setTimer (c e timeInMSFromNow : ℕ) (isRepeat : Bool) (h : Tracked w) :
    Tracked (w.setTimer c e timeInMSFromNow isRepeat).2 := by
  set w' := (w.setTimer c e timeInMSFromNow isRepeat).2 with hw'
  set info := w.provider.newTimer c e timeInMSFromNow isRepeat with hinfo
  have htimer : ∀ c' e', w'.provider.timer c' e' =
      if c' = c ∧ e' = e then (w.provider.timer c' e').or (some info)
      else w.provider.timer c' e' := fun c' e' =>
    w.provider.timer_setTimer c e timeInMSFromNow isRepeat c' e'
  have hlog : w'.log = w.log ++
      if (w.provider.timer c e).isNone then [.setTimer info w.provider.currentTime] else [] :=
    log_setTimer w c e timeInMSFromNow isRepeat
  have hprefix : w.log <+: w'.log := prefix_setTimer w c e timeInMSFromNow isRepeat
  constructor
  · exact FakeTimerProvider.Keyed.setTimer h.keyed c e timeInMSFromNow isRepeat
  · intro info' now hmem hremoved
    rw [hlog, List.mem_append] at hmem
    rcases hmem with hmem | hmem
    · have hkept := h.kept info' now hmem fun hw => hremoved (hw.mono hprefix)
      refine hkept.of_waiting hprefix fun n hn => .inl ⟨n, hn.of_timer hprefix ?_⟩
      rw [htimer, hn.timer]
      split_ifs <;> rfl
    · split_ifs at hmem with hnone
      · cases List.mem_singleton.mp hmem
        refine .inl ⟨0, ?_, fun _ => rfl, fun k hk => absurd hk k.not_lt_zero⟩
        have hadvanced : advanced info 0 = info := by
          simp [advanced, occurrence, hinfo, FakeTimerProvider.newTimer]
        rw [hadvanced, htimer, if_pos ⟨rfl, rfl⟩]
        change (w.provider.timer c e).or (some info) = some info
        rw [Option.isNone_iff_eq_none.mp hnone]
        rfl
      · cases hmem

theorem Tracked.of_timer_removed (h : Tracked w) (hlog : w.log <+: w'.log)
    (hset : ∀ info now, Event.setTimer info now ∈ w'.log → Event.setTimer info now ∈ w.log)
    (hallocated : w'.provider.allocated = w.provider.allocated)
    (htimer : ∀ c e, w'.provider.timer c e = w.provider.timer c e ∨
      w'.provider.timer c e = none ∧ ∀ t, w.provider.timer c e = some t → Removed w'.log t) :
    Tracked w' where
  keyed := by
    intro c e t ht
    rw [hallocated]
    rcases htimer c e with heq | ⟨hnone, -⟩
    · exact h.keyed c e t (heq ▸ ht)
    · rw [hnone] at ht
      cases ht
  kept := by
    intro info now hinfo hremoved
    have hkept := h.kept info now (hset info now hinfo) fun hw => hremoved (hw.mono hlog)
    refine hkept.of_waiting hlog fun n hn => ?_
    rcases htimer info.consumer info.eventid with heq | ⟨-, hgone⟩
    · exact .inl ⟨n, hn.of_timer hlog (by rw [heq, hn.timer])⟩
    · exact absurd (hgone _ hn.timer) hremoved

theorem tracked_cancelTimer (c e : ℕ) (h : Tracked w) : Tracked (w.cancelTimer c e).2 := by
  have hlog : (w.cancelTimer c e).2.log =
      w.log ++ (w.provider.timer c e).toList.map .cancelTimer := rfl
  refine h.of_timer_removed (prefix_cancelTimer w c e) ?_ rfl fun c' e' => ?_
  · intro info now hmem
    rw [hlog, List.mem_append] at hmem
    exact hmem.resolve_right (by simp)
  · have htimer := w.provider.timer_cancelTimer c e c' e'
    split_ifs at htimer with hkey
    · refine .inr ⟨htimer, fun t ht => ⟨t, .inl ?_, rfl⟩⟩
      rw [hkey.1, hkey.2] at ht
      rw [hlog, ht]
      simp
    · exact .inl htimer

theorem tracked_clearTimers (c : ℕ) (h : Tracked w) : Tracked (w.clearTimers c) := by
  have hlog : (w.clearTimers c).log =
      w.log ++ (w.provider.timersOf c).values.map .clearTimer := rfl
  refine h.of_timer_removed (prefix_clearTimers w c) ?_ rfl fun c' e' => ?_
  · intro info now hmem
    rw [hlog, List.mem_append] at hmem
    exact hmem.resolve_right (by simp)
  · have htimer : (w.clearTimers c).provider.timer c' e' = _ :=
      w.provider.timer_setTimers c OrderedMap.empty c' e'
    split_ifs at htimer with hkey
    · refine .inr ⟨htimer, fun t ht => ⟨t, .inr ?_, rfl⟩⟩
      have hvalue : t ∈ (w.provider.timersOf c).values := by
        rw [hkey] at ht
        exact List.mem_map_of_mem (((w.provider.timersOf c).mem_entries_iff e' t).mpr ht)
      rw [hlog]
      exact List.mem_append_right _ (List.mem_map_of_mem hvalue)
    · exact .inl htimer

theorem keptByCalls_tracked : KeptByCalls (σ := σ) Tracked where
  setTimer := fun _ c e timeInMSFromNow isRepeat => tracked_setTimer c e timeInMSFromNow isRepeat
  cancelTimer := fun _ c e => tracked_cancelTimer c e
  state := fun _ _ h => h.of_timer_eq (List.prefix_refl _) (fun _ _ h => h) rfl fun _ _ => rfl

theorem Tracked.setCurrentTime (h : Tracked w) (timeInMs : ℕ) :
    Tracked (w.setCurrentTime timeInMs) :=
  h.of_timer_eq (List.prefix_refl _) (fun _ _ h => h) rfl fun _ _ => rfl

theorem Tracked.record (h : Tracked w) (event : Event)
    (hevent : ∀ info now, event ≠ .setTimer info now) : Tracked (w.record [event]) :=
  h.of_timer_eq (List.prefix_append _ _)
    (fun info now hmem => (List.mem_append.mp hmem).resolve_right fun hmem =>
      hevent info now (List.mem_singleton.mp hmem).symm) rfl fun _ _ => rfl

end Kept

/-! ### Firing a timer -/

section Fire

variable (consumers : Consumers σ) {w : World σ} {t : TimerInfo}

theorem unmoved_callOnTimer (w : World σ) (t : TimerInfo) :
    Unmoved w (callOnTimer consumers w t) :=
  (keptByCalls_unmoved w).react _ ⟨List.prefix_append _ _, le_rfl, fun _ _ _ => .inl⟩

theorem mem_log_callOnTimer (w : World σ) (t : TimerInfo) :
    Event.onTimer t t.nextTriggerTime ∈ (callOnTimer consumers w t).log := by
  let called := (w.setCurrentTime t.nextTriggerTime).record [.onTimer t t.nextTriggerTime]
  have hmem : Event.onTimer t t.nextTriggerTime ∈ called.log :=
    List.mem_append_right w.log (List.mem_singleton_self _)
  exact ((keptByCalls_unmoved called).react _ (Unmoved.refl called)).log.subset hmem

theorem log_fireTimer (w : World σ) (t : TimerInfo) :
    (fireTimer consumers w t).log = (callOnTimer consumers w t).log ++
      [.returned t ((callOnTimer consumers w t).provider.timer t.consumer t.eventid)] := by
  simp only [fireTimer]
  split_ifs <;> rfl

theorem prefix_fireTimer (w : World σ) (t : TimerInfo) :
    w.log <+: (fireTimer consumers w t).log := by
  rw [log_fireTimer]
  exact (unmoved_callOnTimer consumers w t).log.trans (List.prefix_append _ _)

theorem allocated_fireTimer (w : World σ) (t : TimerInfo) :
    (fireTimer consumers w t).provider.allocated =
      (callOnTimer consumers w t).provider.allocated := by
  rw [fireTimer]
  split_ifs
  · exact FakeTimerProvider.allocated_reschedule _ t
  · rfl

theorem timer_fireTimer (w : World σ) (t : TimerInfo) (c e : ℕ) :
    (fireTimer consumers w t).provider.timer c e =
      if c = t.consumer ∧ e = t.eventid then
        if t.isRepeat then
          ((callOnTimer consumers w t).provider.timer c e).map fun info =>
            if info.address = t.address then
              { info with nextTriggerTime := (info.nextTriggerTime + info.interval) % 2 ^ 32 }
            else info
        else none
      else (callOnTimer consumers w t).provider.timer c e := by
  rw [fireTimer]
  cases t.isRepeat with
  | true => exact FakeTimerProvider.timer_reschedule _ t c e
  | false => exact FakeTimerProvider.timer_cancelTimer _ t.consumer t.eventid c e

theorem currentTime_fireTimer (w : World σ) (t : TimerInfo) :
    (fireTimer consumers w t).provider.currentTime =
      (callOnTimer consumers w t).provider.currentTime := by
  rw [fireTimer]
  split_ifs
  · exact FakeTimerProvider.currentTime_reschedule _ t
  · rfl

/-- A timer that is set when a turn is over is the one that the callback left, or the fired one
at its next time. -/
theorem timer_of_fireTimer {w : World σ} {t info : TimerInfo} {c e : ℕ}
    (hinfo : (fireTimer consumers w t).provider.timer c e = some info) :
    (callOnTimer consumers w t).provider.timer c e = some info ∨
      t.isRepeat = true ∧ (c = t.consumer ∧ e = t.eventid) ∧
        ∃ old, (callOnTimer consumers w t).provider.timer c e = some old ∧
          old.address = t.address ∧
          info = { old with
            nextTriggerTime := (old.nextTriggerTime + old.interval) % 2 ^ 32 } := by
  rw [fireTimer] at hinfo
  split_ifs at hinfo with hrepeat
  · exact (FakeTimerProvider.timer_of_reschedule hinfo).imp_right fun hfired => ⟨hrepeat, hfired⟩
  · exact .inl (timer_of_cancelTimer (callOnTimer consumers w t) hinfo)

theorem eq_of_callOnTimer_of_lt (h : w.provider.Keyed) (ht : ∃ c e, w.provider.timer c e = some t)
    {info : TimerInfo}
    (hinfo : (callOnTimer consumers w t).provider.timer t.consumer t.eventid = some info)
    (hold : info.address < w.provider.allocated) : info = t := by
  obtain ⟨c, e, ht⟩ := ht
  obtain ⟨rfl, rfl, -⟩ := h c e t ht
  rcases (unmoved_callOnTimer consumers w t).timer _ _ _ hinfo with hinfo | hinfo
  · exact Option.some.inj (hinfo.symm.trans ht)
  · omega

theorem eq_of_callOnTimer (h : w.provider.Keyed) (ht : ∃ c e, w.provider.timer c e = some t)
    {info : TimerInfo}
    (hinfo : (callOnTimer consumers w t).provider.timer t.consumer t.eventid = some info)
    (haddress : info.address = t.address) : info = t := by
  refine eq_of_callOnTimer_of_lt consumers h ht hinfo ?_
  obtain ⟨c, e, ht⟩ := ht
  exact haddress.trans_lt (h c e t ht).2.2

theorem tracked_reschedule (h : Tracked w)
    (hfired : ∀ info n, w.provider.timer t.consumer t.eventid = some (advanced info n) →
      info.address = t.address → info.isRepeat = true ∧ Delivered w.log info n) :
    Tracked { w with provider := w.provider.reschedule t } := by
  constructor
  · exact FakeTimerProvider.Keyed.reschedule h.keyed t
  · intro info now hmem hremoved
    refine (h.kept info now hmem hremoved).of_waiting (List.prefix_refl _) fun n hn => ?_
    have htimer := w.provider.timer_reschedule t info.consumer info.eventid
    rw [hn.timer] at htimer
    split_ifs at htimer with hkey
    · rw [Option.map_some] at htimer
      split_ifs at htimer with haddress
      · obtain ⟨hrepeat, hdelivered⟩ :=
          hfired info n (by rw [← hkey.1, ← hkey.2, hn.timer]) haddress
        rw [advanced_succ] at htimer
        refine .inl ⟨n + 1, htimer, fun honce => ?_, fun k hk => ?_⟩
        · exact absurd (hrepeat.symm.trans honce) (by decide)
        · rcases Nat.lt_succ_iff_lt_or_eq.mp hk with hk | rfl
          · exact hn.delivered k hk
          · exact hdelivered
      · exact .inl ⟨n, hn.of_timer (List.prefix_refl _) htimer⟩
    · exact .inl ⟨n, hn.of_timer (List.prefix_refl _) htimer⟩

theorem tracked_cancelFired (h : Tracked w)
    (hfired : ∀ info n, w.provider.timer t.consumer t.eventid = some (advanced info n) →
      info.isRepeat = false ∧ Delivered w.log info n) :
    Tracked { w with provider := (w.provider.cancelTimer t.consumer t.eventid).2 } := by
  constructor
  · exact FakeTimerProvider.Keyed.cancelTimer h.keyed t.consumer t.eventid
  · intro info now hmem hremoved
    refine (h.kept info now hmem hremoved).of_waiting (List.prefix_refl _) fun n hn => ?_
    have htimer := w.provider.timer_cancelTimer t.consumer t.eventid info.consumer info.eventid
    split_ifs at htimer with hkey
    · obtain ⟨honce, hdelivered⟩ := hfired info n (by rw [← hkey.1, ← hkey.2, hn.timer])
      obtain rfl := hn.once honce
      exact .inr ⟨honce, hdelivered⟩
    · exact .inl ⟨n, hn.of_timer (List.prefix_refl _) (htimer.trans hn.timer)⟩

theorem tracked_fireTimer (h : Tracked w) (ht : ∃ c e, w.provider.timer c e = some t)
    (hown : KeptOwn (fireTimer consumers w t).log) : Tracked (fireTimer consumers w t) := by
  rw [log_fireTimer] at hown
  have hcalled : Tracked (callOnTimer consumers w t) :=
    keptByCalls_tracked.react _ ((h.setCurrentTime _).record _ fun _ _ => by simp)
  have hdelivered : ∀ info n events, advanced info n = t →
      Delivered ((callOnTimer consumers w t).record events).log info n := by
    rintro info n events rfl
    exact ⟨advanced info n, List.mem_append_left _ (mem_log_callOnTimer consumers w _), rfl⟩
  rw [fireTimer]
  split_ifs with hrepeat
  · refine tracked_reschedule (hcalled.record _ fun _ _ => by simp) fun info n hfound haddress => ?_
    have heq : advanced info n = t := eq_of_callOnTimer consumers h.keyed ht hfound haddress
    exact ⟨(congrArg TimerInfo.isRepeat heq).trans hrepeat, hdelivered info n _ heq⟩
  · refine tracked_cancelFired (hcalled.record _ fun _ _ => by simp) fun info n hfound => ?_
    have haddress : (advanced info n).address = t.address := by
      refine hown t (advanced info n) ?_ (by simpa using hrepeat)
      rw [← hfound]
      exact List.mem_append_right _ (List.mem_singleton_self _)
    have heq : advanced info n = t := eq_of_callOnTimer consumers h.keyed ht hfound haddress
    exact ⟨(congrArg TimerInfo.isRepeat heq).trans (by simpa using hrepeat),
      hdelivered info n _ heq⟩

end Fire

/-! ### Runs of the provider -/

inductive Action
  | registerTimerConsumer (consumer : ℕ)
  | setTimer (consumer eventID timeInMSFromNow : ℕ) (isRepeat : Bool)
  | cancelTimer (consumer eventID : ℕ)
  | setNextTickTime (fuel timeInMs : ℕ)
  | startDate (fuel date : ℕ)
  | endDate (fuel date : ℕ)
  | onMarketData (consumer : ℕ) (data : CTickData)

/-- There is no step if the loop of the call has not ended within its fuel. -/
def step (consumers : Consumers σ) (w : World σ) : Action → Option (World σ)
  | .registerTimerConsumer consumer => some (w.clearTimers consumer)
  | .setTimer consumer eventID timeInMSFromNow isRepeat =>
      some (w.setTimer consumer eventID timeInMSFromNow isRepeat).2
  | .cancelTimer consumer eventID => some (w.cancelTimer consumer eventID).2
  | .setNextTickTime fuel timeInMs => advanceToTime consumers fuel timeInMs w
  | .startDate fuel date => startDate consumers fuel date w
  | .endDate fuel date => endDate consumers fuel date w
  | .onMarketData consumer data => some (callOnMarketData consumers data w consumer)

def initial (state : σ) : World σ := ⟨FakeTimerProvider.create, state, []⟩

section Runs

variable {consumers : Consumers σ} {I : World σ → Prop} {w w' : World σ}

def IsCall : Event → Prop
  | .onStartDay _ _ | .onEndDay _ _ | .onMarketData _ _ _ => True
  | _ => False

/-- What neither a callback nor a step of the provider may break. -/
structure KeptBySteps (consumers : Consumers σ) (I : World σ → Prop) : Prop
    extends KeptByCalls I where
  clock : ∀ (w : World σ) date time, I w →
    I { w with provider := { w.provider with currentDate := date, currentTime := time } }
  call : ∀ w event, IsCall event → I w → I (w.record [event])
  clearTimers : ∀ w c, I w → I (w.clearTimers c)
  fireTimer : ∀ w t, w.provider.getNextTimer = some t → I w → I (fireTimer consumers w t)

namespace KeptBySteps

theorem callOnMarketData (hI : KeptBySteps consumers I) (data : CTickData) (consumer : ℕ)
    (hw : I w) : I (callOnMarketData consumers data w consumer) :=
  hI.react _ (hI.call w _ trivial hw)

theorem advanceToTime (hI : KeptBySteps consumers I) {fuel timeInMs : ℕ}
    (h : advanceToTime consumers fuel timeInMs w = some w') (hw : I w) : I w' := by
  obtain ⟨v, rfl, hv, -⟩ := advanceToTime_invariant (fun w t ht _ => hI.fireTimer w t ht) h hw
  exact hI.clock v v.provider.currentDate timeInMs hv

theorem startDate (hI : KeptBySteps consumers I) {fuel date : ℕ}
    (h : startDate consumers fuel date w = some w') (hw : I w) : I w' :=
  forEachConsumer_invariant
    (fun w c hw => hI.react _ (hI.call w (.onStartDay c w.provider.currentTime) trivial hw)) h
    (hI.clock w date 0 hw)

theorem closeDate (hI : KeptBySteps consumers I) {fuel : ℕ}
    (h : closeDate consumers fuel w = some w') (hw : I w) : I w' :=
  forEachConsumer_invariant
    (fun w c hw => hI.react _
      (hI.call _ (.onEndDay c w.provider.currentTime) trivial (hI.clearTimers w c hw))) h hw

theorem step (hI : KeptBySteps consumers I) {a : Action} (h : step consumers w a = some w')
    (hw : I w) : I w' := by
  cases a with
  | registerTimerConsumer consumer =>
      obtain rfl := Option.some.inj h
      exact hI.clearTimers w consumer hw
  | setTimer consumer eventID timeInMSFromNow isRepeat =>
      obtain rfl := Option.some.inj h
      exact hI.setTimer w consumer eventID timeInMSFromNow isRepeat hw
  | cancelTimer consumer eventID =>
      obtain rfl := Option.some.inj h
      exact hI.cancelTimer w consumer eventID hw
  | setNextTickTime fuel timeInMs => exact hI.advanceToTime h hw
  | startDate fuel date => exact hI.startDate h hw
  | endDate fuel date =>
      simp only [TimerDelivery.step, endDate] at h
      split_ifs at h with hdate
      · obtain ⟨v, hv, hclose⟩ := Option.bind_eq_some_iff.mp h
        exact hI.closeDate hclose (hI.advanceToTime hv hw)
      · exact Option.some.inj h ▸ hw
  | onMarketData consumer data =>
      obtain rfl := Option.some.inj h
      exact hI.callOnMarketData data consumer hw

end KeptBySteps

/-- What neither a callback nor a turn of a loop may break. -/
structure KeptByTurns (consumers : Consumers σ) (I : World σ → Prop) : Prop
    extends KeptByCalls I where
  clock : ∀ (w : World σ) date time, I w →
    I { w with provider := { w.provider with currentDate := date, currentTime := time } }
  record : ∀ w event, (∀ info now, event ≠ .setTimer info now) → I w → I (w.record [event])
  clearTimers : ∀ w c, I w → I (w.clearTimers c)
  fireTimer : ∀ w t, w.provider.getNextTimer = some t → I w → I (fireTimer consumers w t)

namespace KeptByTurns

theorem keptBySteps (hI : KeptByTurns consumers I) : KeptBySteps consumers I where
  toKeptByCalls := hI.toKeptByCalls
  clock := hI.clock
  call := fun w event hcall => hI.record w event (by rintro info now rfl; exact hcall)
  clearTimers := hI.clearTimers
  fireTimer := hI.fireTimer

theorem callOnMarketData (hI : KeptByTurns consumers I) (data : CTickData) (consumer : ℕ)
    (hw : I w) : I (callOnMarketData consumers data w consumer) :=
  hI.keptBySteps.callOnMarketData data consumer hw

theorem advanceToTime (hI : KeptByTurns consumers I) {fuel timeInMs : ℕ}
    (h : advanceToTime consumers fuel timeInMs w = some w') (hw : I w) : I w' :=
  hI.keptBySteps.advanceToTime h hw

theorem startDate (hI : KeptByTurns consumers I) {fuel date : ℕ}
    (h : startDate consumers fuel date w = some w') (hw : I w) : I w' :=
  hI.keptBySteps.startDate h hw

theorem closeDate (hI : KeptByTurns consumers I) {fuel : ℕ}
    (h : closeDate consumers fuel w = some w') (hw : I w) : I w' :=
  hI.keptBySteps.closeDate h hw

theorem step (hI : KeptByTurns consumers I) {a : Action} (h : step consumers w a = some w')
    (hw : I w) : I w' :=
  hI.keptBySteps.step h hw

end KeptByTurns

theorem keptByCalls_keyed : KeptByCalls (σ := σ) fun w => w.provider.Keyed where
  setTimer := fun _ c e timeInMSFromNow isRepeat h => h.setTimer c e timeInMSFromNow isRepeat
  cancelTimer := fun _ c e h => h.cancelTimer c e
  state := fun _ _ h => h

theorem keptBySteps_keyed (consumers : Consumers σ) :
    KeptBySteps consumers fun w => w.provider.Keyed where
  toKeptByCalls := keptByCalls_keyed
  clock := fun _ _ _ h => h
  call := fun _ _ _ h => h
  clearTimers := fun _ c h => h.registerTimerConsumer c
  fireTimer := by
    intro w t _ hw
    have hcalled : (callOnTimer consumers w t).provider.Keyed := keptByCalls_keyed.react _ hw
    rw [fireTimer]
    split_ifs
    · exact hcalled.reschedule t
    · exact hcalled.cancelTimer t.consumer t.eventid

theorem keptByCalls_fits : KeptByCalls (σ := σ) fun w => w.provider.Fits where
  setTimer := fun _ c e timeInMSFromNow isRepeat h => h.setTimer c e timeInMSFromNow isRepeat
  cancelTimer := fun _ c e h => h.cancelTimer c e
  state := fun _ _ h => h

theorem keptBySteps_fits (consumers : Consumers σ) :
    KeptBySteps consumers fun w => w.provider.Fits where
  toKeptByCalls := keptByCalls_fits
  clock := fun _ _ _ h => h
  call := fun _ _ _ h => h
  clearTimers := fun _ c h => h.registerTimerConsumer c
  fireTimer := by
    intro w t _ hw
    have hcalled : (callOnTimer consumers w t).provider.Fits := keptByCalls_fits.react _ hw
    rw [fireTimer]
    split_ifs
    · exact hcalled.reschedule t
    · exact hcalled.cancelTimer t.consumer t.eventid

theorem fits_of_run {state : σ} {as : List Action}
    (hrun : Run (step consumers) (fun _ _ => True) (initial state) as w) : w.provider.Fits :=
  hrun.invariant (I := fun w => w.provider.Fits)
    (fun _ _ _ _ htake => (keptBySteps_fits consumers).step htake) FakeTimerProvider.fits_create

theorem keyed_of_run {state : σ} {as : List Action}
    (hrun : Run (step consumers) (fun _ _ => True) (initial state) as w) : w.provider.Keyed :=
  hrun.invariant (I := fun w => w.provider.Keyed)
    (fun _ _ _ _ htake => (keptBySteps_keyed consumers).step htake) FakeTimerProvider.keyed_create

theorem keptByTurns_logGrows (consumers : Consumers σ) (log : List Event) :
    KeptByTurns consumers fun w => log <+: w.log where
  setTimer := fun w c e timeInMSFromNow isRepeat h =>
    h.trans (prefix_setTimer w c e timeInMSFromNow isRepeat)
  cancelTimer := fun w c e h => h.trans (prefix_cancelTimer w c e)
  state := fun _ _ h => h
  clock := fun _ _ _ h => h
  record := fun _ _ _ h => h.trans (List.prefix_append _ _)
  clearTimers := fun w c h => h.trans (prefix_clearTimers w c)
  fireTimer := fun w t _ h => h.trans (prefix_fireTimer consumers w t)

theorem keptByTurns_tracked (consumers : Consumers σ) :
    KeptByTurns consumers fun w => KeptOwn w.log → Tracked w where
  setTimer := fun w c e timeInMSFromNow isRepeat h hown => keptByCalls_tracked.setTimer w c e
    timeInMSFromNow isRepeat (h (hown.of_prefix (prefix_setTimer w c e timeInMSFromNow isRepeat)))
  cancelTimer := fun w c e h hown =>
    keptByCalls_tracked.cancelTimer w c e (h (hown.of_prefix (prefix_cancelTimer w c e)))
  state := fun w state h hown => keptByCalls_tracked.state w state (h hown)
  clock := fun _ _ _ h hown =>
    (h hown).of_timer_eq (List.prefix_refl _) (fun _ _ h => h) rfl fun _ _ => rfl
  record := fun _ event hevent h hown =>
    (h (hown.of_prefix (List.prefix_append _ _))).record event hevent
  clearTimers := fun w c h hown =>
    tracked_clearTimers c (h (hown.of_prefix (prefix_clearTimers w c)))
  fireTimer := fun w t ht h hown =>
    tracked_fireTimer consumers (h (hown.of_prefix (prefix_fireTimer consumers w t)))
      (FakeTimerProvider.getNextTimer_spec ht).1 hown

theorem tracked_initial (state : σ) : Tracked (initial state) where
  keyed := by
    intro c e t ht
    cases ht
  kept := by
    intro info now hmem
    cases hmem

theorem tracked_of_run {state : σ} {as : List Action}
    (hrun : Run (step consumers) (fun _ _ => True) (initial state) as w) (hown : KeptOwn w.log) :
    Tracked w :=
  hrun.invariant (I := fun w => KeptOwn w.log → Tracked w)
    (fun _ _ _ _ htake => (keptByTurns_tracked consumers).step htake)
    (fun _ => tracked_initial state) hown

/-- When the clock has been advanced, every timer that is still set has been delivered as often
as it was due. -/
theorem Tracked.delivered (h : Tracked w) {fuel timeInMs : ℕ}
    (hadvance : advanceToTime consumers fuel timeInMs w = some w') (hown : KeptOwn w'.log)
    {info : TimerInfo} {now : ℕ} (hset : Event.setTimer info now ∈ w'.log)
    (hremoved : ¬ Removed w'.log info) {k : ℕ} (hk : info.isRepeat = false → k = 0)
    (hdue : info.nextTriggerTime + k * info.interval ≤ timeInMs) : Delivered w'.log info k := by
  obtain ⟨v, rfl, hv, hidle⟩ := advanceToTime_invariant
    (fun w t ht _ => (keptByTurns_tracked consumers).fireTimer w t ht) hadvance fun _ => h
  rcases (hv hown).kept info now hset hremoved with ⟨n, hn⟩ | ⟨honce, hdelivered⟩
  · by_cases hlt : k < n
    · exact hn.delivered k hlt
    · have hlate : timeInMs < occurrence info n := hidle _ _ _ hn.timer
      have hmod : occurrence info n ≤ info.nextTriggerTime + n * info.interval := Nat.mod_le _ _
      have hmono := Nat.mul_le_mul_right info.interval (not_lt.mp hlt)
      omega
  · obtain rfl := hk honce
    exact hdelivered

/-- No timer is lost in a run in which no callback of a timer that does not repeat sets another
one under its own event: a timer that is not cancelled is in the table or has been delivered,
and once the clock has come to a time, what was due by then has been delivered. -/
theorem delivered_of_keptOwn {state : σ} {as : List Action}
    (hrun : Run (step consumers) (fun _ _ => True) (initial state) as w) (hown : KeptOwn w.log) :
    (∀ info now, Event.setTimer info now ∈ w.log → ¬ Removed w.log info → Kept w info) ∧
      ∀ fuel timeInMs w', advanceToTime consumers fuel timeInMs w = some w' → KeptOwn w'.log →
        ∀ info now, Event.setTimer info now ∈ w'.log → ¬ Removed w'.log info →
          ∀ k, (info.isRepeat = false → k = 0) →
            info.nextTriggerTime + k * info.interval ≤ timeInMs → Delivered w'.log info k := by
  have htracked := tracked_of_run hrun hown
  refine ⟨htracked.kept, fun fuel timeInMs w' hadvance hown' info now hset hremoved k hk hdue => ?_⟩
  exact htracked.delivered hadvance hown' hset hremoved hk hdue

end Runs

/-! ### Sample runs -/

/-- Consumers that do nothing but answer timers. -/
def answering (onTimer : ℕ → ℕ → Reaction Unit) : Consumers Unit where
  onTimer := fun _ consumer eventID _ => onTimer consumer eventID
  onStartDay := fun state _ _ _ => .done state
  onEndDay := fun state _ _ _ => .done state
  onMarketData := fun state _ _ _ => .done state

def idle : Consumers Unit := answering fun _ _ => .done ()

/-- The callback of event 7 cancels event 9 and sets event 8. -/
def handingOn : Consumers Unit :=
  answering fun consumer eventID =>
    if eventID = 7 then
      .cancelTimer consumer 9 fun _ => .setTimer consumer 8 5 false fun _ => .done ()
    else .done ()

/-- Timers that do not repeat: one hands on to another, which is delivered in the same call. -/
theorem delivered_of_keptOwn_handingOn :
    ∃ w w', Run (step handingOn) (fun _ _ => True) (initial ())
        [.registerTimerConsumer 1, .setTimer 1 7 10 false, .setTimer 1 9 12 false] w ∧
      advanceToTime handingOn 3 25 w = some w' ∧ Removed w'.log ⟨1, 1, 9, 12, 12, false⟩ ∧
      Event.setTimer ⟨2, 1, 8, 15, 5, false⟩ 10 ∈ w'.log ∧
      Delivered w'.log ⟨2, 1, 8, 15, 5, false⟩ 0 := by
  let actions : List Action :=
    [.registerTimerConsumer 1, .setTimer 1 7 10 false, .setTimer 1 9 12 false]
  let w := (Run.execute (step handingOn) (fun _ _ => True) (initial ()) actions).get
    (by decide +kernel)
  let w' := (advanceToTime handingOn 3 25 w).get (by decide +kernel)
  have hlog : w.log = [.setTimer ⟨0, 1, 7, 10, 10, false⟩ 0,
      .setTimer ⟨1, 1, 9, 12, 12, false⟩ 0] := by decide +kernel
  have hlog' : w'.log = [.setTimer ⟨0, 1, 7, 10, 10, false⟩ 0,
      .setTimer ⟨1, 1, 9, 12, 12, false⟩ 0, .onTimer ⟨0, 1, 7, 10, 10, false⟩ 10,
      .cancelTimer ⟨1, 1, 9, 12, 12, false⟩, .setTimer ⟨2, 1, 8, 15, 5, false⟩ 10,
      .returned ⟨0, 1, 7, 10, 10, false⟩ (some ⟨0, 1, 7, 10, 10, false⟩),
      .onTimer ⟨2, 1, 8, 15, 5, false⟩ 15,
      .returned ⟨2, 1, 8, 15, 5, false⟩ (some ⟨2, 1, 8, 15, 5, false⟩)] := by decide +kernel
  have hrun : Run (step handingOn) (fun _ _ => True) (initial ()) actions w :=
    Run.of_execute (Option.some_get _).symm
  have hadvance : advanceToTime handingOn 3 25 w = some w' := (Option.some_get _).symm
  have hset : Event.setTimer ⟨2, 1, 8, 15, 5, false⟩ 10 ∈ w'.log := by simp [hlog']
  refine ⟨w, w', hrun, hadvance, ⟨_, .inl (by simp [hlog']), rfl⟩, hset, ?_⟩
  refine (delivered_of_keptOwn hrun ?_).2 3 25 w' hadvance ?_ ⟨2, 1, 8, 15, 5, false⟩ 10 hset ?_ 0
    (fun _ => rfl) (by decide)
  · rw [hlog]
    decide
  · rw [hlog']
    decide
  · rw [hlog']
    simp [Removed]

/-- A callback that starts its timer anew. -/
def rearming : Consumers Unit :=
  answering fun consumer eventID =>
    .cancelTimer consumer eventID fun _ => .setTimer consumer eventID 5 false fun _ => .done ()

/-- The timer that was set at 10 is gone at 20 without having been delivered or cancelled. -/
theorem not_delivered_rearming :
    ∃ w, Run (step rearming) (fun _ _ => True) (initial ())
        [.registerTimerConsumer 1, .setTimer 1 7 10 false, .setNextTickTime 2 10,
          .setNextTickTime 1 20] w ∧
      Event.setTimer ⟨1, 1, 7, 15, 5, false⟩ 10 ∈ w.log ∧
      ¬ Removed w.log ⟨1, 1, 7, 15, 5, false⟩ ∧ (∀ c e, w.provider.timer c e = none) ∧
      ∀ k, ¬ Delivered w.log ⟨1, 1, 7, 15, 5, false⟩ k := by
  let actions : List Action := [.registerTimerConsumer 1, .setTimer 1 7 10 false,
    .setNextTickTime 2 10, .setNextTickTime 1 20]
  let w := (Run.execute (step rearming) (fun _ _ => True) (initial ()) actions).get
    (by decide +kernel)
  have hlog : w.log = [.setTimer ⟨0, 1, 7, 10, 10, false⟩ 0,
      .onTimer ⟨0, 1, 7, 10, 10, false⟩ 10, .cancelTimer ⟨0, 1, 7, 10, 10, false⟩,
      .setTimer ⟨1, 1, 7, 15, 5, false⟩ 10,
      .returned ⟨0, 1, 7, 10, 10, false⟩ (some ⟨1, 1, 7, 15, 5, false⟩)] := by decide +kernel
  have hempty : w.provider.getNextTimer = none := by decide +kernel
  refine ⟨w, Run.of_execute (Option.some_get _).symm, ?_, ?_,
    FakeTimerProvider.getNextTimer_eq_none hempty, ?_⟩
  · rw [hlog]
    simp
  · rw [hlog]
    rintro ⟨gone, hgone, haddress⟩
    simp only [List.mem_cons, List.not_mem_nil, reduceCtorEq, Event.cancelTimer.injEq, false_or,
      or_false] at hgone
    rw [hgone] at haddress
    cases haddress
  · rw [hlog]
    rintro k ⟨fired, hfired, haddress⟩
    simp only [List.mem_cons, List.not_mem_nil, reduceCtorEq, Event.onTimer.injEq, false_or,
      or_false] at hfired
    rw [hfired.1] at haddress
    cases haddress

/-! ### The clock advanced in two steps -/

section TwoSteps

variable (consumers : Consumers σ) {w w' : World σ}

theorem advanceToTime_setCurrentTime (fuel timeInMs before : ℕ) (w : World σ) :
    advanceToTime consumers fuel timeInMs (w.setCurrentTime before) =
      advanceToTime consumers fuel timeInMs w := by
  cases fuel with
  | zero => rfl
  | succ fuel =>
      have hdue : isDue timeInMs (w.setCurrentTime before) = isDue timeInMs w := rfl
      simp only [advanceToTime, whileLoop, hdue]
      split_ifs with h
      · have hfire : fireNext consumers (w.setCurrentTime before) = fireNext consumers w := by
          obtain ⟨t, hnext, -, hturn⟩ := fireNext_of_isDue consumers h
          obtain ⟨t', hnext', -, hturn'⟩ := fireNext_of_isDue consumers (hdue.trans h)
          obtain rfl : t = t' := Option.some.inj (hnext.symm.trans hnext')
          rw [hturn, hturn']
          rfl
        rw [hfire]
      · rfl

theorem exists_advanceToTime_iff {timeInMs : ℕ} :
    (∃ fuel, advanceToTime consumers fuel timeInMs w = some w') ↔
      ∃ v, LoopEnds (isDue timeInMs) (fireNext consumers) w v ∧ v.setCurrentTime timeInMs = w' := by
  simp only [advanceToTime, Option.map_eq_some_iff, LoopEnds]
  constructor
  · rintro ⟨fuel, v, hv, hw'⟩
    exact ⟨v, ⟨fuel, hv⟩, hw'⟩
  · rintro ⟨v, ⟨fuel, hv⟩, hw'⟩
    exact ⟨fuel, v, hv, hw'⟩

theorem isDue_mono {earlier later : ℕ} (hle : earlier ≤ later) (w : World σ)
    (h : isDue earlier w = true) : isDue later w = true := by
  unfold isDue at h ⊢
  split at h
  · cases h
  · exact decide_eq_true ((of_decide_eq_true h).trans hle)

/-- A clock that is advanced in two steps ends in the world of a clock that is advanced in one:
the same deliveries, the same timers, the same time. -/
theorem advanceToTime_twice_iff {earlier later : ℕ} (hle : earlier ≤ later) :
    (∃ v, (∃ fuel, advanceToTime consumers fuel earlier w = some v) ∧
        ∃ fuel, advanceToTime consumers fuel later v = some w') ↔
      ∃ fuel, advanceToTime consumers fuel later w = some w' := by
  simp only [exists_advanceToTime_iff consumers (w := w)]
  constructor
  · rintro ⟨_, ⟨v, hv, rfl⟩, hlater⟩
    simp only [advanceToTime_setCurrentTime, exists_advanceToTime_iff] at hlater
    obtain ⟨u, hu, rfl⟩ := hlater
    exact ⟨u, (LoopEnds.trans_iff (isDue_mono hle)).mp ⟨v, hv, hu⟩, rfl⟩
  · rintro ⟨u, hu, rfl⟩
    obtain ⟨v, hv, hvu⟩ := (LoopEnds.trans_iff (isDue_mono hle)).mpr hu
    refine ⟨_, ⟨v, hv, rfl⟩, ?_⟩
    simp only [advanceToTime_setCurrentTime, exists_advanceToTime_iff]
    exact ⟨u, hvu, rfl⟩

/-- A timer that is set in a callback at the earlier time. -/
theorem advanceToTime_twice_rearming :
    let w := ((initial ()).setTimer 1 7 10 true).2
    ∃ w' v, (∃ fuel, advanceToTime rearming fuel 10 w = some v) ∧
      (∃ fuel, advanceToTime rearming fuel 25 v = some w') ∧
      ∃ fuel, advanceToTime rearming fuel 25 w = some w' := by
  intro w
  have hone : ∃ fuel, advanceToTime rearming fuel 25 w =
      some ((advanceToTime rearming 3 25 w).get (by decide +kernel)) :=
    ⟨3, (Option.some_get _).symm⟩
  obtain ⟨v, hearlier, hlater⟩ :=
    (advanceToTime_twice_iff rearming (show 10 ≤ 25 by decide)).mpr hone
  exact ⟨_, v, hearlier, hlater, hone⟩

end TwoSteps

end BluesTrading.TimerDelivery
