import BluesTrading.Foundations.LeastFirst
import BluesTrading.TimerDelivery
import Mathlib.Data.Prod.Lex

namespace BluesTrading.TimerTrace

open BluesTrading.Foundations
open BluesTrading.TimerProvider
open BluesTrading.TimerDelivery

/-! ### The search for the next timer -/

/-- Timers in the order in which they are delivered: by time, then consumer, then event. -/
abbrev Delivery := ℕ ×ₗ ℕ ×ₗ ℕ

def delivery (time consumer eventID : ℕ) : Delivery := toLex (time, toLex (consumer, eventID))

theorem delivery_lt_iff {time consumer eventID time' consumer' eventID' : ℕ} :
    delivery time consumer eventID < delivery time' consumer' eventID' ↔
      time < time' ∨ time = time' ∧ (consumer < consumer' ∨
        consumer = consumer' ∧ eventID < eventID') := by
  simp [delivery, Prod.Lex.toLex_lt_toLex]

theorem delivery_mono {time time' : ℕ} (consumer eventID : ℕ) (hle : time ≤ time') :
    delivery time consumer eventID ≤ delivery time' consumer eventID := by
  rcases hle.lt_or_eq with hlt | rfl
  · exact (delivery_lt_iff.mpr (.inl hlt)).le
  · exact le_rfl

theorem allInfos_sorted {p : FakeTimerProvider} (hkeyed : p.Keyed) :
    p.allInfos.Pairwise fun a b => a.consumer < b.consumer ∨
      a.consumer = b.consumer ∧ a.eventid < b.eventid := by
  have hentry : ∀ c timers, (c, timers) ∈ p.allTimers.entries → ∀ e t, (e, t) ∈ timers.entries →
      t.consumer = c ∧ t.eventid = e := by
    intro c timers hc e t he
    have htimer : p.timer c e = some t := by
      rw [FakeTimerProvider.timer, FakeTimerProvider.timersOf,
        (p.allTimers.mem_entries_iff c timers).mp hc]
      exact (timers.mem_entries_iff e t).mp he
    exact ⟨(hkeyed c e t htimer).1, (hkeyed c e t htimer).2.1⟩
  unfold FakeTimerProvider.allInfos OrderedMap.values
  rw [List.pairwise_flatMap]
  constructor
  · intro timers htimers
    obtain ⟨⟨c, timers⟩, hc, rfl⟩ := List.mem_map.mp htimers
    refine List.pairwise_map.mpr (timers.sorted.imp_of_mem ?_)
    rintro ⟨e, t⟩ ⟨e', t'⟩ he he' hlt
    obtain ⟨hconsumer, hevent⟩ := hentry c timers hc e t he
    obtain ⟨hconsumer', hevent'⟩ := hentry c timers hc e' t' he'
    exact .inr ⟨hconsumer.trans hconsumer'.symm, by rwa [hevent, hevent']⟩
  · refine List.pairwise_map.mpr (p.allTimers.sorted.imp_of_mem ?_)
    rintro ⟨c, timers⟩ ⟨c', timers'⟩ hc hc' hlt t ht t' ht'
    obtain ⟨⟨e, t⟩, he, rfl⟩ := List.mem_map.mp ht
    obtain ⟨⟨e', t'⟩, he', rfl⟩ := List.mem_map.mp ht'
    left
    rw [(hentry c timers hc e t he).1, (hentry c' timers' hc' e' t' he').1]
    exact hlt

theorem getNextTimer_least {p : FakeTimerProvider} (hkeyed : p.Keyed) {t : TimerInfo}
    (h : p.getNextTimer = some t) {c e : ℕ} {info : TimerInfo} (hinfo : p.timer c e = some info) :
    delivery t.nextTriggerTime t.consumer t.eventid ≤ delivery info.nextTriggerTime c e := by
  obtain ⟨front, back, hsplit, hfront, hback⟩ := FakeTimerProvider.foldl_earlier_split p.allInfos h
  obtain ⟨rfl, rfl, -⟩ := hkeyed c e info hinfo
  have hmem : info ∈ front ++ t :: back := hsplit ▸ FakeTimerProvider.mem_allInfos.mpr ⟨_, _, hinfo⟩
  have hsorted := hsplit ▸ allInfos_sorted hkeyed
  rcases List.mem_append.mp hmem with hmem | hmem
  · exact (delivery_lt_iff.mpr (.inl (hfront info hmem))).le
  · rcases List.mem_cons.mp hmem with rfl | hmem
    · exact le_rfl
    · have hkeys := (List.pairwise_cons.mp (List.pairwise_append.mp hsorted).2.1).1 info hmem
      rcases (hback info hmem).lt_or_eq with hlt | heq
      · exact (delivery_lt_iff.mpr (.inl hlt)).le
      · exact (delivery_lt_iff.mpr (.inr ⟨heq, hkeys⟩)).le

/-! ### A turn of the loop -/

section Turn

variable {σ : Type} {consumers : Consumers σ} {w : World σ} {t : TimerInfo} {timeInMs : ℕ}

/-- The callbacks of the timers set and cancel nothing. -/
def Idle (consumers : Consumers σ) : Prop :=
  ∀ state consumer eventID now, ∃ state', consumers.onTimer state consumer eventID now =
    .done state'

def delivered : Event → Option Delivery
  | .onTimer info now => some (delivery now info.consumer info.eventid)
  | _ => none

/-- The occurrences up to a time of the timers of the table. -/
def due (timeInMs : ℕ) (w : World σ) : Set Delivery :=
  { d | ∃ c e t k, w.provider.timer c e = some t ∧ (t.isRepeat = false → k = 0) ∧
    t.nextTriggerTime + k * t.interval ≤ timeInMs ∧
    d = delivery (t.nextTriggerTime + k * t.interval) c e }

/-- Repeating timers have a positive interval and do not overflow when they go off. -/
def Regular (timeInMs : ℕ) (p : FakeTimerProvider) : Prop :=
  ∀ c e t, p.timer c e = some t → t.isRepeat = true →
    0 < t.interval ∧ timeInMs + t.interval < 2 ^ 32

theorem callOnTimer_idle (hidle : Idle consumers) (w : World σ) (t : TimerInfo) :
    ∃ state, callOnTimer consumers w t =
      { (w.setCurrentTime t.nextTriggerTime).record [.onTimer t t.nextTriggerTime] with
        state := state } := by
  obtain ⟨state, hstate⟩ := hidle w.state t.consumer t.eventid t.nextTriggerTime
  refine ⟨state, ?_⟩
  change World.react _ (consumers.onTimer w.state t.consumer t.eventid t.nextTriggerTime) = _
  rw [hstate]
  rfl

theorem delivered_fireTimer (hidle : Idle consumers) (w : World σ) (t : TimerInfo) :
    (fireTimer consumers w t).log.filterMap delivered =
      w.log.filterMap delivered ++ [delivery t.nextTriggerTime t.consumer t.eventid] := by
  obtain ⟨state, hcall⟩ := callOnTimer_idle hidle w t
  rw [log_fireTimer, hcall]
  change (w.log ++ [Event.onTimer t t.nextTriggerTime] ++
    [Event.returned t _]).filterMap delivered = _
  simp [delivered]

theorem timer_fireTimer_wrapped (hidle : Idle consumers) (hkeyed : w.provider.Keyed)
    (hnext : w.provider.getNextTimer = some t) (c e : ℕ) :
    (fireTimer consumers w t).provider.timer c e =
      if c = t.consumer ∧ e = t.eventid then if t.isRepeat then some (advanced t 1) else none
      else w.provider.timer c e := by
  obtain ⟨state, hcall⟩ := callOnTimer_idle hidle w t
  obtain ⟨⟨c', e', ht⟩, -⟩ := FakeTimerProvider.getNextTimer_spec hnext
  obtain ⟨rfl, rfl, -⟩ := hkeyed c' e' t ht
  have hsame : ∀ c e, (callOnTimer consumers w t).provider.timer c e = w.provider.timer c e := by
    rw [hcall]
    exact fun _ _ => rfl
  rw [timer_fireTimer, hsame]
  split_ifs with hkey hrepeat
  · rw [hkey.1, hkey.2, ht, Option.map_some, if_pos rfl, advanced, occurrence, Nat.one_mul]
  · rfl
  · rfl

theorem timer_fireTimer_idle (hidle : Idle consumers) (hkeyed : w.provider.Keyed)
    (hregular : Regular timeInMs w.provider) (hnext : w.provider.getNextTimer = some t)
    (hdue : t.nextTriggerTime ≤ timeInMs) (c e : ℕ) :
    (fireTimer consumers w t).provider.timer c e =
      if c = t.consumer ∧ e = t.eventid then
        if t.isRepeat then some { t with nextTriggerTime := t.nextTriggerTime + t.interval }
        else none
      else w.provider.timer c e := by
  obtain ⟨⟨c', e', ht⟩, -⟩ := FakeTimerProvider.getNextTimer_spec hnext
  rw [timer_fireTimer_wrapped hidle hkeyed hnext]
  split_ifs with hkey hrepeat
  · have hfits := (hregular _ _ t ht hrepeat).2
    rw [advanced, occurrence, Nat.one_mul, Nat.mod_eq_of_lt (by omega)]
  · rfl
  · rfl

theorem delivery_inj {time consumer eventID time' consumer' eventID' : ℕ} :
    delivery time consumer eventID = delivery time' consumer' eventID' ↔
      time = time' ∧ consumer = consumer' ∧ eventID = eventID' := by
  simp [delivery]

theorem add_succ_interval (t : TimerInfo) (k : ℕ) :
    t.nextTriggerTime + t.interval + k * t.interval = t.nextTriggerTime + (k + 1) * t.interval := by
  rw [Nat.succ_mul]
  omega

theorem due_fireTimer (hidle : Idle consumers) (hkeyed : w.provider.Keyed)
    (hregular : Regular timeInMs w.provider) (hnext : w.provider.getNextTimer = some t)
    (hdue : t.nextTriggerTime ≤ timeInMs) :
    due timeInMs (fireTimer consumers w t) =
      due timeInMs w \ {delivery t.nextTriggerTime t.consumer t.eventid} := by
  have htimer := timer_fireTimer_idle hidle hkeyed hregular hnext hdue
  obtain ⟨⟨c', e', ht⟩, -⟩ := FakeTimerProvider.getNextTimer_spec hnext
  obtain ⟨rfl, rfl, -⟩ := hkeyed c' e' t ht
  ext d
  simp only [due, Set.mem_ofPred_eq, Set.mem_sdiff, Set.mem_singleton_iff]
  constructor
  · rintro ⟨c, e, info, k, hinfo, honce, hle, rfl⟩
    rw [htimer] at hinfo
    split_ifs at hinfo with hkey hrepeat
    · obtain rfl := Option.some.inj hinfo
      have hpositive := (hregular _ _ t ht hrepeat).1
      simp only [add_succ_interval] at hle ⊢
      refine ⟨⟨_, _, t, k + 1, ht, fun h => absurd (hrepeat.symm.trans h) (by decide), hle,
        by rw [hkey.1, hkey.2]⟩, fun heq => ?_⟩
      have htime := (delivery_inj.mp heq).1
      rw [Nat.succ_mul] at htime
      omega
    · refine ⟨⟨c, e, info, k, hinfo, honce, hle, rfl⟩, fun heq => ?_⟩
      exact hkey (delivery_inj.mp heq).2
  · rintro ⟨⟨c, e, info, k, hinfo, honce, hle, rfl⟩, hne⟩
    by_cases hkey : c = t.consumer ∧ e = t.eventid
    · rw [hkey.1, hkey.2, ht] at hinfo
      obtain rfl := Option.some.inj hinfo
      cases k with
      | zero => exact absurd (delivery_inj.mpr ⟨by simp, hkey⟩) hne
      | succ k =>
          have hrepeat : t.isRepeat = true := by
            by_contra hfalse
            exact absurd (honce (by simpa using hfalse)) k.succ_ne_zero
          refine ⟨c, e, { t with nextTriggerTime := t.nextTriggerTime + t.interval }, k, ?_,
            fun h => absurd (hrepeat.symm.trans h) (by decide), ?_, ?_⟩
          · rw [htimer, if_pos hkey, if_pos hrepeat]
          · simp only [add_succ_interval]
            exact hle
          · simp only [add_succ_interval]
    · exact ⟨c, e, info, k, by rw [htimer, if_neg hkey, hinfo], honce, hle, rfl⟩

theorem due_finite (hkeyed : w.provider.Keyed) : (due timeInMs w).Finite := by
  refine (((Set.finite_Iic timeInMs).prod w.provider.allInfos.finite_toSet).image fun x =>
    delivery x.1 x.2.consumer x.2.eventid).subset ?_
  rintro d ⟨c, e, t, k, ht, -, hle, rfl⟩
  obtain ⟨hc, he, -⟩ := hkeyed c e t ht
  refine ⟨(t.nextTriggerTime + k * t.interval, t), ⟨hle, ?_⟩, by simp only [hc, he]⟩
  exact FakeTimerProvider.mem_allInfos.mpr ⟨c, e, ht⟩

/-- What a timer has become while the clock is advanced. -/
def Progress (timeInMs : ℕ) : Option TimerInfo → Option TimerInfo → Prop
  | none, after => after = none
  | some t, after =>
      (∃ k, after = some { t with nextTriggerTime := t.nextTriggerTime + k * t.interval } ∧
        (t.isRepeat = false → k = 0) ∧
        ∀ j < k, t.nextTriggerTime + j * t.interval ≤ timeInMs) ∨
      t.isRepeat = false ∧ t.nextTriggerTime ≤ timeInMs ∧ after = none

theorem progress_refl (timeInMs : ℕ) (before : Option TimerInfo) :
    Progress timeInMs before before := by
  cases before with
  | none => rfl
  | some t => exact .inl ⟨0, by simp, fun _ => rfl, fun j hj => absurd hj j.not_lt_zero⟩

theorem Progress.fire {before : Option TimerInfo} (h : Progress timeInMs before (some t))
    (hdue : t.nextTriggerTime ≤ timeInMs) :
    Progress timeInMs before (if t.isRepeat then
      some { t with nextTriggerTime := t.nextTriggerTime + t.interval } else none) := by
  cases before with
  | none => cases h
  | some first =>
      obtain ⟨k, hk, honce, hearlier⟩ | ⟨-, -, hnone⟩ := h
      · obtain rfl := Option.some.inj hk
        cases hrepeat : first.isRepeat with
        | true =>
            refine .inl ⟨k + 1, ?_, fun h => absurd (hrepeat.symm.trans h) (by decide), ?_⟩
            · simp [hrepeat, Nat.succ_mul, Nat.add_assoc]
            · intro j hj
              rcases Nat.lt_succ_iff_lt_or_eq.mp hj with hj | rfl
              · exact hearlier j hj
              · exact hdue
        | false =>
            obtain rfl := honce hrepeat
            exact .inr ⟨hrepeat, by simpa using hdue, by simp⟩
      · cases hnone

/-- What holds in each turn of the loop. -/
structure Advancing (timeInMs : ℕ) (start w : World σ) : Prop where
  log : start.log <+: w.log
  keyed : w.provider.Keyed
  regular : Regular timeInMs w.provider
  progress : ∀ c e, Progress timeInMs (start.provider.timer c e) (w.provider.timer c e)

theorem Advancing.fireTimer {start : World σ} (h : Advancing timeInMs start w)
    (hidle : Idle consumers) (hnext : w.provider.getNextTimer = some t)
    (hdue : t.nextTriggerTime ≤ timeInMs) :
    Advancing timeInMs start (fireTimer consumers w t) := by
  have htimer := timer_fireTimer_idle hidle h.keyed h.regular hnext hdue
  obtain ⟨⟨c', e', ht⟩, -⟩ := FakeTimerProvider.getNextTimer_spec hnext
  obtain ⟨rfl, rfl, -⟩ := h.keyed c' e' t ht
  refine ⟨h.log.trans (prefix_fireTimer consumers w t),
    (keptBySteps_keyed consumers).fireTimer w t hnext h.keyed, fun c e info hinfo hrepeat => ?_,
    fun c e => ?_⟩
  · rw [htimer] at hinfo
    split_ifs at hinfo with hkey hkind
    · obtain rfl := Option.some.inj hinfo
      exact h.regular _ _ t ht hkind
    · exact h.regular c e info hinfo hrepeat
  · rw [htimer]
    split_ifs with hkey hkind
    · have hfire := (ht ▸ h.progress t.consumer t.eventid).fire hdue
      rw [if_pos hkind] at hfire
      rwa [hkey.1, hkey.2]
    · have hfire := (ht ▸ h.progress t.consumer t.eventid).fire hdue
      rw [if_neg hkind] at hfire
      rwa [hkey.1, hkey.2]
    · exact h.progress c e

/-- The loop delivers what is due, the least first. -/
theorem takesLeast (hidle : Idle consumers) (timeInMs : ℕ) (start : World σ) :
    TakesLeast (isDue timeInMs) (fireNext consumers) (due timeInMs)
      (fun w => w.log.filterMap delivered) (Advancing timeInMs start) where
  idle := by
    intro w hw hguard
    rw [Set.eq_empty_iff_forall_notMem]
    rintro d ⟨c, e, t, k, ht, -, hle, -⟩
    have hfirst : t.nextTriggerTime ≤ timeInMs := (Nat.le_add_right _ _).trans hle
    rw [isDue_of_timer ht hfirst] at hguard
    cases hguard
  turn := by
    intro w hw hguard
    obtain ⟨t, hnext, hdue, hturn⟩ := fireNext_of_isDue consumers hguard
    rw [hturn]
    obtain ⟨⟨c, e, ht⟩, -⟩ := FakeTimerProvider.getNextTimer_spec hnext
    obtain ⟨rfl, rfl, -⟩ := hw.keyed c e t ht
    refine ⟨hw.fireTimer hidle hnext hdue, _,
      ⟨_, _, t, 0, ht, fun _ => rfl, by simpa using hdue, by simp⟩, ?_,
      due_fireTimer hidle hw.keyed hw.regular hnext hdue, delivered_fireTimer hidle w t⟩
    rintro d ⟨c, e, info, k, hinfo, -, -, rfl⟩
    exact (getNextTimer_least hw.keyed hnext hinfo).trans
      (delivery_mono c e (Nat.le_add_right _ _))

def Settled (timeInMs : ℕ) : Option TimerInfo → Option TimerInfo → Prop
  | none, after => after = none
  | some t, after =>
      if timeInMs < t.nextTriggerTime then after = some t
      else if t.isRepeat then
        ∃ k, after = some { t with nextTriggerTime := t.nextTriggerTime + k * t.interval } ∧
          timeInMs < t.nextTriggerTime + k * t.interval ∧
          ∀ j < k, t.nextTriggerTime + j * t.interval ≤ timeInMs
      else after = none

theorem Progress.settled {before after : Option TimerInfo} (h : Progress timeInMs before after)
    (hlate : ∀ t, after = some t → timeInMs < t.nextTriggerTime) :
    Settled timeInMs before after := by
  cases before with
  | none => exact h
  | some first =>
      simp only [Settled]
      obtain ⟨k, rfl, honce, hearlier⟩ | ⟨honce, hdue, rfl⟩ := h
      · have hk : timeInMs < first.nextTriggerTime + k * first.interval := hlate _ rfl
        split_ifs with hfirst hrepeat
        · cases k with
          | zero => simp
          | succ k =>
              have hdue := hearlier 0 k.succ_pos
              omega
        · exact ⟨k, rfl, hk, hearlier⟩
        · obtain rfl := honce (by simpa using hrepeat)
          omega
      · rw [if_neg (not_lt.mpr hdue), honce]
        rfl

/-- If the consumers do not touch their timers, advancing the clock delivers just the occurrences
that are due, sorted by time, consumer and event, and leaves every timer at its first occurrence
after the time. -/
theorem advanceToTime_idle (hidle : Idle consumers) (hkeyed : w.provider.Keyed)
    (hregular : Regular timeInMs w.provider) :
    ∃ w', (∃ fuel, advanceToTime consumers fuel timeInMs w = some w') ∧
      w'.provider.currentTime = timeInMs ∧
      (∃ turn, w'.log = w.log ++ turn ∧ (turn.filterMap delivered).Pairwise (· < ·) ∧
        ∀ time consumer eventID, delivery time consumer eventID ∈ turn.filterMap delivered ↔
          ∃ t k, w.provider.timer consumer eventID = some t ∧ (t.isRepeat = false → k = 0) ∧
            time = t.nextTriggerTime + k * t.interval ∧ time ≤ timeInMs) ∧
      ∀ c e, Settled timeInMs (w.provider.timer c e) (w'.provider.timer c e) := by
  have hstart : Advancing timeInMs w w :=
    ⟨List.prefix_refl _, hkeyed, hregular, fun c e => progress_refl timeInMs _⟩
  obtain ⟨v, hends, hv, hempty, done, hdone, hsorted, hmem⟩ :=
    (takesLeast hidle timeInMs w).loopEnds hstart (due_finite hkeyed)
  obtain ⟨turn, hturn⟩ := hv.log
  rw [← hturn, List.filterMap_append] at hdone
  obtain rfl := List.append_cancel_left hdone
  refine ⟨v.setCurrentTime timeInMs,
    (exists_advanceToTime_iff consumers).mpr ⟨v, hends, rfl⟩, rfl,
    ⟨turn, hturn.symm, hsorted, fun time consumer eventID => ?_⟩,
    fun c e => (hv.progress c e).settled fun t ht => ?_⟩
  · rw [hmem]
    constructor
    · rintro ⟨c, e, t, k, ht, honce, hle, heq⟩
      obtain ⟨rfl, rfl, rfl⟩ := delivery_inj.mp heq
      exact ⟨t, k, ht, honce, rfl, hle⟩
    · rintro ⟨t, k, ht, honce, rfl, hle⟩
      exact ⟨consumer, eventID, t, k, ht, honce, hle, rfl⟩
  · by_contra hle
    have hpending : delivery t.nextTriggerTime c e ∈ due timeInMs v :=
      ⟨c, e, t, 0, ht, fun _ => rfl, by simpa using hle, by simp⟩
    rw [hempty] at hpending
    exact hpending

theorem advanceToTime_idle_two :
    let w := (((initial ()).setTimer 2 5 10 true).2.setTimer 1 7 20 false).2
    ∃ w', (∃ fuel, advanceToTime idle fuel 25 w = some w') ∧ w'.provider.currentTime = 25 ∧
      w'.provider.timer 1 7 = none ∧
      ∃ turn, w'.log = w.log ++ turn ∧ (turn.filterMap delivered).Pairwise (· < ·) ∧
        delivery 20 2 5 ∈ turn.filterMap delivered := by
  intro w
  have hkeyed : w.provider.Keyed :=
    (FakeTimerProvider.keyed_create.setTimer 2 5 10 true).setTimer 1 7 20 false
  have htimer : ∀ c e, w.provider.timer c e =
      if c = 1 ∧ e = 7 then some ⟨1, 1, 7, 20, 20, false⟩
      else if c = 2 ∧ e = 5 then some ⟨0, 2, 5, 10, 10, true⟩ else none := by
    intro c e
    have hone := FakeTimerProvider.timer_setTimer
      (FakeTimerProvider.create.setTimer 2 5 10 true).2 1 7 20 false c e
    rw [FakeTimerProvider.timer_setTimer FakeTimerProvider.create 2 5 10 true c e] at hone
    refine hone.trans ?_
    split_ifs with hfirst hsecond
    · omega
    all_goals rfl
  have hregular : Regular 25 w.provider := by
    intro c e t ht hrepeat
    rw [htimer] at ht
    split_ifs at ht
    · obtain rfl := Option.some.inj ht
      cases hrepeat
    · obtain rfl := Option.some.inj ht
      decide
  obtain ⟨w', hadvance, hclock, ⟨turn, hturn, hsorted, hmem⟩, hsettled⟩ :=
    @advanceToTime_idle Unit idle w 25 (fun _ _ _ _ => ⟨(), rfl⟩) hkeyed hregular
  refine ⟨w', hadvance, hclock, ?_, turn, hturn, hsorted, ?_⟩
  · have hone := hsettled 1 7
    rw [htimer] at hone
    simpa [Settled] using hone
  · rw [hmem]
    exact ⟨⟨0, 2, 5, 10, 10, true⟩, 1, by rw [htimer]; rfl, by decide, by decide, by decide⟩

end Turn

end BluesTrading.TimerTrace
