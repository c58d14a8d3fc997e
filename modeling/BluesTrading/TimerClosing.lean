import BluesTrading.DayClock

namespace BluesTrading.TimerClosing

open BluesTrading.Foundations
open BluesTrading.OrderData
open BluesTrading.TimerProvider
open BluesTrading.TimerDelivery
open BluesTrading.DayClock

variable {σ : Type}

/-- A timer is set when its consumer, or one after it, has been told of the end of the day. -/
def SetTooLate (closing : List Event) (info : TimerInfo) : Prop :=
  ∃ called now set, List.Sublist [Event.onEndDay called now, Event.setTimer info set] closing ∧
    info.consumer ≤ called

/-- Whatever is set too late is cancelled before the last consumer has returned. -/
def CancelsLate (closing : List Event) : Prop :=
  ∀ info, SetTooLate closing info → Event.cancelTimer info ∈ closing

theorem setTooLate_append {closing events : List Event} {info : TimerInfo} :
    SetTooLate (closing ++ events) info ↔ SetTooLate closing info ∨ SetTooLate events info ∨
      (∃ set, Event.setTimer info set ∈ events) ∧
        ∃ called now, Event.onEndDay called now ∈ closing ∧ info.consumer ≤ called := by
  constructor
  · rintro ⟨called, now, set, hsub, hle⟩
    obtain ⟨front, back, hsplit, hfront, hback⟩ := List.sublist_append_iff.mp hsub
    rcases front with _ | ⟨first, front⟩
    · exact .inr (.inl ⟨called, now, set, hsplit ▸ hback, hle⟩)
    · rcases front with _ | ⟨second, front⟩
      · injection hsplit with hcalled hset
        subst hcalled hset
        exact .inr (.inr ⟨⟨set, List.singleton_sublist.mp hback⟩, called, now,
          List.singleton_sublist.mp hfront, hle⟩)
      · injection hsplit with hcalled hsplit
        injection hsplit with hset hrest
        subst hcalled hset
        obtain ⟨rfl, -⟩ := List.append_eq_nil_iff.mp hrest.symm
        exact .inl ⟨called, now, set, hfront, hle⟩
  · rintro (⟨called, now, set, hsub, hle⟩ | ⟨called, now, set, hsub, hle⟩ |
      ⟨⟨set, hset⟩, called, now, hcalled, hle⟩)
    · exact ⟨called, now, set, hsub.trans (List.sublist_append_left _ _), hle⟩
    · exact ⟨called, now, set, hsub.trans (List.sublist_append_right _ _), hle⟩
    · exact ⟨called, now, set, (List.singleton_sublist.mpr hcalled).append
        (List.singleton_sublist.mpr hset), hle⟩

theorem setTooLate_append_quiet {closing events : List Event}
    (hquiet : ∀ info set, Event.setTimer info set ∉ events) {info : TimerInfo} :
    SetTooLate (closing ++ events) info ↔ SetTooLate closing info := by
  rw [setTooLate_append, or_iff_left]
  rintro (⟨called, now, set, hsub, -⟩ | ⟨⟨set, hset⟩, -⟩)
  · exact hquiet info set (hsub.subset (List.mem_cons_of_mem _ (List.mem_singleton_self _)))
  · exact hquiet info set hset

theorem not_setTooLate_singleton {event : Event} {info : TimerInfo} :
    ¬ SetTooLate [event] info :=
  fun ⟨_, _, _, hsub, _⟩ => absurd hsub.length_le (by simp)

/-! ### The loop over the consumers -/

/-- The loop has called consumers up to `last`.  For these, the table has just what was set
too late and has not been cancelled. -/
structure Closing (v : World σ) (last : Option ℕ) (closing : List Event) (w : World σ) :
    Prop where
  log : w.log = v.log ++ closing
  keyed : w.provider.Keyed
  called : ∀ c now, Event.onEndDay c now ∈ closing → ∃ l ∈ last, c ≤ l
  told : ∀ l ∈ last, ∃ now, Event.onEndDay l now ∈ closing
  cancelled : ∀ gone, Event.cancelTimer gone ∈ closing → gone.address < w.provider.allocated
  late : ∀ c e t, w.provider.timer c e = some t → (∃ l ∈ last, c ≤ l) →
    SetTooLate closing t ∧ Event.cancelTimer t ∉ closing
  left : ∀ info, SetTooLate closing info → Event.cancelTimer info ∉ closing →
    w.provider.timer info.consumer info.eventid = some info

section Closing

variable {v w : World σ} {last : Option ℕ} {closing : List Event}

theorem Closing.initial (hkeyed : v.provider.Keyed) : Closing v none [] v where
  log := (List.append_nil _).symm
  keyed := hkeyed
  called := fun _ _ h => nomatch h
  told := fun _ h => nomatch h
  cancelled := fun _ h => nomatch h
  late := fun _ _ _ _ ⟨_, h, _⟩ => nomatch h
  left := fun _ ⟨_, _, _, hsub, _⟩ => nomatch hsub

theorem Closing.extend (h : Closing v last closing w) {w' : World σ} {events : List Event}
    (hlog : w'.log = w.log ++ events) (hkeyed : w'.provider.Keyed)
    (hallocated : w.provider.allocated ≤ w'.provider.allocated)
    (hcalls : ∀ c now, Event.onEndDay c now ∉ events)
    (hcancelled : ∀ gone, Event.cancelTimer gone ∈ events →
      gone.address < w'.provider.allocated)
    (hlate : ∀ c e t, w'.provider.timer c e = some t → (∃ l ∈ last, c ≤ l) →
      SetTooLate (closing ++ events) t ∧ Event.cancelTimer t ∉ closing ++ events)
    (hleft : ∀ info, SetTooLate (closing ++ events) info →
      Event.cancelTimer info ∉ closing ++ events →
      w'.provider.timer info.consumer info.eventid = some info) :
    Closing v last (closing ++ events) w' where
  log := by rw [hlog, h.log, List.append_assoc]
  keyed := hkeyed
  called := fun c now hcall =>
    h.called c now ((List.mem_append.mp hcall).resolve_right (hcalls c now))
  told := fun l hl => (h.told l hl).imp fun now hcall => List.mem_append_left _ hcall
  cancelled := fun gone hgone => (List.mem_append.mp hgone).elim
    (fun hgone => (h.cancelled gone hgone).trans_le hallocated) (hcancelled gone)
  late := hlate
  left := hleft

theorem Closing.setFree (h : Closing v last closing w) {w' : World σ} {info : TimerInfo} {now : ℕ}
    (hinfo : info.address = w.provider.allocated)
    (hfree : w.provider.timer info.consumer info.eventid = none)
    (hlog : w'.log = w.log ++ [.setTimer info now]) (hkeyed : w'.provider.Keyed)
    (hallocated : w.provider.allocated ≤ w'.provider.allocated)
    (htimer : ∀ c e, w'.provider.timer c e =
      if c = info.consumer ∧ e = info.eventid then some info else w.provider.timer c e) :
    Closing v last (closing ++ [.setTimer info now]) w' := by
  refine h.extend hlog hkeyed hallocated (by simp) (by simp) ?_ ?_
  · intro c e t ht hle
    rw [htimer] at ht
    split_ifs at ht with hkey
    · obtain rfl := Option.some.inj ht
      obtain ⟨l, hl, hle⟩ := hle
      obtain ⟨seen, hcall⟩ := h.told l hl
      refine ⟨setTooLate_append.mpr (.inr (.inr ⟨⟨now, List.mem_singleton_self _⟩, l, seen, hcall,
        hkey.1.symm.trans_le hle⟩)), fun hgone => ?_⟩
      have hfresh := h.cancelled info (by simpa using hgone)
      exact absurd hinfo hfresh.ne
    · obtain ⟨hlate, hgone⟩ := h.late c e t ht hle
      exact ⟨setTooLate_append.mpr (.inl hlate), by simpa using hgone⟩
  · intro info' hlate hgone
    rw [htimer]
    rcases setTooLate_append.mp hlate with hlate | hlate | ⟨⟨set, hset⟩, -⟩
    · have hold := h.left info' hlate (by simpa using hgone)
      rw [if_neg, hold]
      rintro ⟨hc, he⟩
      rw [hc, he, hfree] at hold
      cases hold
    · exact absurd hlate not_setTooLate_singleton
    · injection List.mem_singleton.mp hset with hset
      rw [hset, if_pos ⟨rfl, rfl⟩]

theorem Closing.setTimer (h : Closing v last closing w) (c e timeInMSFromNow : ℕ)
    (isRepeat : Bool) :
    ∃ closing', Closing v last closing' (w.setTimer c e timeInMSFromNow isRepeat).2 := by
  have hkeyed : (w.setTimer c e timeInMSFromNow isRepeat).2.provider.Keyed :=
    h.keyed.setTimer c e timeInMSFromNow isRepeat
  have hallocated : w.provider.allocated ≤
      (w.setTimer c e timeInMSFromNow isRepeat).2.provider.allocated :=
    (Nat.le_succ _).trans_eq (w.provider.allocated_setTimer c e timeInMSFromNow isRepeat).symm
  rcases setTimer_cases w c e timeInMSFromNow isRepeat with
    ⟨hlog, htimer⟩ | ⟨hfree, hlog, htimer⟩
  · refine ⟨closing ++ [], h.extend (hlog.trans (List.append_nil _).symm) hkeyed hallocated
      (by simp) (by simp) ?_ ?_⟩
    · intro c' e' t ht hle
      rw [List.append_nil]
      exact h.late c' e' t ((htimer c' e').symm.trans ht) hle
    · intro info hlate hgone
      rw [List.append_nil] at hlate hgone
      exact (htimer _ _).trans (h.left info hlate hgone)
  · exact ⟨_, h.setFree rfl hfree hlog hkeyed hallocated htimer⟩

theorem Closing.cancelTimer (h : Closing v last closing w) (c e : ℕ) :
    ∃ closing', Closing v last closing' (w.cancelTimer c e).2 := by
  have htimer : ∀ c' e', (w.cancelTimer c e).2.provider.timer c' e' =
      if c' = c ∧ e' = e then none else w.provider.timer c' e' :=
    w.provider.timer_cancelTimer c e
  have hset : ∀ info, SetTooLate (closing ++ (w.provider.timer c e).toList.map .cancelTimer) info ↔
      SetTooLate closing info :=
    fun info => setTooLate_append_quiet (by simp)
  refine ⟨closing ++ (w.provider.timer c e).toList.map .cancelTimer,
    h.extend rfl (h.keyed.cancelTimer c e) le_rfl (by simp) ?_ ?_ ?_⟩
  · intro gone hgone
    exact (h.keyed c e gone (by simpa using hgone)).2.2
  · intro c' e' t ht hle
    rw [htimer] at ht
    split_ifs at ht with hkey
    obtain ⟨hlate, hgone⟩ := h.late c' e' t ht hle
    refine ⟨(hset t).mpr hlate, fun hmem => ?_⟩
    rcases List.mem_append.mp hmem with hmem | hmem
    · exact hgone hmem
    · -- two timers of the table with the same contents are under the same event
      have hold : w.provider.timer c e = some t := by simpa using hmem
      obtain ⟨hc, he, -⟩ := h.keyed c e t hold
      obtain ⟨hc', he', -⟩ := h.keyed c' e' t ht
      exact hkey ⟨hc'.symm.trans hc, he'.symm.trans he⟩
  · intro info hlate hgone
    rw [List.mem_append, not_or] at hgone
    have hold := h.left info ((hset info).mp hlate) hgone.1
    rw [htimer]
    split_ifs with hkey
    · rw [hkey.1, hkey.2] at hold
      exact absurd (by simp [hold]) hgone.2
    · exact hold

theorem keptByCalls_closing (v : World σ) (last : Option ℕ) :
    KeptByCalls fun w => ∃ closing, Closing v last closing w where
  setTimer := fun _ c e timeInMSFromNow isRepeat ⟨_, h⟩ =>
    h.setTimer c e timeInMSFromNow isRepeat
  cancelTimer := fun _ c e ⟨_, h⟩ => h.cancelTimer c e
  state := fun _ _ ⟨closing, h⟩ =>
    ⟨closing, h.log, h.keyed, h.called, h.told, h.cancelled, h.late, h.left⟩

theorem Closing.next (h : Closing v last closing w) {consumer : ℕ}
    (hnext : w.provider.nextConsumer last = some consumer) (now : ℕ) :
    ∃ closing', Closing v (some consumer) closing'
      ((w.clearTimers consumer).record [.onEndDay consumer now]) := by
  obtain ⟨hafter, hskipped⟩ := FakeTimerProvider.nextConsumer_eq_some hnext
  set cleared := (w.provider.timersOf consumer).values.map Event.clearTimer with hcleared
  set w' := (w.clearTimers consumer).record [.onEndDay consumer now] with hw'
  have hlog : w'.log = w.log ++ cleared ++ [.onEndDay consumer now] := rfl
  have htimer : ∀ c e, w'.provider.timer c e =
      if c = consumer then none else w.provider.timer c e :=
    w.provider.timer_registerTimerConsumer consumer
  have hset : ∀ info, SetTooLate (closing ++ cleared ++ [.onEndDay consumer now]) info ↔
      SetTooLate closing info := by
    intro info
    rw [List.append_assoc]
    exact setTooLate_append_quiet (by simp [hcleared])
  have hgone : ∀ gone, Event.cancelTimer gone ∈ closing ++ cleared ++ [.onEndDay consumer now] ↔
      Event.cancelTimer gone ∈ closing := by
    simp [hcleared]
  refine ⟨closing ++ cleared ++ [.onEndDay consumer now], ?_⟩
  constructor
  · rw [hlog, h.log, List.append_assoc, List.append_assoc, List.append_assoc]
  · exact h.keyed.registerTimerConsumer consumer
  · intro c seen hcall
    refine ⟨consumer, rfl, ?_⟩
    have hcases : Event.onEndDay c seen ∈ closing ∨ c = consumer := by
      simp [hcleared] at hcall
      tauto
    rcases hcases with hcall | rfl
    · obtain ⟨l, hl, hle⟩ := h.called c seen hcall
      exact hle.trans (hafter l hl).le
    · exact le_rfl
  · rintro l ⟨⟩
    exact ⟨now, by simp⟩
  · exact fun gone hmem => h.cancelled gone ((hgone gone).mp hmem)
  · rintro c e t ht ⟨l, ⟨⟩, hle⟩
    rw [htimer] at ht
    split_ifs at ht with hc
    have hbefore := hskipped c (FakeTimerProvider.mem_keys_of_timer ht) (lt_of_le_of_ne hle hc)
    rw [hset, hgone]
    exact h.late c e t ht hbefore
  · intro info hlate hnot
    rw [hset] at hlate
    rw [hgone] at hnot
    rw [htimer, if_neg, h.left info hlate hnot]
    rintro rfl
    obtain ⟨called, seen, set, hsub, hle⟩ := hlate
    obtain ⟨l, hl, hcalled⟩ := h.called called seen (hsub.subset List.mem_cons_self)
    exact absurd (hafter l hl) (not_lt.mpr (hle.trans hcalled))

theorem closing_closeDate {consumers : Consumers σ} {fuel : ℕ} {w' : World σ}
    (hkeyed : v.provider.Keyed) (h : closeDate consumers fuel v = some w') :
    ∃ last closing, Closing v last closing w' ∧ w'.provider.nextConsumer last = none := by
  obtain ⟨⟨u, last⟩, hloop, rfl⟩ := Option.map_eq_some_iff.mp h
  suffices (∃ closing, Closing v last closing u) ∧ (u.provider.nextConsumer last).isSome = false by
    obtain ⟨⟨closing, hclosing⟩, hend⟩ := this
    exact ⟨last, closing, hclosing, by simpa using hend⟩
  refine whileLoop_invariant (I := fun s => ∃ closing, Closing v s.2 closing s.1) ?_ hloop
    ⟨[], .initial hkeyed⟩
  rintro ⟨w, last⟩ hsome ⟨closing, hw⟩
  obtain ⟨consumer, hnext⟩ := Option.isSome_iff_exists.mp hsome
  dsimp only at hnext ⊢
  rw [hnext]
  exact (keptByCalls_closing v (some consumer)).react _ (hw.next hnext _)

/-- When all consumers have been told, the table has just what was set too late. -/
theorem Closing.noTimer_iff (h : Closing v last closing w)
    (hend : w.provider.nextConsumer last = none) :
    (∀ c e, w.provider.timer c e = none) ↔ CancelsLate closing := by
  constructor
  · intro hnone info hlate
    by_contra hgone
    have hleft := h.left info hlate hgone
    rw [hnone] at hleft
    cases hleft
  · intro hcancels c e
    cases hfound : w.provider.timer c e with
    | none => rfl
    | some t =>
        have hcalled := FakeTimerProvider.nextConsumer_eq_none hend
          (FakeTimerProvider.mem_keys_of_timer hfound)
        obtain ⟨hlate, hgone⟩ := h.late c e t hfound hcalled
        exact absurd (hcancels t hlate) hgone

end Closing

/-! ### Timers of a later day -/

structure SetSince (n k : ℕ) (w : World σ) : Prop where
  length : k ≤ w.log.length
  allocated : n ≤ w.provider.allocated
  timer : ∀ c e t, w.provider.timer c e = some t → n ≤ t.address
  fired : ∀ t now, Event.onTimer t now ∈ w.log.drop k → n ≤ t.address

section SetSince

variable {w w' : World σ} {n k : ℕ}

theorem SetSince.extend (h : SetSince n k w) {events : List Event}
    (hlog : w'.log = w.log ++ events) (hallocated : n ≤ w'.provider.allocated)
    (htimer : ∀ c e t, w'.provider.timer c e = some t → n ≤ t.address)
    (hfired : ∀ t now, Event.onTimer t now ∈ events → n ≤ t.address) : SetSince n k w' where
  length := by
    rw [hlog, List.length_append]
    exact h.length.trans (Nat.le_add_right _ _)
  allocated := hallocated
  timer := htimer
  fired := by
    intro t now hmem
    rw [hlog, List.drop_append_of_le_length h.length] at hmem
    exact (List.mem_append.mp hmem).elim (h.fired t now) (hfired t now)

theorem keptByCalls_setSince (n k : ℕ) : KeptByCalls (σ := σ) (SetSince n k) where
  setTimer := by
    intro w c e timeInMSFromNow isRepeat h
    refine h.extend (log_setTimer w c e timeInMSFromNow isRepeat) ?_ ?_ ?_
    · exact h.allocated.trans ((Nat.le_succ _).trans_eq
        (w.provider.allocated_setTimer c e timeInMSFromNow isRepeat).symm)
    · intro c' e' t ht
      rcases timer_setTimer_cases w ht with ht | ⟨rfl, -⟩
      · exact h.timer c' e' t ht
      · exact h.allocated
    · split_ifs <;> simp
  cancelTimer := fun w c e h =>
    h.extend rfl h.allocated (fun c' e' t ht => h.timer c' e' t (timer_of_cancelTimer w ht))
      (by simp)
  state := fun _ _ h => ⟨h.length, h.allocated, h.timer, h.fired⟩

theorem keptBySteps_setSince (consumers : Consumers σ) (n k : ℕ) :
    KeptBySteps consumers (SetSince n k) where
  toKeptByCalls := keptByCalls_setSince n k
  clock := fun _ _ _ h => ⟨h.length, h.allocated, h.timer, h.fired⟩
  call := by
    intro w event hcall h
    refine h.extend rfl h.allocated h.timer ?_
    intro t now hmem
    obtain rfl := List.mem_singleton.mp hmem
    exact hcall.elim
  clearTimers := by
    intro w c h
    refine h.extend rfl h.allocated ?_ (by simp)
    intro c' e' t ht
    have htimer := w.provider.timer_registerTimerConsumer c c' e'
    change (w.provider.registerTimerConsumer c).timer c' e' = some t at ht
    rw [htimer] at ht
    split_ifs at ht
    exact h.timer c' e' t ht
  fireTimer := by
    intro w t ht h
    obtain ⟨⟨c, e, hte⟩, -⟩ := FakeTimerProvider.getNextTimer_spec ht
    have hcalled : SetSince n k (callOnTimer consumers w t) := by
      refine (keptByCalls_setSince n k).react _ (h.extend rfl h.allocated h.timer ?_)
      intro t' now hmem
      injection List.mem_singleton.mp hmem with ht'
      exact ht' ▸ h.timer c e t hte
    refine hcalled.extend (log_fireTimer consumers w t) ?_ ?_ (by simp)
    · exact hcalled.allocated.trans_eq (allocated_fireTimer consumers w t).symm
    · intro c' e' info hinfo
      rcases timer_of_fireTimer consumers hinfo with hinfo | ⟨-, -, old, hold, -, rfl⟩
      · exact hcalled.timer c' e' info hinfo
      · exact hcalled.timer c' e' old hold

def SetAllocated (w : World σ) : Prop :=
  ∀ info now, Event.setTimer info now ∈ w.log → info.address < w.provider.allocated

theorem keptByCalls_setAllocated : KeptByCalls (σ := σ) SetAllocated where
  setTimer := by
    intro w c e timeInMSFromNow isRepeat h info now hmem
    have hallocated := w.provider.allocated_setTimer c e timeInMSFromNow isRepeat
    rw [log_setTimer, List.mem_append] at hmem
    refine Nat.lt_of_lt_of_eq ?_ hallocated.symm
    rcases hmem with hmem | hmem
    · exact (h info now hmem).trans (Nat.lt_succ_self _)
    · split_ifs at hmem
      · cases List.mem_singleton.mp hmem
        exact Nat.lt_succ_self _
      · cases hmem
  cancelTimer := fun w c e h info now hmem =>
    h info now ((List.mem_append.mp hmem).resolve_right (by simp))
  state := fun _ _ h => h

theorem SetAllocated.record (h : SetAllocated w) {event : Event}
    (hevent : ∀ info now, event ≠ .setTimer info now) : SetAllocated (w.record [event]) := by
  intro info now hmem
  refine h info now ((List.mem_append.mp hmem).resolve_right fun hmem => ?_)
  exact hevent info now (List.mem_singleton.mp hmem).symm

theorem keptBySteps_setAllocated (consumers : Consumers σ) :
    KeptBySteps consumers SetAllocated where
  toKeptByCalls := keptByCalls_setAllocated
  clock := fun _ _ _ h => h
  call := fun w event hcall h => h.record (by rintro info now rfl; exact hcall)
  clearTimers := fun w c h info now hmem =>
    h info now ((List.mem_append.mp hmem).resolve_right (by simp))
  fireTimer := by
    intro w t _ h info now hmem
    have hcalled : SetAllocated (callOnTimer consumers w t) :=
      keptByCalls_setAllocated.react _ (SetAllocated.record h fun _ _ => by simp)
    rw [log_fireTimer, List.mem_append] at hmem
    rw [allocated_fireTimer]
    exact hcalled info now (hmem.resolve_right (by simp))

end SetSince

/-! ### What is left of a day -/

section EndDate

variable {consumers : Consumers σ} {w w' : World σ} {fuel date : ℕ}

/-- If the table is empty now, no timer that has been set before is ever delivered. -/
theorem not_delivered_of_noTimer (hset : SetAllocated w)
    (hnone : ∀ c e, w.provider.timer c e = none) {as : List Action}
    (hrun : Run (step consumers) (fun _ _ => True) w as w') {info fired : TimerInfo}
    {set now : ℕ} (hinfo : Event.setTimer info set ∈ w.log)
    (hfired : Event.onTimer fired now ∈ w'.log.drop w.log.length) :
    fired.address ≠ info.address := by
  have hstart : SetSince w.provider.allocated w.log.length w := by
    refine ⟨le_rfl, le_rfl, fun c e t ht => ?_, fun t now hmem => ?_⟩
    · rw [hnone] at ht
      cases ht
    · rw [List.drop_length] at hmem
      cases hmem
  have hend := hrun.invariant
    (fun _ _ _ _ htake => (keptBySteps_setSince consumers _ _).step htake) hstart
  have hlate := hend.fired fired now hfired
  have hearly := hset info set hinfo
  omega

/-- After the end of a day no timer is pending if and only if whatever has been set too late
was cancelled, and then no timer of that day or an earlier one is delivered later. -/
theorem endDate_noTimer_iff {state : σ} {as : List Action}
    (hrun : Run (step consumers) (fun _ _ => True) (initial state) as w)
    (hcurrent : date = w.provider.currentDate) (hdate : date ≠ 0)
    (hend : endDate consumers fuel date w = some w') :
    ∃ v closing, advanceToTime consumers fuel lastMs w = some v ∧
      closeDate consumers fuel v = some w' ∧ w'.log = v.log ++ closing ∧
      ((∀ c e, w'.provider.timer c e = none) ↔ CancelsLate closing) ∧
      (CancelsLate closing → ∀ bs u, Run (step consumers) (fun _ _ => True) w' bs u →
        ∀ info set, Event.setTimer info set ∈ w'.log →
          ∀ fired now, Event.onTimer fired now ∈ u.log.drop w'.log.length →
            fired.address ≠ info.address) := by
  have htake : step consumers w (.endDate fuel date) = some w' := hend
  have hset : SetAllocated w' := by
    have hbefore : SetAllocated w := hrun.invariant
      (fun _ _ _ _ htake => (keptBySteps_setAllocated consumers).step htake)
      (fun _ _ h => nomatch h)
    exact (keptBySteps_setAllocated consumers).step htake hbefore
  rw [endDate, if_pos ⟨hcurrent, hdate⟩] at hend
  obtain ⟨v, hadvance, hclose⟩ := Option.bind_eq_some_iff.mp hend
  have hkeyed : v.provider.Keyed :=
    (keptBySteps_keyed consumers).advanceToTime hadvance (keyed_of_run hrun)
  obtain ⟨last, closing, hclosing, hlast⟩ := closing_closeDate hkeyed hclose
  refine ⟨v, closing, hadvance, hclose, hclosing.log, hclosing.noTimer_iff hlast, ?_⟩
  intro hcancels bs u hrun info set hinfo fired now hfired
  exact not_delivered_of_noTimer hset ((hclosing.noTimer_iff hlast).mpr hcancels) hrun hinfo hfired

end EndDate

/-! ### Sample days -/

def closingWith (onEndDay : ℕ → Reaction Unit) : Consumers Unit :=
  { idle with onEndDay := fun _ consumer _ _ => onEndDay consumer }

/-- The first of two consumers sets a timer for the second, which is still to be cleared. -/
def settingForSecond : Consumers Unit :=
  closingWith fun consumer =>
    if consumer = 1 then .setTimer 2 7 0 false fun _ => .done () else .done ()

theorem endDate_noTimer_settingForSecond :
    ∃ w w', Run (step settingForSecond) (fun _ _ => True) (initial ())
        [.registerTimerConsumer 1, .registerTimerConsumer 2, .startDate 3 20140102] w ∧
      endDate settingForSecond 3 20140102 w = some w' ∧
      Event.setTimer ⟨0, 2, 7, lastMs, 0, false⟩ lastMs ∈ w'.log ∧
      ∀ c e, w'.provider.timer c e = none := by
  let actions : List Action :=
    [.registerTimerConsumer 1, .registerTimerConsumer 2, .startDate 3 20140102]
  let w := (Run.execute (step settingForSecond) (fun _ _ => True) (initial ()) actions).get
    (by decide +kernel)
  let w' := (endDate settingForSecond 3 20140102 w).get (by decide +kernel)
  have hrun : Run (step settingForSecond) (fun _ _ => True) (initial ()) actions w :=
    Run.of_execute (Option.some_get _).symm
  have hend : endDate settingForSecond 3 20140102 w = some w' := (Option.some_get _).symm
  have hlog : w'.log = [.onStartDay 1 0, .onStartDay 2 0, .onEndDay 1 lastMs,
      .setTimer ⟨0, 2, 7, lastMs, 0, false⟩ lastMs, .clearTimer ⟨0, 2, 7, lastMs, 0, false⟩,
      .onEndDay 2 lastMs] := by decide +kernel
  refine ⟨w, w', hrun, hend, by simp [hlog], ?_⟩
  obtain ⟨v, closing, hadvance, -, hclosing, hiff, -⟩ :=
    endDate_noTimer_iff hrun (by decide +kernel) (by decide) hend
  refine hiff.mpr fun info hlate => ?_
  have hlate : SetTooLate w'.log info :=
    hclosing ▸ setTooLate_append.mpr (.inr (.inl hlate))
  rw [hlog] at hlate
  obtain ⟨called, now, set, hsub, hle⟩ := hlate
  -- the only timer is set for a consumer that has not been told yet
  have hpair : called = 1 ∧ info = ⟨0, 2, 7, lastMs, 0, false⟩ := by
    simp [List.sublist_cons_iff] at hsub
    exact ⟨hsub.1.1, hsub.2.1⟩
  rw [hpair.1, hpair.2] at hle
  exact absurd hle (by decide)

def settingForItself : Consumers Unit :=
  closingWith fun consumer => .setTimer consumer 7 0 false fun _ => .done ()

/-- A timer that a consumer sets for itself when the day has ended goes off on the next day. -/
theorem not_noTimer_settingForItself :
    let late : TimerInfo := ⟨0, 1, 7, lastMs, 0, false⟩
    ∃ w w' u, Run (step settingForItself) (fun _ _ => True) (initial ())
        [.registerTimerConsumer 1, .startDate 2 20140102] w ∧
      20140102 = w.provider.currentDate ∧
      endDate settingForItself 2 20140102 w = some w' ∧
      w'.provider.timer 1 7 = some late ∧
      Run (step settingForItself) (fun _ _ => True) w'
        [.startDate 2 20140103, .endDate 2 20140103] u ∧
      Event.setTimer late lastMs ∈ w'.log ∧
      Event.onTimer late lastMs ∈ u.log.drop w'.log.length := by
  intro late
  let w := (Run.execute (step settingForItself) (fun _ _ => True) (initial ())
    [.registerTimerConsumer 1, .startDate 2 20140102]).get (by decide +kernel)
  let w' := (endDate settingForItself 2 20140102 w).get (by decide +kernel)
  let u := (Run.execute (step settingForItself) (fun _ _ => True) w'
    [.startDate 2 20140103, .endDate 2 20140103]).get (by decide +kernel)
  refine ⟨w, w', u, Run.of_execute (Option.some_get _).symm, by decide +kernel,
    (Option.some_get _).symm, by decide +kernel, Run.of_execute (Option.some_get _).symm,
    by decide +kernel, by decide +kernel⟩

end BluesTrading.TimerClosing
