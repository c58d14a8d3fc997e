import BluesTrading.TradingCalendar
import BluesTrading.Foundations.Runs
import Mathlib.Data.Multiset.Filter
import Mathlib.Data.Multiset.UnionInter

/-!
The schedule of a backtest.  A loader posts one task for every day and strategy
instance; workers take tasks in any order and post those back whose day is not the
next working day of their instance.  Every instance replays the weekdays of the
test in order, whatever the interleaving.
-/

namespace BluesTrading.DayReplaySchedule

open Foundations
open TradingCalendar

/-- A posted call of `runDataOnDay`: the instance and the date of its data. -/
structure Task where
  inst : ℕ
  date : ℕ
  deriving DecidableEq

structure TestInst where
  currentDate : ℕ
  replayed : List ℕ
  deriving DecidableEq

structure State where
  allStrInst : List TestInst
  /-- The day the loader has come to. -/
  date : ℕ
  /-- The next instance to post the task of that day for, while it is being posted. -/
  posting : Option ℕ
  queued : Multiset Task
  taken : Multiset Task
  replaying : Multiset Task
  rejected : Multiset Task
  deriving DecidableEq

namespace State

def busy (s : State) : Multiset Task := s.taken + s.replaying + s.rejected

def outstanding (s : State) : Multiset Task := s.queued + s.busy

end State

inductive Action where
  | load
  | take (task : Task)
  | runDataOnDay (task : Task)
  | finishReplay (task : Task)
  | post (task : Task)
  deriving DecidableEq

section Steps

variable (cal : Calendar) (finish workers : ℕ)

/-- The loader skips a weekend day, begins a weekday, posts its task for one more
instance, or goes on to the following day. -/
def load (s : State) : Option State :=
  match s.posting with
  | none =>
      if s.date < finish then
        if isWeekend cal s.date then some { s with date := s.date + 1 }
        else some { s with posting := some 0 }
      else none
  | some i =>
      if i < s.allStrInst.length then
        (getNumFromDate cal s.date).map fun dateint =>
          { s with queued := ⟨i, dateint⟩ ::ₘ s.queued, posting := some (i + 1) }
      else some { s with date := s.date + 1, posting := none }

def take (s : State) (task : Task) : Option State :=
  if task ∈ s.queued ∧ s.busy.card < workers then
    some { s with queued := s.queued.erase task, taken := task ::ₘ s.taken }
  else none

/-- A worker compares the date of its task with the next working day of the instance. -/
def runDataOnDay (s : State) (task : Task) : Option State :=
  if task ∈ s.taken then
    s.allStrInst[task.inst]?.bind fun inst =>
      (getNextWorkingDay cal inst.currentDate).map fun targetDate =>
        if targetDate = task.date then
          { s with taken := s.taken.erase task, replaying := task ::ₘ s.replaying }
        else { s with taken := s.taken.erase task, rejected := task ::ₘ s.rejected }
  else none

/-- The replay of a day ends: the day becomes the instance's current date. -/
def finishReplay (s : State) (task : Task) : Option State :=
  if task ∈ s.replaying then
    some { s with
      allStrInst := s.allStrInst.modify task.inst fun inst =>
        { currentDate := task.date, replayed := inst.replayed ++ [task.date] }
      replaying := s.replaying.erase task }
  else none

def post (s : State) (task : Task) : Option State :=
  if task ∈ s.rejected then
    some { s with queued := task ::ₘ s.queued, rejected := s.rejected.erase task }
  else none

def step (s : State) : Action → Option State
  | .load => load cal finish s
  | .take task => take workers s task
  | .runDataOnDay task => runDataOnDay cal s task
  | .finishReplay task => finishReplay s task
  | .post task => post s task

def Finished (s : State) : Prop :=
  s.posting = none ∧ finish ≤ s.date ∧ s.outstanding = 0

end Steps

/-- One instance for each configuration, its current date the day before the start. -/
def createInsts (cal : Calendar) (startDate : ℕ) : ℕ → Option (List TestInst)
  | 0 => some []
  | configs + 1 => do
      let startday ← getDateFromNum cal startDate
      let preday_of_start_day ← dayBefore startday
      let currentDate ← getNumFromDate cal preday_of_start_day
      let insts ← createInsts cal startDate configs
      return ⟨currentDate, []⟩ :: insts

def Init (cal : Calendar) (startDate configs : ℕ) : Option State := do
  let start ← getDateFromNum cal startDate
  let insts ← createInsts cal startDate configs
  return ⟨insts, start, none, 0, 0, 0, 0⟩

def datesOf (i : ℕ) (tasks : Multiset Task) : Multiset ℕ :=
  (tasks.filter fun task => task.inst = i).map Task.date

def inReplay (s : State) (i : ℕ) : Multiset ℕ := datesOf i s.replaying

section Dates

variable (i : ℕ) (tasks tasks' : Multiset Task) (task : Task)

@[simp] theorem datesOf_zero : datesOf i 0 = 0 := rfl

@[simp] theorem datesOf_add : datesOf i (tasks + tasks') = datesOf i tasks + datesOf i tasks' := by
  simp [datesOf]

@[simp] theorem datesOf_cons :
    datesOf i (task ::ₘ tasks) =
      if task.inst = i then task.date ::ₘ datesOf i tasks else datesOf i tasks := by
  split_ifs with h <;> simp [datesOf, h]

theorem mem_datesOf (h : task ∈ tasks) : task.date ∈ datesOf task.inst tasks :=
  Multiset.mem_map.mpr ⟨task, Multiset.mem_filter.mpr ⟨h, rfl⟩, rfl⟩

end Dates

theorem load_allStrInst {cal : Calendar} {finish : ℕ} {s t : State}
    (hstep : load cal finish s = some t) : t.allStrInst = s.allStrInst := by
  unfold load at hstep
  split at hstep
  · split_ifs at hstep <;> exact Option.some.inj hstep ▸ rfl
  · split_ifs at hstep
    · obtain ⟨dateint, -, rfl⟩ := Option.map_eq_some_iff.mp hstep
      rfl
    · exact Option.some.inj hstep ▸ rfl

/-! ### What the steps of a worker leave as it is -/

structure Handed (s t : State) : Prop where
  date : t.date = s.date
  posting : t.posting = s.posting
  allStrInst : t.allStrInst = s.allStrInst
  outstanding : t.outstanding = s.outstanding

section Handed

variable {s t : State} {task : Task}

theorem handed_take {workers : ℕ} (hstep : take workers s task = some t) :
    Handed s t ∧ t.replaying = s.replaying := by
  unfold take at hstep
  split_ifs at hstep with htake
  obtain rfl := Option.some.inj hstep
  obtain ⟨queued, hqueued⟩ := Multiset.exists_cons_of_mem htake.1
  refine ⟨⟨rfl, rfl, rfl, ?_⟩, rfl⟩
  simp [State.outstanding, State.busy, hqueued, Multiset.cons_add]

theorem handed_runDataOnDay {cal : Calendar} (hstep : runDataOnDay cal s task = some t) :
    Handed s t := by
  unfold runDataOnDay at hstep
  split_ifs at hstep with htaken
  obtain ⟨inst, -, hstep⟩ := Option.bind_eq_some_iff.mp hstep
  obtain ⟨targetDate, -, rfl⟩ := Option.map_eq_some_iff.mp hstep
  obtain ⟨taken, htake⟩ := Multiset.exists_cons_of_mem htaken
  split_ifs with hdate
  · refine ⟨rfl, rfl, rfl, ?_⟩
    simp [State.outstanding, State.busy, htake, Multiset.cons_add, Multiset.add_cons]
  · refine ⟨rfl, rfl, rfl, ?_⟩
    simp [State.outstanding, State.busy, htake, Multiset.cons_add, Multiset.add_cons]

theorem handed_post (hstep : post s task = some t) : Handed s t ∧ t.replaying = s.replaying := by
  unfold post at hstep
  split_ifs at hstep with hpost
  obtain rfl := Option.some.inj hstep
  obtain ⟨rejected, hrejected⟩ := Multiset.exists_cons_of_mem hpost
  refine ⟨⟨rfl, rfl, rfl, ?_⟩, rfl⟩
  simp [State.outstanding, State.busy, hrejected, Multiset.cons_add, Multiset.add_cons]

theorem finishReplay_spec (hstep : finishReplay s task = some t) :
    t.date = s.date ∧ t.posting = s.posting ∧
      t.allStrInst = s.allStrInst.modify task.inst (fun inst =>
        { currentDate := task.date, replayed := inst.replayed ++ [task.date] }) ∧
      s.replaying = task ::ₘ t.replaying ∧ s.outstanding = task ::ₘ t.outstanding := by
  unfold finishReplay at hstep
  split_ifs at hstep with hreplaying
  obtain rfl := Option.some.inj hstep
  obtain ⟨replaying, hreplay⟩ := Multiset.exists_cons_of_mem hreplaying
  refine ⟨rfl, rfl, rfl, ?_, ?_⟩
  · simp [hreplay]
  · simp [State.outstanding, State.busy, hreplay, Multiset.cons_add, Multiset.add_cons]

end Handed

/-! ### One instance -/

section Instance

variable (cal : Calendar) (eve : ℕ)

/-- The weekdays whose task for an instance has been posted; the first day of the test is
the one after `eve`. -/
def postedDays (s : State) (i : ℕ) : List ℕ :=
  weekdays cal (eve + 1) s.date ++
    match s.posting with
    | none => []
    | some next => if i < next then [s.date] else []

/-- Of the posted days of an instance the first ones are replayed, and the others are
outstanding; the one in replay, if any, is the first of these. -/
structure Progress (s : State) (i : ℕ) (inst : TestInst) (pre post : List ℕ) : Prop where
  posted : postedDays cal eve s i = pre ++ post
  replayed : inst.replayed = pre.map (dateNumber cal)
  currentDate : ∃ day, (eve :: pre).getLast? = some day ∧ inst.currentDate = dateNumber cal day
  outstanding : datesOf i s.outstanding = (post.map (dateNumber cal) : Multiset ℕ)
  inReplay : inReplay s i = 0 ∨
    ∃ day rest, post = day :: rest ∧ inReplay s i = {dateNumber cal day}

variable {cal eve}

theorem Progress.congr {s t : State} {i : ℕ} {inst : TestInst} {pre post : List ℕ}
    (h : Progress cal eve s i inst pre post)
    (hposted : postedDays cal eve t i = postedDays cal eve s i)
    (houtstanding : datesOf i t.outstanding = datesOf i s.outstanding)
    (hreplay : DayReplaySchedule.inReplay t i = DayReplaySchedule.inReplay s i) :
    Progress cal eve t i inst pre post where
  posted := hposted.trans h.posted
  replayed := h.replayed
  currentDate := h.currentDate
  outstanding := houtstanding.trans h.outstanding
  inReplay := by
    rw [hreplay]
    exact h.inReplay

theorem postedDays_congr {s t : State} (hdate : t.date = s.date) (hposting : t.posting = s.posting)
    (i : ℕ) : postedDays cal eve t i = postedDays cal eve s i := by
  rw [postedDays, postedDays, hdate, hposting]

theorem Progress.handed {s t : State} {i : ℕ} {inst : TestInst} {pre post : List ℕ}
    (h : Progress cal eve s i inst pre post) (hhanded : Handed s t)
    (hreplay : DayReplaySchedule.inReplay t i = DayReplaySchedule.inReplay s i) :
    Progress cal eve t i inst pre post :=
  h.congr (postedDays_congr hhanded.date hhanded.posting i) (by rw [hhanded.outstanding]) hreplay

theorem Progress.addTask {s : State} {i : ℕ} {inst : TestInst} {pre post : List ℕ}
    (h : Progress cal eve s i inst pre post) (hposting : s.posting = some i) :
    Progress cal eve
      { s with queued := ⟨i, dateNumber cal s.date⟩ ::ₘ s.queued, posting := some (i + 1) }
      i inst pre (post ++ [s.date]) where
  posted := by
    have hposted := h.posted
    simp only [postedDays, hposting, lt_self_iff_false, if_false, List.append_nil] at hposted
    simp [postedDays, hposted]
  replayed := h.replayed
  currentDate := h.currentDate
  outstanding := by
    have houtstanding := h.outstanding
    simp only [State.outstanding, datesOf_add] at houtstanding
    simp only [State.outstanding, datesOf_add, datesOf_cons, if_true, Multiset.cons_add]
    change dateNumber cal s.date ::ₘ (datesOf i s.queued + datesOf i s.busy) = _
    rw [houtstanding, Multiset.cons_coe, List.map_append]
    exact Multiset.coe_eq_coe.mpr (List.perm_append_singleton _ _).symm
  inReplay := h.inReplay.imp_right fun ⟨day, rest, hpost, hreplay⟩ =>
    ⟨day, rest ++ [s.date], by rw [hpost, List.cons_append], hreplay⟩

theorem Progress.load {s t : State} {finish i : ℕ} {inst : TestInst} {pre post : List ℕ}
    (h : Progress cal eve s i inst pre post) (hstart : eve + 1 ≤ s.date)
    (hposting : ∀ next, s.posting = some next → isWeekend cal s.date = false)
    (hinst : i < s.allStrInst.length) (hstep : load cal finish s = some t) :
    ∃ post', Progress cal eve t i inst pre post' := by
  obtain ⟨insts, date, posting, queued, taken, replaying, rejected⟩ := s
  have hsucc : weekdays cal (eve + 1) (date + 1) =
      weekdays cal (eve + 1) date ++ if isWeekend cal date then [] else [date] := by
    rw [weekdays_append cal hstart (Nat.le_succ date), weekdays_cons cal (Nat.lt_succ_self date),
      weekdays_self, List.append_nil]
  cases posting with
  | none =>
      simp only [DayReplaySchedule.load] at hstep
      split_ifs at hstep with hdate hweekend
      · obtain rfl := Option.some.inj hstep
        refine ⟨post, h.congr ?_ rfl rfl⟩
        rw [hweekend] at hsucc
        simpa [postedDays] using hsucc
      · obtain rfl := Option.some.inj hstep
        exact ⟨post, h.congr (by simp [postedDays]) rfl rfl⟩
  | some next =>
      simp only [DayReplaySchedule.load] at hstep
      split_ifs at hstep with hnext
      · obtain ⟨dateint, hdateint, rfl⟩ := Option.map_eq_some_iff.mp hstep
        obtain ⟨-, rfl⟩ := eq_dateNumber_of_getNumFromDate hdateint
        by_cases hi : next = i
        · subst hi
          exact ⟨post ++ [date], h.addTask rfl⟩
        · have hlt : i < next + 1 ↔ i < next := by omega
          refine ⟨post, h.congr ?_ ?_ rfl⟩
          · simp [postedDays, hlt]
          · simp [State.outstanding, State.busy, hi]
      · obtain rfl := Option.some.inj hstep
        refine ⟨post, h.congr ?_ rfl rfl⟩
        rw [hposting next rfl] at hsucc
        have hlt : i < next := lt_of_lt_of_le hinst (not_lt.mp hnext)
        simpa [postedDays, hlt] using hsucc

theorem Progress.nodup {s : State} {finish i : ℕ} {inst : TestInst} {pre post : List ℕ}
    (h : Progress cal eve s i inst pre post) (hfinish : finish ≤ cal.last)
    (hposted : postedDays cal eve s i <+: weekdays cal (eve + 1) finish) :
    (datesOf i s.outstanding).Nodup := by
  rw [h.outstanding, Multiset.coe_nodup]
  have hsub : post.Sublist (weekdays cal (eve + 1) finish) := by
    have hsuffix : post <:+ postedDays cal eve s i := ⟨pre, h.posted.symm⟩
    exact hsuffix.sublist.trans hposted.sublist
  refine List.Nodup.map_on ?_ (((weekdays_sorted cal (eve + 1) finish).sublist hsub).imp ne_of_lt)
  intro d hd e he heq
  exact dateNumber_inj (le_last_of_mem_weekdays hfinish (hsub.subset hd))
    (le_last_of_mem_weekdays hfinish (hsub.subset he)) heq

theorem Progress.getNextWorkingDay {s : State} {finish i : ℕ} {inst : TestInst}
    {pre rest : List ℕ} {day : ℕ} (h : Progress cal eve s i inst pre (day :: rest))
    (hfinish : finish ≤ cal.last)
    (hposted : postedDays cal eve s i <+: weekdays cal (eve + 1) finish) :
    getNextWorkingDay cal inst.currentDate = some (dateNumber cal day) := by
  obtain ⟨later, hlater⟩ := hposted
  rw [h.posted, List.append_assoc, List.cons_append] at hlater
  obtain ⟨current, hlast, hcurrent⟩ := h.currentDate
  rw [hcurrent]
  exact getNextWorkingDay_of_split hfinish hlater.symm hlast

theorem Progress.post_ne_nil {s : State} {i : ℕ} {inst : TestInst} {pre post : List ℕ}
    {task : Task} (h : Progress cal eve s i inst pre post) (hi : task.inst = i)
    (htask : task ∈ s.outstanding) : ∃ day rest, post = day :: rest := by
  cases post with
  | nil =>
      have hdate := mem_datesOf s.outstanding task htask
      rw [hi, h.outstanding] at hdate
      cases hdate
  | cons day rest => exact ⟨day, rest, rfl⟩

/-- When a task is found to come next, no other day of its instance is in replay. -/
theorem Progress.inReplay_eq_zero {s : State} {finish : ℕ} {inst : TestInst}
    {rest pre : List ℕ} {day : ℕ} {task : Task}
    (h : Progress cal eve s task.inst inst pre (day :: rest))
    (hfinish : finish ≤ cal.last)
    (hposted : postedDays cal eve s task.inst <+: weekdays cal (eve + 1) finish)
    (htaken : task ∈ s.taken) (hday : task.date = dateNumber cal day) :
    DayReplaySchedule.inReplay s task.inst = 0 := by
  have hnodup := h.nodup hfinish hposted
  rcases h.inReplay with hidle | ⟨day', rest', hpost, hreplay⟩
  · exact hidle
  · obtain ⟨rfl, rfl⟩ := List.cons.inj hpost
    obtain ⟨taken, htake⟩ := Multiset.exists_cons_of_mem htaken
    rw [DayReplaySchedule.inReplay] at hreplay
    simp [State.outstanding, State.busy, htake, hreplay, hday] at hnodup

theorem Progress.runDataOnDay {s t : State} {finish i : ℕ} {inst : TestInst}
    {pre post : List ℕ} {task : Task} (h : Progress cal eve s i inst pre post)
    (hfinish : finish ≤ cal.last)
    (hposted : postedDays cal eve s i <+: weekdays cal (eve + 1) finish)
    (hinst : s.allStrInst[i]? = some inst)
    (hstep : runDataOnDay cal s task = some t) : Progress cal eve t i inst pre post := by
  have hhanded := handed_runDataOnDay hstep
  unfold DayReplaySchedule.runDataOnDay at hstep
  split_ifs at hstep with htaken
  obtain ⟨inst', hinst', hstep⟩ := Option.bind_eq_some_iff.mp hstep
  obtain ⟨targetDate, htarget, rfl⟩ := Option.map_eq_some_iff.mp hstep
  split_ifs at hhanded ⊢ with hdate
  · by_cases hi : task.inst = i
    · subst hi
      obtain rfl := Option.some.inj (hinst'.symm.trans hinst)
      obtain ⟨day, rest, rfl⟩ := h.post_ne_nil rfl (by simp [State.outstanding, State.busy, htaken])
      rw [h.getNextWorkingDay hfinish hposted] at htarget
      have hday : task.date = dateNumber cal day := hdate.symm.trans (Option.some.inj htarget).symm
      have hidle := h.inReplay_eq_zero hfinish hposted htaken hday
      refine ⟨h.posted, h.replayed, h.currentDate, ?_, .inr ⟨day, rest, rfl, ?_⟩⟩
      · rw [hhanded.outstanding, h.outstanding]
      · rw [DayReplaySchedule.inReplay] at hidle ⊢
        simp [hidle, hday]
    · exact h.handed hhanded (by simp [DayReplaySchedule.inReplay, hi])
  · exact h.handed hhanded rfl

theorem Progress.finishReplay {s t : State} {i : ℕ} {inst : TestInst}
    {pre post : List ℕ} {task : Task} (h : Progress cal eve s i inst pre post)
    (hinst : s.allStrInst[i]? = some inst)
    (hstep : finishReplay s task = some t) :
    ∃ inst' pre' post', t.allStrInst[i]? = some inst' ∧ Progress cal eve t i inst' pre' post' := by
  obtain ⟨hdate, hposting, hinsts, hreplay, htasks⟩ := finishReplay_spec hstep
  have hposted : postedDays cal eve t i = postedDays cal eve s i :=
    postedDays_congr hdate hposting i
  by_cases hi : task.inst = i
  · subst hi
    have hdates : task.date ::ₘ DayReplaySchedule.inReplay t task.inst =
        DayReplaySchedule.inReplay s task.inst := by
      rw [DayReplaySchedule.inReplay, DayReplaySchedule.inReplay, hreplay, datesOf_cons, if_pos rfl]
    rcases h.inReplay with hidle | ⟨day, rest, rfl, hday⟩
    · rw [hidle] at hdates
      exact absurd hdates (Multiset.cons_ne_zero)
    · obtain ⟨hday, hidle⟩ := (Multiset.singleton_eq_cons_iff _).mp (hday.symm.trans hdates.symm)
      refine ⟨⟨task.date, inst.replayed ++ [task.date]⟩, pre ++ [day], rest, ?_,
        ?_, ?_, ⟨day, ?_, hday.symm⟩, ?_, .inl hidle⟩
      · simp [hinsts, hinst]
      · rw [hposted, h.posted]
        exact List.append_cons pre day rest
      · simp [h.replayed, hday]
      · rw [← List.cons_append, List.getLast?_concat]
      · have houtstanding := h.outstanding
        rw [htasks, datesOf_cons, if_pos rfl, List.map_cons, ← Multiset.cons_coe, hday]
          at houtstanding
        exact (Multiset.cons_inj_right task.date).mp houtstanding
  · refine ⟨inst, pre, post, ?_, h.congr hposted ?_ ?_⟩
    · simp [hinsts, hinst, hi]
    · rw [htasks, datesOf_cons, if_neg hi]
    · rw [DayReplaySchedule.inReplay, DayReplaySchedule.inReplay, hreplay, datesOf_cons, if_neg hi]

end Instance

/-! ### Every interleaving -/

section Runs

variable (cal : Calendar) (eve finish : ℕ)

structure Inv (s : State) : Prop where
  start_le : eve + 1 ≤ s.date
  date_le : s.date ≤ finish ∨ s.date = eve + 1
  posting : ∀ next, s.posting = some next → s.date < finish ∧ isWeekend cal s.date = false
  progress : ∀ i inst, s.allStrInst[i]? = some inst →
    ∃ pre post, Progress cal eve s i inst pre post
  owned : ∀ task ∈ s.outstanding, task.inst < s.allStrInst.length

variable {cal eve finish}

theorem Inv.postedDays_prefix {s : State} (h : Inv cal eve finish s) (i : ℕ) :
    postedDays cal eve s i <+: weekdays cal (eve + 1) finish := by
  rw [postedDays]
  cases hposting : s.posting with
  | none =>
      rw [List.append_nil]
      rcases h.date_le with hdate | hdate
      · rw [weekdays_append cal h.start_le hdate]
        exact List.prefix_append _ _
      · rw [hdate, weekdays_self]
        exact List.nil_prefix
  | some next =>
      obtain ⟨hdate, hweekday⟩ := h.posting next hposting
      rw [weekdays_append cal h.start_le hdate.le, List.prefix_append_right_inj,
        weekdays_cons cal hdate, hweekday]
      by_cases hi : i < next
      · simp [hi]
      · simp [hi]

theorem Inv.postedDays_eq {s : State} (h : Inv cal eve finish s) (hposting : s.posting = none)
    (hend : finish ≤ s.date) (i : ℕ) : postedDays cal eve s i = weekdays cal (eve + 1) finish := by
  rw [postedDays, hposting, List.append_nil]
  rcases h.date_le with hdate | hdate
  · rw [le_antisymm hdate hend]
  · rw [hdate, weekdays_self, weekdays, Nat.sub_eq_zero_of_le (hdate ▸ hend)]
    rfl

theorem inv_load {s t : State} (hstep : load cal finish s = some t) (h : Inv cal eve finish s) :
    Inv cal eve finish t := by
  have hprogress : ∀ i inst, s.allStrInst[i]? = some inst →
      ∃ pre post, Progress cal eve t i inst pre post := by
    intro i inst hinst
    obtain ⟨pre, post, hp⟩ := h.progress i inst hinst
    have hweekday := fun next hnext => (h.posting next hnext).2
    exact ⟨pre, hp.load h.start_le hweekday (List.getElem?_eq_some_iff.mp hinst).1 hstep⟩
  have hstart := h.start_le
  have howned := h.owned
  unfold load at hstep
  split at hstep
  next hposting =>
    split_ifs at hstep with hdate hweekend
    · obtain rfl := Option.some.inj hstep
      have hnone : ∀ next, s.posting = some next → False := by simp [hposting]
      exact ⟨Nat.le_succ_of_le hstart, .inl hdate, fun next hnext => (hnone next hnext).elim,
        hprogress, howned⟩
    · obtain rfl := Option.some.inj hstep
      exact ⟨hstart, .inl hdate.le, fun _ _ => ⟨hdate, by simpa using hweekend⟩, hprogress, howned⟩
  next next hposting =>
    obtain ⟨hdate, hweekday⟩ := h.posting next hposting
    split_ifs at hstep with hnext
    · obtain ⟨dateint, -, rfl⟩ := Option.map_eq_some_iff.mp hstep
      refine ⟨hstart, .inl hdate.le, fun _ _ => ⟨hdate, hweekday⟩, hprogress, ?_⟩
      intro task htask
      simp only [State.outstanding, Multiset.cons_add] at htask
      rcases Multiset.mem_cons.mp htask with rfl | htask
      · exact hnext
      · exact howned task htask
    · obtain rfl := Option.some.inj hstep
      exact ⟨Nat.le_succ_of_le hstart, .inl hdate, fun _ hnone => absurd hnone (by simp), hprogress,
        howned⟩

theorem Inv.of_handed {s t : State} (h : Inv cal eve finish s) (hhanded : Handed s t)
    (hprogress : ∀ i inst pre post, s.allStrInst[i]? = some inst →
      Progress cal eve s i inst pre post → Progress cal eve t i inst pre post) :
    Inv cal eve finish t where
  start_le := hhanded.date ▸ h.start_le
  date_le := hhanded.date ▸ h.date_le
  posting := by
    rw [hhanded.date, hhanded.posting]
    exact h.posting
  progress := by
    intro i inst hinst
    rw [hhanded.allStrInst] at hinst
    obtain ⟨pre, post, hp⟩ := h.progress i inst hinst
    exact ⟨pre, post, hprogress i inst pre post hinst hp⟩
  owned := by
    rw [hhanded.outstanding, hhanded.allStrInst]
    exact h.owned

theorem inv_finishReplay {s t : State} {task : Task} (hstep : finishReplay s task = some t)
    (h : Inv cal eve finish s) : Inv cal eve finish t := by
  obtain ⟨hdate, hposting, hinsts, -, htasks⟩ := finishReplay_spec hstep
  have hlength : t.allStrInst.length = s.allStrInst.length := by
    rw [hinsts, List.length_modify]
  refine ⟨hdate ▸ h.start_le, hdate ▸ h.date_le, ?_, ?_, ?_⟩
  · rw [hdate, hposting]
    exact h.posting
  · intro i inst hinst
    have hi := (List.getElem?_eq_some_iff.mp hinst).1
    have hold := List.getElem?_eq_getElem (hlength ▸ hi)
    obtain ⟨pre, post, hp⟩ := h.progress i _ hold
    obtain ⟨inst', pre', post', hinst', hp'⟩ := hp.finishReplay hold hstep
    obtain rfl := Option.some.inj (hinst.symm.trans hinst')
    exact ⟨pre', post', hp'⟩
  · intro other hother
    rw [hlength]
    exact h.owned other (htasks ▸ Multiset.mem_cons_of_mem hother)

theorem inv_step {workers : ℕ} {s t : State} {action : Action} (hfinish : finish ≤ cal.last)
    (hstep : step cal finish workers s action = some t) (h : Inv cal eve finish s) :
    Inv cal eve finish t := by
  cases action with
  | load => exact inv_load hstep h
  | take task =>
      obtain ⟨hhanded, hreplay⟩ := handed_take hstep
      exact h.of_handed hhanded fun i _ _ _ _ hp =>
        hp.handed hhanded (by rw [inReplay, inReplay, hreplay])
  | runDataOnDay task =>
      exact h.of_handed (handed_runDataOnDay hstep) fun i _ _ _ hinst hp =>
        hp.runDataOnDay hfinish (h.postedDays_prefix i) hinst hstep
  | finishReplay task => exact inv_finishReplay hstep h
  | post task =>
      obtain ⟨hhanded, hreplay⟩ := handed_post hstep
      exact h.of_handed hhanded fun i _ _ _ _ hp =>
        hp.handed hhanded (by rw [inReplay, inReplay, hreplay])

theorem length_step {workers : ℕ} {s t : State} {action : Action}
    (hstep : step cal finish workers s action = some t) :
    t.allStrInst.length = s.allStrInst.length := by
  cases action with
  | load => rw [load_allStrInst hstep]
  | take task => rw [(handed_take hstep).1.allStrInst]
  | runDataOnDay task => rw [(handed_runDataOnDay hstep).allStrInst]
  | finishReplay task =>
      obtain ⟨-, -, hinsts, -, -⟩ := finishReplay_spec hstep
      rw [hinsts, List.length_modify]
  | post task => rw [(handed_post hstep).1.allStrInst]

theorem createInsts_spec {startDate configs : ℕ} {insts : List TestInst}
    (h : createInsts cal startDate configs = some insts) :
    insts.length = configs ∧ ∀ inst ∈ insts, ∃ day, getDateFromNum cal startDate = some (day + 1) ∧
      inst = ⟨dateNumber cal day, []⟩ := by
  induction configs generalizing insts with
  | zero =>
      obtain rfl := Option.some.inj h
      exact ⟨rfl, fun inst hinst => absurd hinst (List.not_mem_nil)⟩
  | succ configs ih =>
      rw [createInsts] at h
      obtain ⟨startday, hstartday, h⟩ := Option.bind_eq_some_iff.mp h
      obtain ⟨day, hday, h⟩ := Option.bind_eq_some_iff.mp h
      obtain ⟨date, hdate, h⟩ := Option.bind_eq_some_iff.mp h
      obtain ⟨insts', hinsts', h⟩ := Option.bind_eq_some_iff.mp h
      obtain rfl := Option.some.inj h
      obtain ⟨hlength, hmem⟩ := ih hinsts'
      refine ⟨congrArg (· + 1) hlength, fun inst hinst => ?_⟩
      rcases List.mem_cons.mp hinst with rfl | hinst
      · cases startday with
        | zero => cases hday
        | succ startday =>
            obtain rfl := Option.some.inj hday
            exact ⟨startday, hstartday, by rw [(eq_dateNumber_of_getNumFromDate hdate).2]⟩
      · exact hmem inst hinst

theorem init_spec (finish : ℕ) {startDate configs start : ℕ} {s : State}
    (hstart : getDateFromNum cal startDate = some start) (h : Init cal startDate configs = some s) :
    s.allStrInst.length = configs ∧
      ∀ (i : ℕ) inst, s.allStrInst[i]? = some inst →
        ∃ eve, start = eve + 1 ∧ Inv cal eve finish s := by
  obtain ⟨start', hstart', h⟩ := Option.bind_eq_some_iff.mp h
  obtain rfl := Option.some.inj (hstart.symm.trans hstart')
  obtain ⟨insts, hinsts, h⟩ := Option.bind_eq_some_iff.mp h
  obtain rfl := Option.some.inj h
  obtain ⟨hlength, hmem⟩ := createInsts_spec hinsts
  refine ⟨hlength, fun i inst hinst => ?_⟩
  obtain ⟨eve, heve, -⟩ := hmem inst (List.mem_of_getElem? hinst)
  obtain rfl := Option.some.inj (hstart.symm.trans heve)
  refine ⟨eve, rfl, le_rfl, .inr rfl, ?_, ?_, fun task htask => ?_⟩
  · rintro next ⟨⟩
  · intro j inst' hinst'
    obtain ⟨day, hday, rfl⟩ := hmem inst' (List.mem_of_getElem? hinst')
    obtain rfl := Nat.succ.inj (Option.some.inj (hstart.symm.trans hday))
    refine ⟨[], [], ?_, rfl, ⟨eve, rfl, rfl⟩, rfl, .inl rfl⟩
    simp [postedDays, weekdays_self]
  · simp [State.outstanding, State.busy] at htask

/-- In every interleaving each instance replays the weekdays of the test in order, one at
a time, and all of them by the time nothing is left to do. -/
theorem replays_weekdays_in_order (cal : Calendar) {startDate endDate start finish : ℕ}
    (configs workers : ℕ)
    (hstart : getDateFromNum cal startDate = some start)
    (hend : getDateFromNum cal endDate = some finish)
    {s t : State} {actions : List Action} (hinit : Init cal startDate configs = some s)
    (hrun : Run (step cal finish workers) (fun _ _ => True) s actions t) :
    t.allStrInst.length = configs ∧ ∀ (i : ℕ) inst, t.allStrInst[i]? = some inst →
      inst.replayed <+: (weekdays cal start finish).map (dateNumber cal) ∧
      (inReplay t i).card ≤ 1 ∧
      (∀ date ∈ inReplay t i,
        inst.replayed ++ [date] <+: (weekdays cal start finish).map (dateNumber cal)) ∧
      (Finished finish t → inst.replayed = (weekdays cal start finish).map (dateNumber cal)) := by
  have hfinish := getDateFromNum_le hend
  obtain ⟨hconfigs, hinv⟩ := init_spec finish hstart hinit
  have hlength : t.allStrInst.length = s.allStrInst.length :=
    hrun.invariant (fun _ _ _ _ hstep hu => (length_step hstep).trans hu) rfl
  refine ⟨hlength.trans hconfigs, fun i inst hinst => ?_⟩
  have hi := (List.getElem?_eq_some_iff.mp hinst).1
  obtain ⟨eve, rfl, hs⟩ := hinv i _ (List.getElem?_eq_getElem (hlength ▸ hi))
  have ht : Inv cal eve finish t :=
    hrun.invariant (fun _ _ _ _ hstep hu => inv_step hfinish hstep hu) hs
  obtain ⟨pre, post, hp⟩ := ht.progress i inst hinst
  obtain ⟨later, hlater⟩ := ht.postedDays_prefix i
  rw [hp.posted, List.append_assoc] at hlater
  rw [hp.replayed, ← hlater, List.map_append, List.map_append]
  refine ⟨List.prefix_append _ _, ?_, ?_, ?_⟩
  · rcases hp.inReplay with hidle | ⟨day, rest, -, hday⟩
    · simp [hidle]
    · simp [hday]
  · intro date hdate
    rcases hp.inReplay with hidle | ⟨day, rest, rfl, hday⟩
    · rw [hidle] at hdate
      cases hdate
    · rw [hday, Multiset.mem_singleton] at hdate
      rw [hdate, List.prefix_append_right_inj]
      exact ⟨rest.map _ ++ later.map _, rfl⟩
  · rintro ⟨hposting, hdate, houtstanding⟩
    have hpost := hp.outstanding
    rw [houtstanding, datesOf_zero] at hpost
    obtain rfl : post = [] := by simpa using hpost.symm
    have hall := ht.postedDays_eq hposting hdate i
    rw [hp.posted, List.append_nil] at hall
    rw [hall, List.nil_append, List.append_right_eq_self] at hlater
    simp [hlater]

def mondayFirst : List Action :=
  [.load, .load, .load, .load, .load, .load, .load,
    .take ⟨0, 20140106⟩, .runDataOnDay ⟨0, 20140106⟩, .post ⟨0, 20140106⟩,
    .take ⟨0, 20140103⟩, .runDataOnDay ⟨0, 20140103⟩, .finishReplay ⟨0, 20140103⟩,
    .take ⟨0, 20140106⟩, .runDataOnDay ⟨0, 20140106⟩, .load, .finishReplay ⟨0, 20140106⟩]

theorem replays_weekdays_in_order_mondayFirst :
    ∃ s t, Init years2014 20140103 1 = some s ∧
      Run (step years2014 6 1) (fun _ _ => True) s mondayFirst t ∧ Finished 6 t ∧
      t.allStrInst = [⟨20140106, [20140103, 20140106]⟩] ∧
      ∀ (i : ℕ) inst, t.allStrInst[i]? = some inst →
        inst.replayed = (weekdays years2014 2 6).map (dateNumber years2014) := by
  have hstart : getDateFromNum years2014 20140103 = some 2 := by decide +kernel
  have hend : getDateFromNum years2014 20140107 = some 6 := by decide +kernel
  have hinit : Init years2014 20140103 1 =
      some ⟨[⟨20140102, []⟩], 2, none, 0, 0, 0, 0⟩ := by decide +kernel
  have hrun : Run (step years2014 6 1) (fun _ _ => True)
      ⟨[⟨20140102, []⟩], 2, none, 0, 0, 0, 0⟩ mondayFirst
      ⟨[⟨20140106, [20140103, 20140106]⟩], 6, none, 0, 0, 0, 0⟩ :=
    Run.of_execute (by decide +kernel)
  have hfinished : Finished 6 ⟨[⟨20140106, [20140103, 20140106]⟩], 6, none, 0, 0, 0, 0⟩ :=
    ⟨rfl, le_rfl, rfl⟩
  exact ⟨_, _, hinit, hrun, hfinished, rfl, fun i inst hinst =>
    ((replays_weekdays_in_order years2014 1 1 hstart hend hinit hrun).2 i inst hinst).2.2.2
      hfinished⟩

theorem Inv.exists_runDataOnDay {s : State} (h : Inv cal eve finish s) (hfinish : finish ≤ cal.last)
    {task : Task} (htaken : task ∈ s.taken) : ∃ t, runDataOnDay cal s task = some t := by
  have htask : task ∈ s.outstanding := by simp [State.outstanding, State.busy, htaken]
  have hinst := List.getElem?_eq_getElem (h.owned task htask)
  obtain ⟨pre, post, hp⟩ := h.progress _ _ hinst
  obtain ⟨day, rest, rfl⟩ := hp.post_ne_nil rfl htask
  have hnext := hp.getNextWorkingDay hfinish (h.postedDays_prefix _)
  rw [runDataOnDay, if_pos htaken, hinst, Option.bind_some, hnext]
  exact ⟨_, rfl⟩

theorem Inv.exists_load {s : State} (h : Inv cal eve finish s) (hfinish : finish ≤ cal.last)
    (hmore : ¬ (s.posting = none ∧ finish ≤ s.date)) : ∃ t, load cal finish s = some t := by
  unfold load
  cases hposting : s.posting with
  | none =>
      have hdate : s.date < finish := by
        by_contra hend
        exact hmore ⟨hposting, not_lt.mp hend⟩
      simp only [hdate, if_true]
      split_ifs <;> exact ⟨_, rfl⟩
  | some next =>
      have hdate := (h.posting next hposting).1
      simp only [getNumFromDate_of_le (hdate.le.trans hfinish)]
      split_ifs <;> exact ⟨_, rfl⟩

/-- As long as anything is left to do, some step is possible. -/
theorem exists_step {workers : ℕ} (hworkers : 0 < workers) (hfinish : finish ≤ cal.last)
    {s : State} (h : Inv cal eve finish s) (hleft : ¬ Finished finish s) :
    ∃ action t, step cal finish workers s action = some t := by
  by_cases hmore : s.posting = none ∧ finish ≤ s.date
  · have houtstanding : s.outstanding ≠ 0 := fun hzero => hleft ⟨hmore.1, hmore.2, hzero⟩
    obtain ⟨task, htask⟩ := Multiset.exists_mem_of_ne_zero houtstanding
    by_cases hbusy : s.busy = 0
    · have hqueued : task ∈ s.queued := by
        simpa [State.outstanding, hbusy] using htask
      refine ⟨.take task, _, if_pos ⟨hqueued, ?_⟩⟩
      rwa [hbusy, Multiset.card_zero]
    · obtain ⟨task, htask⟩ := Multiset.exists_mem_of_ne_zero hbusy
      simp only [State.busy, Multiset.mem_add] at htask
      rcases htask with (htaken | hreplaying) | hrejected
      · exact ⟨.runDataOnDay task, h.exists_runDataOnDay hfinish htaken⟩
      · exact ⟨.finishReplay task, _, if_pos hreplaying⟩
      · exact ⟨.post task, _, if_pos hrejected⟩
  · exact ⟨.load, h.exists_load hfinish hmore⟩

end Runs

end BluesTrading.DayReplaySchedule
