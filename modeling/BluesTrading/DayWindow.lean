import BluesTrading.DayReplaySchedule
import Mathlib.Data.Finset.Card
import Mathlib.Data.Multiset.ZeroCons

namespace BluesTrading.DayWindow

open Foundations
open TradingCalendar
open DayReplaySchedule

def MaxDayInMemory : ℤ := 15

structure WindowState where
  state : State
  dayInMemoryCount : ℤ
  deriving DecidableEq

section Steps

variable (cal : Calendar) (finish workers : ℕ)

/-- The dates whose data somebody refers to. -/
def daysInMemory (s : State) : Finset ℕ :=
  (s.outstanding.map Task.date).toFinset ∪
    if s.posting.isSome then {dateNumber cal s.date} else ∅

/-- The deleter of a day's data runs when the last reference is gone. -/
def freeDay (s : State) (date : ℕ) (count : ℤ) : ℤ :=
  if date ∈ daysInMemory cal s then count else count - 1

def AtWeekday (s : State) : Prop :=
  s.posting = none ∧ s.date < finish ∧ isWeekend cal s.date = false

instance (s : State) : Decidable (AtWeekday cal finish s) := inferInstanceAs (Decidable (_ ∧ _))

def loadDay (w : WindowState) : Option WindowState :=
  if AtWeekday cal finish w.state then
    if w.dayInMemoryCount ≥ MaxDayInMemory then none
    else (load cal finish w.state).map fun s => ⟨s, w.dayInMemoryCount + 1⟩
  else
    (load cal finish w.state).map fun s =>
      if w.state.posting.isSome ∧ s.posting = none then
        ⟨s, freeDay cal s (dateNumber cal w.state.date) w.dayInMemoryCount⟩
      else ⟨s, w.dayInMemoryCount⟩

def windowStep (w : WindowState) : Action → Option WindowState
  | .load => loadDay cal finish w
  | .finishReplay task =>
      (finishReplay w.state task).map fun s =>
        ⟨s, freeDay cal s task.date w.dayInMemoryCount⟩
  | .take task => (take workers w.state task).map fun s => ⟨s, w.dayInMemoryCount⟩
  | .runDataOnDay task => (runDataOnDay cal w.state task).map fun s => ⟨s, w.dayInMemoryCount⟩
  | .post task => (post w.state task).map fun s => ⟨s, w.dayInMemoryCount⟩

def Blocked (w : WindowState) : Prop :=
  AtWeekday cal finish w.state ∧ MaxDayInMemory ≤ w.dayInMemoryCount

variable {cal finish workers}

theorem step_of_windowStep {w w' : WindowState} {action : Action}
    (h : windowStep cal finish workers w action = some w') :
    step cal finish workers w.state action = some w'.state := by
  cases action with
  | load =>
      simp only [windowStep, loadDay] at h
      split_ifs at h
      · obtain ⟨s, hs, rfl⟩ := Option.map_eq_some_iff.mp h
        exact hs
      · obtain ⟨s, hs, rfl⟩ := Option.map_eq_some_iff.mp h
        refine hs.trans (congrArg some ?_)
        split_ifs <;> rfl
  | finishReplay task =>
      obtain ⟨s, hs, rfl⟩ := Option.map_eq_some_iff.mp h
      exact hs
  | take task =>
      obtain ⟨s, hs, rfl⟩ := Option.map_eq_some_iff.mp h
      exact hs
  | runDataOnDay task =>
      obtain ⟨s, hs, rfl⟩ := Option.map_eq_some_iff.mp h
      exact hs
  | post task =>
      obtain ⟨s, hs, rfl⟩ := Option.map_eq_some_iff.mp h
      exact hs

end Steps

/-! ### The count is the number of days in memory -/

section Count

variable {cal : Calendar} {finish workers : ℕ} {s t : State} {w w' : WindowState}

theorem load_cases (h : load cal finish s = some t) :
    (s.posting = none ∧ isWeekend cal s.date = true ∧ t = { s with date := s.date + 1 }) ∨
      (AtWeekday cal finish s ∧ t = { s with posting := some 0 }) ∨
      (∃ i, s.posting = some i ∧ i < s.allStrInst.length ∧
        t = { s with
          queued := ⟨i, dateNumber cal s.date⟩ ::ₘ s.queued
          posting := some (i + 1) }) ∨
      (∃ i, s.posting = some i ∧ t = { s with date := s.date + 1, posting := none }) := by
  unfold load at h
  split at h
  next hposting =>
    split_ifs at h with hdate hweekend
    · exact .inl ⟨hposting, hweekend, (Option.some.inj h).symm⟩
    · exact .inr (.inl ⟨⟨hposting, hdate, by simpa using hweekend⟩, (Option.some.inj h).symm⟩)
  next i hposting =>
    split_ifs at h with hi
    · obtain ⟨dateint, hdateint, rfl⟩ := Option.map_eq_some_iff.mp h
      rw [(eq_dateNumber_of_getNumFromDate hdateint).2]
      exact .inr (.inr (.inl ⟨i, hposting, hi, rfl⟩))
    · exact .inr (.inr (.inr ⟨i, hposting, (Option.some.inj h).symm⟩))

/-- The invariant of the schedule, or a test without a strategy. -/
def Orderly (cal : Calendar) (finish : ℕ) (s : State) : Prop :=
  (∃ eve, Inv cal eve finish s) ∨ s.allStrInst = [] ∧ s.outstanding = 0

theorem Orderly.step {action : Action} (h : Orderly cal finish s) (hfinish : finish ≤ cal.last)
    (hstep : step cal finish workers s action = some t) : Orderly cal finish t := by
  refine h.imp (fun ⟨eve, hinv⟩ => ⟨eve, inv_step hfinish hstep hinv⟩) ?_
  rintro ⟨hempty, hzero⟩
  have hlength := length_step hstep
  rw [hempty, List.length_nil, List.length_eq_zero_iff] at hlength
  refine ⟨hlength, ?_⟩
  cases action with
  | load =>
      rcases load_cases hstep with ⟨-, -, rfl⟩ | ⟨-, rfl⟩ | ⟨i, -, hi, -⟩ | ⟨i, -, rfl⟩
      · exact hzero
      · exact hzero
      · rw [hempty] at hi
        cases hi
      · exact hzero
  | take task => rw [(handed_take hstep).1.outstanding, hzero]
  | runDataOnDay task => rw [(handed_runDataOnDay hstep).outstanding, hzero]
  | finishReplay task =>
      obtain ⟨-, -, -, -, htasks⟩ := finishReplay_spec hstep
      exact absurd (htasks.symm.trans hzero) (Multiset.cons_ne_zero)
  | post task => rw [(handed_post hstep).1.outstanding, hzero]

theorem Orderly.exists_day (h : Orderly cal finish s) {task : Task} (htask : task ∈ s.outstanding) :
    ∃ eve, Inv cal eve finish s ∧ ∃ inst pre post, s.allStrInst[task.inst]? = some inst ∧
      Progress cal eve s task.inst inst pre post ∧
        ∃ day ∈ post, task.date = dateNumber cal day := by
  rcases h with ⟨eve, hinv⟩ | ⟨-, hzero⟩
  · have hinst := List.getElem?_eq_getElem (hinv.owned task htask)
    obtain ⟨pre, post, hp⟩ := hinv.progress _ _ hinst
    have hdate := mem_datesOf s.outstanding task htask
    rw [hp.outstanding, Multiset.mem_coe] at hdate
    obtain ⟨day, hday, heq⟩ := List.mem_map.mp hdate
    exact ⟨eve, hinv, _, pre, post, hinst, hp, day, hday, heq.symm⟩
  · rw [hzero] at htask
    cases htask

theorem mem_daysInMemory {date : ℕ} :
    date ∈ daysInMemory cal s ↔ (∃ task ∈ s.outstanding, task.date = date) ∨
      s.posting.isSome ∧ date = dateNumber cal s.date := by
  rw [daysInMemory, Finset.mem_union, Multiset.mem_toFinset, Multiset.mem_map]
  split_ifs with hposting <;> simp [hposting]

theorem Orderly.notMem_daysInMemory (h : Orderly cal finish s) (hfinish : finish ≤ cal.last)
    (hweekday : AtWeekday cal finish s) : dateNumber cal s.date ∉ daysInMemory cal s := by
  obtain ⟨hposting, hdate, -⟩ := hweekday
  rw [mem_daysInMemory, hposting]
  rintro (⟨task, htask, heq⟩ | ⟨hsome, -⟩)
  · obtain ⟨eve, hinv, inst, pre, post, -, hp, day, hday, hdayDate⟩ := h.exists_day htask
    have hposted : day ∈ postedDays cal eve s task.inst := by
      rw [hp.posted]
      exact List.mem_append_right pre hday
    simp only [postedDays, hposting, List.append_nil] at hposted
    have hlt : day < s.date := (mem_weekdays.mp hposted).2.1
    have hsame : day = s.date := dateNumber_inj ((hlt.trans hdate).le.trans hfinish)
      (hdate.le.trans hfinish) (hdayDate.symm.trans heq)
    exact hlt.ne hsame
  · cases hsome

theorem daysInMemory_congr (houtstanding : t.outstanding = s.outstanding)
    (hposting : t.posting = s.posting) (hdate : t.date = s.date) :
    daysInMemory cal t = daysInMemory cal s := by
  rw [daysInMemory, daysInMemory, houtstanding, hposting, hdate]

/-- When a reference to a day is dropped, the count follows the days in memory. -/
theorem freeDay_eq_card {date : ℕ} (h : daysInMemory cal s = insert date (daysInMemory cal t))
    {count : ℤ} (hcount : count = (daysInMemory cal s).card) :
    freeDay cal t date count = (daysInMemory cal t).card := by
  rw [freeDay, hcount, h]
  split_ifs with hdate
  · rw [Finset.card_insert_of_mem hdate]
  · rw [Finset.card_insert_of_notMem hdate]
    push_cast
    omega

theorem daysInMemory_finishReplay {task : Task} (hstep : finishReplay s task = some t) :
    daysInMemory cal s = insert task.date (daysInMemory cal t) := by
  obtain ⟨hdate, hposting, -, -, htasks⟩ := finishReplay_spec hstep
  ext date
  rw [Finset.mem_insert, mem_daysInMemory, mem_daysInMemory, htasks, hposting, hdate]
  simp only [Multiset.mem_cons, exists_eq_or_imp, eq_comm (a := date), or_assoc]

theorem daysInMemory_posting (hposting : s.posting.isSome) (hnone : t.posting = none)
    (houtstanding : t.outstanding = s.outstanding) :
    daysInMemory cal s = insert (dateNumber cal s.date) (daysInMemory cal t) := by
  ext date
  rw [Finset.mem_insert, mem_daysInMemory, mem_daysInMemory, hposting, hnone, houtstanding]
  simp [or_comm]

theorem daysInMemory_post {i : ℕ} (hposting : s.posting = some i) :
    daysInMemory cal { s with
      queued := ⟨i, dateNumber cal s.date⟩ ::ₘ s.queued
      posting := some (i + 1) } = daysInMemory cal s := by
  have htasks : State.outstanding { s with
      queued := ⟨i, dateNumber cal s.date⟩ ::ₘ s.queued
      posting := some (i + 1) } = ⟨i, dateNumber cal s.date⟩ ::ₘ s.outstanding :=
    Multiset.cons_add _ _ _
  ext date
  rw [mem_daysInMemory, mem_daysInMemory, hposting, htasks]
  simp only [Multiset.mem_cons, exists_eq_or_imp, Option.isSome_some, true_and,
    eq_comm (a := date)]
  grind

variable (cal finish) in
structure Counted (w : WindowState) : Prop where
  orderly : Orderly cal finish w.state
  count : w.dayInMemoryCount = (daysInMemory cal w.state).card
  bound : w.dayInMemoryCount ≤ MaxDayInMemory

theorem freeDay_le (date : ℕ) (count : ℤ) : freeDay cal t date count ≤ count := by
  rw [freeDay]
  split_ifs <;> omega

theorem Counted.loadDay (h : Counted cal finish w) (hfinish : finish ≤ cal.last)
    (hstep : loadDay cal finish w = some w') : Counted cal finish w' := by
  have hwindow : windowStep cal finish 0 w .load = some w' := hstep
  have horderly : Orderly cal finish w'.state :=
    h.orderly.step hfinish (step_of_windowStep hwindow)
  unfold DayWindow.loadDay at hstep
  split_ifs at hstep with hweekday hfull
  · obtain ⟨s, hload, rfl⟩ := Option.map_eq_some_iff.mp hstep
    have hnew := h.orderly.notMem_daysInMemory hfinish hweekday
    obtain ⟨hposting, -, hday⟩ := hweekday
    rcases load_cases hload with ⟨-, hweekend, -⟩ | ⟨-, rfl⟩ | ⟨i, hsome, -⟩ | ⟨i, hsome, -⟩
    · rw [hday] at hweekend
      cases hweekend
    · have hdays : daysInMemory cal { w.state with posting := some 0 } =
          insert (dateNumber cal w.state.date) (daysInMemory cal w.state) :=
        daysInMemory_posting rfl hposting rfl
      refine ⟨horderly, ?_, Int.add_one_le_iff.mpr (not_le.mp hfull)⟩
      rw [hdays, Finset.card_insert_of_notMem hnew, h.count]
      push_cast
      rfl
    · rw [hposting] at hsome
      cases hsome
    · rw [hposting] at hsome
      cases hsome
  · obtain ⟨s, hload, rfl⟩ := Option.map_eq_some_iff.mp hstep
    rcases load_cases hload with ⟨hposting, -, rfl⟩ | ⟨hday, -⟩ | ⟨i, hposting, -, rfl⟩ |
      ⟨i, hposting, rfl⟩
    · simp only [hposting, Option.isSome_none, Bool.false_eq_true, false_and, if_false]
        at horderly ⊢
      refine ⟨horderly, h.count.trans ?_, h.bound⟩
      simp [daysInMemory, hposting, State.outstanding, State.busy]
    · exact absurd hday hweekday
    · simp only [reduceCtorEq, and_false, if_false] at horderly ⊢
      exact ⟨horderly, by rw [daysInMemory_post hposting, h.count], h.bound⟩
    · simp only [hposting, Option.isSome_some, and_self, if_true] at horderly ⊢
      have hdays : daysInMemory cal w.state = insert (dateNumber cal w.state.date)
          (daysInMemory cal { w.state with date := w.state.date + 1, posting := none }) :=
        daysInMemory_posting (by rw [hposting]; rfl) rfl rfl
      exact ⟨horderly, freeDay_eq_card hdays h.count, (freeDay_le _ _).trans h.bound⟩

theorem Counted.step {action : Action} (h : Counted cal finish w) (hfinish : finish ≤ cal.last)
    (hstep : windowStep cal finish workers w action = some w') : Counted cal finish w' := by
  have horderly := h.orderly.step hfinish (step_of_windowStep hstep)
  have hhanded : ∀ s, Handed w.state s → Orderly cal finish s →
      Counted cal finish ⟨s, w.dayInMemoryCount⟩ := fun s hs horderly =>
    ⟨horderly, by rw [h.count, daysInMemory_congr hs.outstanding hs.posting hs.date], h.bound⟩
  cases action with
  | load => exact h.loadDay hfinish hstep
  | take task =>
      obtain ⟨s, hs, rfl⟩ := Option.map_eq_some_iff.mp hstep
      exact hhanded s (handed_take hs).1 horderly
  | runDataOnDay task =>
      obtain ⟨s, hs, rfl⟩ := Option.map_eq_some_iff.mp hstep
      exact hhanded s (handed_runDataOnDay hs) horderly
  | finishReplay task =>
      obtain ⟨s, hs, rfl⟩ := Option.map_eq_some_iff.mp hstep
      exact ⟨horderly, freeDay_eq_card (daysInMemory_finishReplay hs) h.count,
        (freeDay_le _ _).trans h.bound⟩
  | post task =>
      obtain ⟨s, hs, rfl⟩ := Option.map_eq_some_iff.mp hstep
      exact hhanded s (handed_post hs).1 horderly

end Count

/-! ### A loader that waits is woken up -/

section Waiting

variable (cal : Calendar) {finish workers : ℕ} {s : State} {w : WindowState}

/-- The task is for the next working day of its instance. -/
def ComesNext (s : State) (task : Task) : Prop :=
  ∃ inst, s.allStrInst[task.inst]? = some inst ∧
    getNextWorkingDay cal inst.currentDate = some task.date

variable {cal}

theorem Orderly.exists_comesNext (h : Orderly cal finish s) (hfinish : finish ≤ cal.last)
    (houtstanding : s.outstanding ≠ 0) : ∃ task ∈ s.outstanding, ComesNext cal s task := by
  obtain ⟨task, htask⟩ := Multiset.exists_mem_of_ne_zero houtstanding
  obtain ⟨eve, hinv, inst, pre, post, hinst, hp, day, hday, -⟩ := h.exists_day htask
  obtain ⟨first, rest, rfl⟩ := hp.post_ne_nil rfl htask
  have hdates : dateNumber cal first ∈ datesOf task.inst s.outstanding := by
    rw [hp.outstanding]
    exact List.mem_cons_self
  obtain ⟨next, hnext, hdate⟩ := Multiset.mem_map.mp hdates
  obtain ⟨hmem, hinstance⟩ := Multiset.mem_filter.mp hnext
  refine ⟨next, hmem, inst, hinstance ▸ hinst, ?_⟩
  rw [hdate]
  exact hp.getNextWorkingDay hfinish (hinv.postedDays_prefix _)

theorem Counted.outstanding_ne_zero (h : Counted cal finish w) (hblocked : Blocked cal finish w) :
    w.state.outstanding ≠ 0 := by
  intro hzero
  have hcount := h.count
  rw [daysInMemory, hzero, hblocked.1.1] at hcount
  have hfull : (15 : ℤ) ≤ w.dayInMemoryCount := hblocked.2
  simp at hcount
  omega

theorem exists_windowStep {action : Action} (haction : action ≠ .load)
    (h : step cal finish workers w.state action = some s) :
    ∃ w', windowStep cal finish workers w action = some w' ∧ w'.state = s := by
  cases action with
  | load => exact absurd rfl haction
  | take task => exact ⟨_, congrArg (Option.map _) h, rfl⟩
  | runDataOnDay task => exact ⟨_, congrArg (Option.map _) h, rfl⟩
  | finishReplay task => exact ⟨_, congrArg (Option.map _) h, rfl⟩
  | post task => exact ⟨_, congrArg (Option.map _) h, rfl⟩

/-- A run of workers only. -/
def WorkerRun (cal : Calendar) (finish workers : ℕ) (w w' : WindowState) : Prop :=
  ∃ actions, .load ∉ actions ∧
    Run (windowStep cal finish workers) (fun _ _ => True) w actions w'

theorem WorkerRun.head {action : Action} {w' w'' : WindowState} (haction : action ≠ .load)
    (hstep : windowStep cal finish workers w action = some w')
    (h : WorkerRun cal finish workers w' w'') : WorkerRun cal finish workers w w'' :=
  let ⟨actions, hload, hrun⟩ := h
  ⟨action :: actions, by simp [hload, Ne.symm haction], .cons trivial hstep hrun⟩

theorem WorkerRun.trans {w' w'' : WindowState} (h : WorkerRun cal finish workers w w')
    (h' : WorkerRun cal finish workers w' w'') : WorkerRun cal finish workers w w'' :=
  let ⟨actions, hload, hrun⟩ := h
  let ⟨actions', hload', hrun'⟩ := h'
  ⟨actions ++ actions', by simp [hload, hload'], hrun.append hrun'⟩

theorem WorkerRun.counted {w' : WindowState} (h : WorkerRun cal finish workers w w')
    (hfinish : finish ≤ cal.last) (hw : Counted cal finish w) : Counted cal finish w' :=
  let ⟨_, _, hrun⟩ := h
  hrun.invariant (fun _ _ _ _ hstep hu => hu.step hfinish hstep) hw

theorem exists_finishReplay {task : Task} (htask : task ∈ w.state.replaying) :
    ∃ w', windowStep cal finish workers w (.finishReplay task) = some w' ∧
      w'.state.outstanding.card < w.state.outstanding.card := by
  have hstep : step cal finish workers w.state (.finishReplay task) = some _ := if_pos htask
  obtain ⟨w', hw', hstate⟩ := exists_windowStep (by simp) hstep
  obtain ⟨-, -, -, -, htasks⟩ := finishReplay_spec hstep
  refine ⟨w', hw', ?_⟩
  rw [hstate, htasks, Multiset.card_cons]
  exact Nat.lt_succ_self _

theorem exists_replay {task : Task} (hworkers : 0 < workers) (hidle : w.state.busy = 0)
    (htask : task ∈ w.state.outstanding) (hnext : ComesNext cal w.state task) :
    ∃ w', WorkerRun cal finish workers w w' ∧
      w'.state.outstanding.card < w.state.outstanding.card := by
  have hqueued : task ∈ w.state.queued := by simpa [State.outstanding, hidle] using htask
  have htake : step cal finish workers w.state (.take task) = some _ :=
    if_pos ⟨hqueued, by rwa [hidle, Multiset.card_zero]⟩
  obtain ⟨w₁, hw₁, hstate₁⟩ := exists_windowStep (by simp) htake
  obtain ⟨inst, hinst, hdate⟩ := hnext
  have hrun : step cal finish workers w₁.state (.runDataOnDay task) =
      some { w₁.state with
        taken := w₁.state.taken.erase task
        replaying := task ::ₘ w₁.state.replaying } := by
    have htaken : task ∈ w₁.state.taken := by simp [hstate₁]
    have hinst₁ : w₁.state.allStrInst[task.inst]? = some inst := by rw [hstate₁, hinst]
    rw [step, runDataOnDay, if_pos htaken, hinst₁, Option.bind_some, hdate, Option.map_some,
      if_pos rfl]
  obtain ⟨w₂, hw₂, hstate₂⟩ := exists_windowStep (by simp) hrun
  have houtstanding : w₂.state.outstanding = w.state.outstanding := by
    rw [hstate₂, (handed_runDataOnDay hrun).outstanding, hstate₁, (handed_take htake).1.outstanding]
  have hreplaying : task ∈ w₂.state.replaying := by simp [hstate₂]
  obtain ⟨w₃, hw₃, hlt⟩ := exists_finishReplay hreplaying
  exact ⟨w₃, .head (by simp) hw₁ (.head (by simp) hw₂ (.head (by simp) hw₃ ⟨[], by simp, .nil _⟩)),
    houtstanding ▸ hlt⟩

theorem card_runDataOnDay {task : Task} {t : State} (hstep : runDataOnDay cal s task = some t) :
    2 * t.taken.card + t.rejected.card < 2 * s.taken.card + s.rejected.card := by
  unfold runDataOnDay at hstep
  split_ifs at hstep with htaken
  obtain ⟨inst, -, hstep⟩ := Option.bind_eq_some_iff.mp hstep
  obtain ⟨targetDate, -, rfl⟩ := Option.map_eq_some_iff.mp hstep
  have hcard := Multiset.card_erase_lt_of_mem htaken
  split_ifs
  · dsimp only
    omega
  · dsimp only
    rw [Multiset.card_cons]
    omega

theorem exists_fewer (hworkers : 0 < workers) (hfinish : finish ≤ cal.last)
    (h : Counted cal finish w) (houtstanding : w.state.outstanding ≠ 0) :
    ∃ w', WorkerRun cal finish workers w w' ∧
      w'.state.outstanding.card < w.state.outstanding.card := by
  induction hmeasure : 2 * w.state.taken.card + w.state.rejected.card using Nat.strong_induction_on
    generalizing w with
  | _ n ih =>
      have hworker : ∀ {action : Action} {s : State}, action ≠ .load →
          step cal finish workers w.state action = some s →
          s.outstanding = w.state.outstanding →
          2 * s.taken.card + s.rejected.card < n → ∃ w', WorkerRun cal finish workers w w' ∧
            w'.state.outstanding.card < w.state.outstanding.card := by
        intro action s haction hstep hsame hless
        obtain ⟨w₁, hw₁, hstate⟩ := exists_windowStep haction hstep
        subst hstate
        obtain ⟨w', hrun, hlt⟩ := ih _ hless (h.step hfinish hw₁) (by rwa [hsame]) rfl
        exact ⟨w', hrun.head haction hw₁, hsame ▸ hlt⟩
      by_cases hreplaying : w.state.replaying = 0
      · by_cases htaken : w.state.taken = 0
        · by_cases hrejected : w.state.rejected = 0
          · obtain ⟨task, htask, hnext⟩ := h.orderly.exists_comesNext hfinish houtstanding
            have hidle : w.state.busy = 0 := by simp [State.busy, hreplaying, htaken, hrejected]
            exact exists_replay hworkers hidle htask hnext
          · obtain ⟨task, htask⟩ := Multiset.exists_mem_of_ne_zero hrejected
            have hstep : step cal finish workers w.state (.post task) = some _ := if_pos htask
            refine hworker (by simp) hstep (handed_post hstep).1.outstanding ?_
            have hcard := Multiset.card_erase_lt_of_mem htask
            simp only
            omega
        · obtain ⟨task, htask⟩ := Multiset.exists_mem_of_ne_zero htaken
          have hmem : task ∈ w.state.outstanding := by
            simp [State.outstanding, State.busy, htask]
          obtain ⟨eve, hinv, -⟩ := h.orderly.exists_day hmem
          obtain ⟨s, hstep⟩ := hinv.exists_runDataOnDay hfinish htask
          have hstep' : step cal finish workers w.state (.runDataOnDay task) = some s := hstep
          exact hworker (by simp) hstep' (handed_runDataOnDay hstep).outstanding
            (hmeasure ▸ card_runDataOnDay hstep)
      · obtain ⟨task, htask⟩ := Multiset.exists_mem_of_ne_zero hreplaying
        obtain ⟨w', hw', hlt⟩ := exists_finishReplay htask
        exact ⟨w', .head (by simp) hw' ⟨[], by simp, .nil _⟩, hlt⟩

theorem exists_not_blocked (hworkers : 0 < workers) (hfinish : finish ≤ cal.last)
    (h : Counted cal finish w) :
    ∃ w', WorkerRun cal finish workers w w' ∧ ¬ Blocked cal finish w' := by
  induction hcard : w.state.outstanding.card using Nat.strong_induction_on generalizing w with
  | _ n ih =>
      by_cases hblocked : Blocked cal finish w
      · obtain ⟨w₁, hrun, hlt⟩ :=
          exists_fewer hworkers hfinish h (h.outstanding_ne_zero hblocked)
        obtain ⟨w', hrun', hopen⟩ := ih _ (hcard ▸ hlt) (hrun.counted hfinish h) rfl
        exact ⟨w', hrun.trans hrun', hopen⟩
      · exact ⟨w, ⟨[], by simp, .nil _⟩, hblocked⟩

end Waiting

/-! ### Every interleaving -/

def initial (s : State) : WindowState := ⟨s, 0⟩

theorem counted_initial {cal : Calendar} {startDate configs start : ℕ} (finish : ℕ) {s : State}
    (hstart : getDateFromNum cal startDate = some start)
    (hinit : Init cal startDate configs = some s) : Counted cal finish (initial s) := by
  obtain ⟨hconfigs, hinv⟩ := init_spec finish hstart hinit
  obtain ⟨start', hstart', h⟩ := Option.bind_eq_some_iff.mp hinit
  obtain ⟨insts, hinsts, h⟩ := Option.bind_eq_some_iff.mp h
  obtain rfl := Option.some.inj h
  refine ⟨?_, ?_, show (0 : ℤ) ≤ MaxDayInMemory by decide⟩
  · cases insts with
    | nil => exact .inr ⟨rfl, rfl⟩
    | cons inst insts =>
        obtain ⟨eve, -, heve⟩ := hinv 0 inst rfl
        exact .inl ⟨eve, heve⟩
  · simp [initial, daysInMemory, State.outstanding, State.busy]

/-- In every interleaving the count is the number of days in memory, which is at most
`MaxDayInMemory`, and while the loader waits, a replay is running or the task of a next day is
queued or with a worker; any workers can always go on until the loader need not wait. -/
theorem daysInMemory_le_and_not_stuck (cal : Calendar) {startDate endDate start finish : ℕ}
    (configs : ℕ) {workers : ℕ}
    (hstart : getDateFromNum cal startDate = some start)
    (hend : getDateFromNum cal endDate = some finish)
    {s : State} {w : WindowState} {actions : List Action}
    (hinit : Init cal startDate configs = some s)
    (hrun : Run (windowStep cal finish workers) (fun _ _ => True) (initial s) actions w) :
    w.dayInMemoryCount = (daysInMemory cal w.state).card ∧
      w.dayInMemoryCount ≤ MaxDayInMemory ∧
      (Blocked cal finish w →
        (w.state.replaying ≠ 0 ∨
          ∃ task ∈ w.state.queued + w.state.taken + w.state.rejected, ComesNext cal w.state task) ∧
        (w.state.busy = 0 → ∃ task ∈ w.state.queued, ComesNext cal w.state task) ∧
        (0 < workers → ∃ w', WorkerRun cal finish workers w w' ∧ ¬ Blocked cal finish w')) := by
  have hfinish := getDateFromNum_le hend
  have h : Counted cal finish w :=
    hrun.invariant (fun _ _ _ _ hstep hu => hu.step hfinish hstep)
      (counted_initial finish hstart hinit)
  refine ⟨h.count, h.bound, fun hblocked => ?_⟩
  obtain ⟨task, htask, hnext⟩ := h.orderly.exists_comesNext hfinish (h.outstanding_ne_zero hblocked)
  refine ⟨?_, fun hidle => ⟨task, ?_, hnext⟩, fun hworkers =>
    exists_not_blocked hworkers hfinish h⟩
  · by_cases hreplaying : w.state.replaying = 0
    · refine .inr ⟨task, ?_, hnext⟩
      simpa [State.outstanding, State.busy, hreplaying, Multiset.mem_add, or_assoc] using htask
    · exact .inl hreplaying
  · simpa [State.outstanding, hidle] using htask

/-- The fifteen days that fill the memory when no worker runs. -/
def fifteenDays : Multiset Task :=
  ([20140123, 20140122, 20140121, 20140120, 20140117, 20140116, 20140115, 20140114, 20140113,
    20140110, 20140109, 20140108, 20140107, 20140106, 20140103].map (Task.mk 0) : List Task)

theorem daysInMemory_le_and_not_stuck_full :
    ∃ s w, Init years2014 20140103 1 = some s ∧
      Run (windowStep years2014 24 1) (fun _ _ => True) (initial s) (.replicate 51 .load) w ∧
      Blocked years2014 24 w ∧ (daysInMemory years2014 w.state).card = 15 ∧
      ∃ task ∈ w.state.queued, ComesNext years2014 w.state task := by
  have hstart : getDateFromNum years2014 20140103 = some 2 := by decide +kernel
  have hend : getDateFromNum years2014 20140125 = some 24 := by decide +kernel
  have hinit : Init years2014 20140103 1 =
      some ⟨[⟨20140102, []⟩], 2, none, 0, 0, 0, 0⟩ := by decide +kernel
  have hrun : Run (windowStep years2014 24 1) (fun _ _ => True)
      (initial ⟨[⟨20140102, []⟩], 2, none, 0, 0, 0, 0⟩) (.replicate 51 .load)
      ⟨⟨[⟨20140102, []⟩], 23, none, fifteenDays, 0, 0, 0⟩, 15⟩ :=
    Run.of_execute (by decide +kernel)
  have hblocked : Blocked years2014 24
      ⟨⟨[⟨20140102, []⟩], 23, none, fifteenDays, 0, 0, 0⟩, 15⟩ :=
    ⟨⟨rfl, by decide, by decide +kernel⟩, by decide⟩
  obtain ⟨hcount, -, hwaiting⟩ :=
    daysInMemory_le_and_not_stuck years2014 1 hstart hend hinit hrun
  exact ⟨_, _, hinit, hrun, hblocked, Nat.cast_injective hcount.symm, (hwaiting hblocked).2.1 rfl⟩

end BluesTrading.DayWindow
