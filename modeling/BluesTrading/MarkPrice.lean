import BluesTrading.PositionManager

namespace BluesTrading.MarkPrice

open BluesTrading.Foundations
open BluesTrading.OrderData
open BluesTrading.PositionBook
open BluesTrading.PositionUnits
open BluesTrading.PositionManager

inductive BookEvent
  | updateOrder (order : OrderDataDetail)
  | getPosition (inst : ℕ)
  | marketData (tick : CTickData)
  | startDay (date : ℕ)

def stepBook (m : TestPositionManager) : BookEvent → TestPositionManager
  | .updateOrder order => m.onUpdateOrder order
  | .getPosition inst => (m.getPosition inst).2
  | .marketData tick => m.onMarketData tick
  | .startDay date => m.onStartDay date

def runBook (cash : ℚ) (events : List BookEvent) : TestPositionManager :=
  events.foldl stepBook (TestPositionManager.init cash)

def LooksUp (inst : ℕ) : BookEvent → Prop
  | .updateOrder order => orderInstrument order = inst
  | .getPosition j => j = inst
  | .marketData _ => False
  | .startDay _ => False

def Ticks (inst : ℕ) : BookEvent → Prop
  | .marketData tick => tick.instIndex = inst
  | _ => False

instance (inst : ℕ) : (event : BookEvent) → Decidable (LooksUp inst event)
  | .updateOrder _ => inferInstanceAs (Decidable (_ = _))
  | .getPosition _ => inferInstanceAs (Decidable (_ = _))
  | .marketData _ => .isFalse not_false
  | .startDay _ => .isFalse not_false

/-- The mark of an instrument, `none` as long as it has no entry. -/
def mark (m : TestPositionManager) (inst : ℕ) : Option ℚ :=
  (m.allPositions.find? inst).map CPosition.lastPrice

def moveMark (inst : ℕ) (mark : Option ℚ) : BookEvent → Option ℚ
  | .updateOrder order => if orderInstrument order = inst then some (mark.getD 0) else mark
  | .getPosition j => if j = inst then some (mark.getD 0) else mark
  | .marketData tick => if tick.instIndex = inst then mark.map fun _ => tick.lastPrice else mark
  | .startDay _ => mark

/-! ### The marks of the book -/

theorem lastPrice_getPosition (m : TestPositionManager) (inst : ℕ) :
    (m.getPosition inst).1.lastPrice = (mark m inst).getD 0 := by
  rw [TestPositionManager.getPosition_fst, mark]
  cases m.allPositions.find? inst <;> rfl

theorem mark_stepBook (m : TestPositionManager) (inst : ℕ) (event : BookEvent) :
    mark (stepBook m event) inst = moveMark inst (mark m inst) event := by
  cases event with
  | updateOrder order =>
      simp only [mark, stepBook, moveMark]
      rw [TestPositionManager.onUpdateOrder_eq, TestPositionManager.find?_bookTrade]
      by_cases hinst : orderInstrument order = inst
      · subst hinst
        rw [if_pos rfl, if_pos rfl, Option.map_some, ← mark, ← lastPrice_getPosition]
        split_ifs
        · rw [lastPrice_addTrade]
        · rfl
      · rw [if_neg (Ne.symm hinst), if_neg hinst]
  | getPosition j =>
      simp only [mark, stepBook, moveMark]
      rw [TestPositionManager.find?_getPosition]
      by_cases hinst : j = inst
      · subst hinst
        rw [if_pos rfl, if_pos rfl, Option.map_some, ← mark, ← lastPrice_getPosition]
      · rw [if_neg (Ne.symm hinst), if_neg hinst]
  | marketData tick =>
      simp only [mark, stepBook, moveMark, TestPositionManager.onMarketData]
      rw [TestPositionManager.find?_updatePrice]
      by_cases hinst : tick.instIndex = inst
      · rw [if_pos hinst.symm, if_pos hinst, Option.map_map, Option.map_map]
        rfl
      · rw [if_neg (Ne.symm hinst), if_neg hinst]
  | startDay date =>
      simp only [mark, stepBook, moveMark]
      rw [TestPositionManager.find?_onStartDay, Option.map_map]
      refine congrFun (congrArg Option.map (funext fun pos => ?_)) _
      exact lastPrice_resetPnl pos

/-- The mark of each instrument moves on its own. -/
theorem mark_runBook (cash : ℚ) (events : List BookEvent) (inst : ℕ) :
    mark (runBook cash events) inst = events.foldl (moveMark inst) none := by
  induction events using List.reverseRecOn with
  | nil => rfl
  | append_singleton events event ih =>
      rw [runBook, List.foldl_append, List.foldl_append, ← ih]
      exact mark_stepBook (runBook cash events) inst event

/-! ### How a mark moves -/

section Mark

variable {inst : ℕ} {event : BookEvent} {events : List BookEvent}

theorem isSome_moveMark (inst : ℕ) (mark : Option ℚ) (event : BookEvent) :
    (moveMark inst mark event).isSome ↔ mark.isSome ∨ LooksUp inst event := by
  cases event with
  | updateOrder order =>
      simp only [moveMark, LooksUp]
      split_ifs with h <;> simp [h]
  | getPosition j =>
      simp only [moveMark, LooksUp]
      split_ifs with h <;> simp [h]
  | marketData tick =>
      simp only [moveMark, LooksUp]
      split_ifs <;> simp
  | startDay date => simp [moveMark, LooksUp]

theorem isSome_foldl_moveMark (inst : ℕ) (mark : Option ℚ) (events : List BookEvent) :
    (events.foldl (moveMark inst) mark).isSome ↔
      mark.isSome ∨ ∃ event ∈ events, LooksUp inst event := by
  induction events generalizing mark with
  | nil => simp
  | cons event events ih =>
      rw [List.foldl_cons, ih, isSome_moveMark, or_assoc]
      simp only [List.mem_cons, exists_eq_or_imp]

theorem getD_moveMark (htick : ¬ Ticks inst event) (mark : Option ℚ) :
    (moveMark inst mark event).getD 0 = mark.getD 0 := by
  cases event with
  | marketData tick => exact congrArg (Option.getD · 0) (if_neg htick)
  | updateOrder order =>
      simp only [moveMark]
      split_ifs <;> rfl
  | getPosition j =>
      simp only [moveMark]
      split_ifs <;> rfl
  | startDay date => rfl

theorem getD_foldl_moveMark (htick : ∀ event ∈ events, ¬ Ticks inst event) (mark : Option ℚ) :
    (events.foldl (moveMark inst) mark).getD 0 = mark.getD 0 := by
  induction events generalizing mark with
  | nil => rfl
  | cons event events ih =>
      obtain ⟨hevent, hevents⟩ := List.forall_mem_cons.mp htick
      rw [List.foldl_cons, ih hevents, getD_moveMark hevent]

end Mark

/-! ### The last tick of an instrument -/

/-- Every entry is marked at the last tick of its instrument, if there was one. -/
def MarkRight (m : TestPositionManager) (events : List BookEvent) : Prop :=
  ∀ before tick after, events = before ++ .marketData tick :: after →
    (∀ event ∈ after, ¬ Ticks tick.instIndex event) →
      ∀ pos, m.allPositions.find? tick.instIndex = some pos → pos.lastPrice = tick.lastPrice

/-- An instrument that is looked up after its last tick was looked up before it, too, or the
tick has price 0. -/
def LookedUpInTime (events : List BookEvent) : Prop :=
  ∀ before tick after, events = before ++ .marketData tick :: after →
    (∀ event ∈ after, ¬ Ticks tick.instIndex event) →
      (∃ event ∈ after, LooksUp tick.instIndex event) →
        (∃ event ∈ before, LooksUp tick.instIndex event) ∨ tick.lastPrice = 0

theorem mark_after_tick (cash : ℚ) {events before after : List BookEvent} {tick : CTickData}
    (hevents : events = before ++ .marketData tick :: after)
    (hlast : ∀ event ∈ after, ¬ Ticks tick.instIndex event) :
    ((mark (runBook cash events) tick.instIndex).isSome ↔
        (∃ event ∈ before, LooksUp tick.instIndex event) ∨
          ∃ event ∈ after, LooksUp tick.instIndex event) ∧
      (mark (runBook cash events) tick.instIndex).getD 0 =
        if ∃ event ∈ before, LooksUp tick.instIndex event then tick.lastPrice else 0 := by
  have hbefore := isSome_foldl_moveMark tick.instIndex none before
  have htick : moveMark tick.instIndex (before.foldl (moveMark tick.instIndex) none)
      (.marketData tick) =
        (before.foldl (moveMark tick.instIndex) none).map fun _ => tick.lastPrice := if_pos rfl
  rw [mark_runBook, hevents, List.foldl_append, List.foldl_cons, htick]
  constructor
  · rw [isSome_foldl_moveMark, Option.isSome_map, hbefore]
    simp
  · rw [getD_foldl_moveMark hlast]
    simp only [Option.isSome_none, Bool.false_eq_true, false_or] at hbefore
    simp only [← hbefore]
    cases before.foldl (moveMark tick.instIndex) none <;> rfl

/-- The entries of a run are marked at the last ticks exactly when no entry is created too late
for the tick that should mark it. -/
theorem markRight_iff (cash : ℚ) (events : List BookEvent) :
    MarkRight (runBook cash events) events ↔ LookedUpInTime events := by
  have hmark : ∀ inst pos, (runBook cash events).allPositions.find? inst = some pos →
      mark (runBook cash events) inst = some pos.lastPrice := by
    intro inst pos hfind
    rw [mark, hfind, Option.map_some]
  constructor
  · intro hright before tick after hevents hlast hafter
    obtain ⟨hentry, hprice⟩ := mark_after_tick cash hevents hlast
    obtain ⟨price, hsome⟩ := Option.isSome_iff_exists.mp (hentry.mpr (.inr hafter))
    obtain ⟨pos, hfind, rfl⟩ := Option.map_eq_some_iff.mp hsome
    rw [hsome, Option.getD_some, hright before tick after hevents hlast pos hfind] at hprice
    split_ifs at hprice with hbefore
    · exact .inl hbefore
    · exact .inr hprice
  · intro hintime before tick after hevents hlast pos hfind
    obtain ⟨hentry, hprice⟩ := mark_after_tick cash hevents hlast
    rw [hmark _ pos hfind, Option.getD_some] at hprice
    rw [hmark _ pos hfind, Option.isSome_some, iff_true_left rfl] at hentry
    split_ifs at hprice with hbefore
    · exact hprice
    · rcases hintime before tick after hevents hlast (hentry.resolve_left hbefore) with h | h
      · exact absurd h hbefore
      · rw [hprice, h]

/-- One unit bought after the only tick: it is valued as if the price were 0. -/
def boughtAfterTick : List BookEvent :=
  [.marketData { instIndex := 5220000, lastPrice := 250 },
    .updateOrder
      { requestid := 0, orderID := 0,
        order := .cffexOrder .shfe
          { instrumentID := 5220000, orderqty := 1, price := 250, tradeprice := 250,
            filledQty := 1, opencloseflag := .flagOpen, pricetype := .limitOrder,
            timetype := .ioc, hedgeflag := .speculation, longshortflag := .flagLong,
            common := ⟨.orderFilled, .noError⟩ } }]

theorem not_markRight_boughtAfterTick :
    ¬ MarkRight (runBook 0 boughtAfterTick) boughtAfterTick := by
  intro hright
  obtain ⟨pos, hfind, hzero⟩ : ∃ pos,
      (runBook 0 boughtAfterTick).allPositions.find? 5220000 = some pos ∧ pos.lastPrice = 0 :=
    ⟨_, rfl, rfl⟩
  have hmarked := hright [] _ _ rfl (by simp [Ticks]) pos hfind
  rw [hzero] at hmarked
  exact absurd hmarked (by decide)

end BluesTrading.MarkPrice
