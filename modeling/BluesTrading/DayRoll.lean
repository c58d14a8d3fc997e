import BluesTrading.PositionWalk

namespace BluesTrading.DayRoll

open BluesTrading.PositionBook
open BluesTrading.PositionUnits
open BluesTrading.PositionManager
open BluesTrading.PositionWalk

structure RolledPosition (before after : CPosition) : Prop where
  longToday : bucketQty after .longToday = 0
  shortToday : bucketQty after .shortToday = 0
  longYst : bucketQty after .longYst = bucketQty before .longToday + bucketQty before .longYst
  shortYst : bucketQty after .shortYst =
    bucketQty before .shortToday + bucketQty before .shortYst

def RolledToYst (before after : TestPositionManager) : Prop :=
  ∀ inst pos, before.allPositions.find? inst = some pos →
    ∃ pos', after.allPositions.find? inst = some pos' ∧ RolledPosition pos pos'

theorem rolledPosition_iff {before after : CPosition}
    (hsame : ∀ t, bucketQty after t = bucketQty before t) :
    RolledPosition before after ↔
      bucketQty before .longToday = 0 ∧ bucketQty before .shortToday = 0 := by
  constructor
  · intro h
    exact ⟨hsame .longToday ▸ h.longToday, hsame .shortToday ▸ h.shortToday⟩
  · rintro ⟨hlong, hshort⟩
    refine ⟨?_, ?_, ?_, ?_⟩
    · rw [hsame, hlong]
    · rw [hsame, hshort]
    · rw [hsame, hlong, Nat.zero_add]
    · rw [hsame, hshort, Nat.zero_add]

/-- With loops over the items present when they start, `onStartDay` rolls a portfolio over exactly
when it holds nothing of today. -/
theorem rolledToYst_onStartDay (m : TestPositionManager) (date : ℕ) :
    RolledToYst m (m.onStartDay date) ↔
      ∀ inst pos, m.allPositions.find? inst = some pos →
        bucketQty pos .longToday = 0 ∧ bucketQty pos .shortToday = 0 := by
  have hentry : ∀ inst pos, m.allPositions.find? inst = some pos →
      (m.onStartDay date).allPositions.find? inst =
        some (TestPositionManager.startDayPosition pos) := by
    intro inst pos hpos
    rw [TestPositionManager.find?_onStartDay, hpos]
    rfl
  constructor
  · intro hrolled inst pos hpos
    obtain ⟨pos', hpos', hroll⟩ := hrolled inst pos hpos
    rw [hentry inst pos hpos, Option.some_inj] at hpos'
    subst hpos'
    exact (rolledPosition_iff (TestPositionManager.bucketQty_startDayPosition pos)).mp hroll
  · intro hempty inst pos hpos
    have hquantities := TestPositionManager.bucketQty_startDayPosition pos
    exact ⟨_, hentry inst pos hpos, (rolledPosition_iff hquantities).mpr (hempty inst pos hpos)⟩

/-- The day start ends and rolls the portfolio over exactly when it holds nothing of today, and
every loop pushes as many items as its bucket has in place. -/
theorem walkOnStartDay_rolls_iff (rooms : Rooms) (m : TestPositionManager) (date : ℕ) :
    (∃ m', walkOnStartDay rooms m date = some m' ∧ RolledToYst m m') ↔
      ∀ inst pos, m.allPositions.find? inst = some pos →
        (bucketQty pos .longToday = 0 ∧ bucketQty pos .shortToday = 0) ∧
          ∀ t, (pos.getPositions t).length ≤ rooms inst t := by
  simp only [walkOnStartDay_iff]
  constructor
  · rintro ⟨_, ⟨hfits, rfl⟩, hrolled⟩ inst pos hpos
    exact ⟨(rolledToYst_onStartDay m date).mp hrolled inst pos hpos, hfits inst pos hpos⟩
  · intro h
    refine ⟨_, ⟨fun inst pos hpos => (h inst pos hpos).2, rfl⟩, ?_⟩
    exact (rolledToYst_onStartDay m date).mpr fun inst pos hpos => (h inst pos hpos).1

def boughtToday : TestPositionManager :=
  (TestPositionManager.init 0).setPosition 5220000
    { unitMultiplier := 100, longPosition := [⟨100, 1, true, true⟩] }

/-- The one item is pushed in place, and is of today as before. -/
theorem not_rolledToYst_boughtToday :
    ∃ m', walkOnStartDay (fun _ _ => 32) boughtToday 20150105 = some m' ∧
      ¬ RolledToYst boughtToday m' := by
  refine ⟨_, rfl, fun hrolled => ?_⟩
  obtain ⟨pos', hpos', hroll⟩ := hrolled 5220000 _ rfl
  obtain rfl := Option.some.inj hpos'
  exact absurd hroll.longToday (by decide +kernel)

end BluesTrading.DayRoll
