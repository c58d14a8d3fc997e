import BluesTrading.PortfolioConservation
import BluesTrading.PositionWalk

namespace BluesTrading.BookInvariants

open BluesTrading.Foundations
open BluesTrading.InstrumentInfo
open BluesTrading.MarkPrice
open BluesTrading.OrderData
open BluesTrading.PortfolioConservation
open BluesTrading.PositionBook
open BluesTrading.PositionManager
open BluesTrading.PositionUnits
open BluesTrading.PositionValue
open BluesTrading.PositionWalk

/-! ### Invariants of a position -/

/-- What a new position has and nothing takes from it, if the trades are the permitted ones. -/
structure PositionInvariant (permitted : TradeInfo → Prop) (P : ℕ → CPosition → Prop) : Prop where
  new : ∀ inst, P inst { unitMultiplier := getInstrumentUnitMultiplier inst }
  addTrade : ∀ inst pos trade, permitted trade → P inst pos → P inst (pos.addTrade trade)
  updatePrice : ∀ inst pos price, P inst pos → P inst (pos.updatePrice price)
  startDay : ∀ inst pos, P inst pos → P inst (TestPositionManager.startDayPosition pos)

/-- The trade that an event books. -/
def bookedTrade : BookEvent → Option TradeInfo
  | .updateOrder order => if orderStatus order = .orderFilled then some (orderTrade order) else none
  | _ => none

namespace PositionInvariant

variable {permitted : TradeInfo → Prop} {P : ℕ → CPosition → Prop}

theorem stepBook (h : PositionInvariant permitted P) {m : TestPositionManager}
    (hm : ∀ inst, P inst (m.getPosition inst).1) {event : BookEvent}
    (hevent : ∀ trade ∈ bookedTrade event, permitted trade) (inst : ℕ) :
    P inst ((stepBook m event).getPosition inst).1 := by
  cases event with
  | updateOrder order =>
      rw [MarkPrice.stepBook, TestPositionManager.onUpdateOrder_eq,
        TestPositionManager.getPosition_bookTrade]
      split_ifs with hinst hfilled
      · subst hinst
        exact h.addTrade _ _ _ (hevent _ (if_pos hfilled)) (hm _)
      · exact hinst ▸ hm _
      · exact hm inst
  | getPosition j =>
      rw [MarkPrice.stepBook, (m.lookedUp_getPosition j).getPosition inst]
      exact hm inst
  | marketData tick =>
      rcases m.getPosition_onMarketData tick inst with heq | heq
      · exact heq.symm ▸ hm inst
      · exact heq.symm ▸ h.updatePrice _ _ _ (hm inst)
  | startDay date =>
      rcases m.getPosition_onStartDay date inst with heq | heq
      · exact heq.symm ▸ hm inst
      · exact heq.symm ▸ h.startDay _ _ (hm inst)

theorem runBook (h : PositionInvariant permitted P) (cash : ℚ) {events : List BookEvent}
    (hevents : ∀ event ∈ events, ∀ trade ∈ bookedTrade event, permitted trade) (inst : ℕ) :
    P inst ((runBook cash events).getPosition inst).1 := by
  induction events using List.reverseRecOn generalizing inst with
  | nil => exact h.new inst
  | append_singleton events event ih =>
      obtain ⟨hevents, hevent⟩ := List.forall_mem_append.mp hevents
      rw [MarkPrice.runBook, List.foldl_append]
      exact h.stepBook (ih hevents) (hevent event (List.mem_singleton_self event)) inst

end PositionInvariant

theorem positionInvariant_wellFlagged :
    PositionInvariant (fun _ => True) fun _ pos => WellFlagged pos where
  new _ := wellFlagged_default _
  addTrade _ _ trade _ h := h.addTrade trade
  updatePrice _ _ price h := h.updatePrice price
  startDay _ _ h := PortfolioConservation.WellFlagged.startDay h

theorem positionInvariant_multiplier :
    PositionInvariant (fun _ => True) fun inst pos =>
      pos.unitMultiplier = getInstrumentUnitMultiplier inst where
  new _ := rfl
  addTrade _ pos trade _ h := (unitMultiplier_addTrade pos trade).trans h
  updatePrice _ _ _ h := h
  startDay _ pos h := (unitMultiplier_resetPnl pos).trans h

/-! ### Quantities -/

def PositiveItems (pos : CPosition) : Prop := ∀ t, ∀ item ∈ pos.getPositions t, 0 < item.qty

theorem itemInvariant_positive : ItemInvariant fun _ item => 0 < item.qty where
  matched _ _ _ hpos _ := hpos
  reopened _ _ _ h := h

theorem positionInvariant_positiveItems :
    PositionInvariant (fun trade => trade.isOpen = true → 0 < trade.qty)
      fun _ pos => PositiveItems pos where
  new _ t item hitem := by cases t <;> cases hitem
  addTrade _ _ _ hopens h := itemInvariant_positive.addTrade h hopens
  updatePrice _ _ price h t item hitem :=
    h t item (by simpa only [CPosition.updatePrice, getPositions_lastPrice] using hitem)
  startDay _ pos h t item hitem := by
    rw [TestPositionManager.getPositions_startDayPosition] at hitem
    exact itemInvariant_positive.resetPnl h t item hitem

/-! ### The profit by queues -/

/-- What the items of a queue have gained at a price, with the sign of the queue. -/
def queueGain (pos : CPosition) (price : ℚ) (t : PositionType) : ℚ :=
  t.sign * ((pos.getPositions t).map fun item => item.qty * (price - item.price)).sum

theorem bucketValue_eq_queueGain (pos : CPosition) (price : ℚ) (t : PositionType) :
    bucketValue pos price t = queueGain pos price t := by
  rw [bucketValue, bucketUnits, LotQueue.sum_map_units, List.map_map, queueGain]
  simp only [Function.comp_def, lot, nsmul_eq_mul]

/-- An opening fill of the run has a quantity. -/
def OpensSome (event : BookEvent) : Prop :=
  ∀ trade ∈ bookedTrade event, trade.isOpen = true → 0 < trade.qty

instance (event : BookEvent) : Decidable (OpensSome event) :=
  inferInstanceAs (Decidable (∀ trade ∈ bookedTrade event, _ → _))

/-- In every book that events lead to, all items carry the flags of their queue, and all have a
quantity if all opening fills have one; so the sign that the profit takes from an item is that
of its queue.  A run whose day starts lose their way in a bucket leads to no book. -/
theorem items_of_runWalks (cash : ℚ) (events : List (Rooms × BookEvent))
    {m : TestPositionManager} (hm : runWalks cash events = some m) {inst : ℕ} {pos : CPosition}
    (hpos : m.allPositions.find? inst = some pos) :
    WellFlagged pos ∧
      ((∀ event ∈ events, OpensSome event.2) → PositiveItems pos) ∧
      ∀ price, pos.getPositionPnlAt price = pos.realizedPnL + pos.unitMultiplier *
        (queueGain pos price .shortToday + queueGain pos price .shortYst +
          queueGain pos price .longToday + queueGain pos price .longYst) := by
  obtain rfl := eq_runBook_of_runWalks hm
  obtain rfl : ((runBook cash (events.map Prod.snd)).getPosition inst).1 = pos := by
    rw [TestPositionManager.getPosition_fst, hpos, Option.getD_some]
  have hflagged : WellFlagged ((runBook cash (events.map Prod.snd)).getPosition inst).1 :=
    positionInvariant_wellFlagged.runBook cash (fun _ _ _ _ => trivial) inst
  refine ⟨hflagged, fun hopens => ?_, fun price => ?_⟩
  · have hevents : ∀ event ∈ events.map Prod.snd, OpensSome event := List.forall_mem_map.mpr hopens
    exact positionInvariant_positiveItems.runBook cash hevents inst
  · simp only [getPositionPnlAt_eq hflagged, bucketValue_eq_queueGain]

/-- Two lots are bought, marked and reopened at the mark in place, and the older one is sold with
a part of the other. -/
def reopenedAndSold : List (Rooms × BookEvent) :=
  [.updateOrder (futureFill 5220000 2 100 .flagOpen .flagLong),
    .updateOrder (futureFill 5220000 3 101 .flagOpen .flagLong),
    .marketData { instIndex := 5220000, lastPrice := 103 },
    .startDay 20150105,
    .updateOrder (futureFill 5220000 4 105 .flagCloseToday .flagShort)].map
      fun event => (fun _ _ => 32, event)

theorem items_of_runWalks_reopenedAndSold :
    ∃ m pos, runWalks 0 reopenedAndSold = some m ∧
      m.allPositions.find? 5220000 = some pos ∧
      pos.getPositions .longToday = [⟨103, 1, true, true⟩] ∧ WellFlagged pos ∧
      PositiveItems pos ∧
      ∀ price, pos.getPositionPnlAt price = pos.realizedPnL + pos.unitMultiplier *
        (queueGain pos price .shortToday + queueGain pos price .shortYst +
          queueGain pos price .longToday + queueGain pos price .longYst) := by
  obtain ⟨m, pos, hrun, hpos, hitems⟩ : ∃ m pos, runWalks 0 reopenedAndSold = some m ∧
      m.allPositions.find? 5220000 = some pos ∧
        pos.getPositions .longToday = [⟨103, 1, true, true⟩] :=
    ⟨_, _, rfl, rfl, by decide +kernel⟩
  obtain ⟨hflagged, hpositive, hgain⟩ := items_of_runWalks 0 reopenedAndSold hrun hpos
  exact ⟨m, pos, hrun, hpos, hitems, hflagged, hpositive (by decide), hgain⟩

end BluesTrading.BookInvariants
