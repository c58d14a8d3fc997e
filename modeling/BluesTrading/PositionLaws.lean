import BluesTrading.Foundations.Runs
import BluesTrading.Foundations.WhileLoop
import BluesTrading.PositionValue

namespace BluesTrading.PositionLaws

open BluesTrading.Foundations
open BluesTrading.PositionBook
open BluesTrading.PositionUnits
open BluesTrading.PositionValue

/-! ### Closing trades -/

structure MatchState where
  trade : TradeInfo
  posQueue : List PositionItem
  realizedPnL : ℚ

def matchGuard (s : MatchState) : Bool := 0 < s.trade.qty && !s.posQueue.isEmpty

def matchTurn (calcDiff : ℚ → ℚ → ℚ) (unitMultiplier : ℕ) (s : MatchState) : MatchState :=
  match s.posQueue with
  | [] => s
  | oldest :: rest =>
      let matchQty := min oldest.qty s.trade.qty
      let oldest' := { oldest with qty := oldest.qty - matchQty }
      { trade := { s.trade with qty := s.trade.qty - matchQty }
        posQueue := if oldest'.qty = 0 then rest else oldest' :: rest
        realizedPnL := s.realizedPnL +
          matchQty * calcDiff s.trade.price oldest.price * unitMultiplier }

/-- The loop ends, and what it leaves is the result of the recursion on the queue. -/
theorem loopEnds_tradeMatchPos (calcDiff : ℚ → ℚ → ℚ) (m : ℕ) (trade : TradeInfo) (r : ℚ)
    (q : List PositionItem) :
    LoopEnds matchGuard (matchTurn calcDiff m) ⟨trade, q, r⟩
      ⟨{ trade with qty := (tradeMatchPos calcDiff m trade r q).qty },
        (tradeMatchPos calcDiff m trade r q).queue,
        (tradeMatchPos calcDiff m trade r q).realizedPnL⟩ := by
  induction q generalizing trade r with
  | nil => exact .of_guard_eq_false (by simp [matchGuard])
  | cons oldest rest ih =>
      rw [tradeMatchPos]
      by_cases hzero : trade.qty = 0
      · rw [if_pos hzero]
        exact .of_guard_eq_false (by simp [matchGuard, hzero])
      · rw [if_neg hzero]
        have hguard : matchGuard ⟨trade, oldest :: rest, r⟩ = true := by
          simp [matchGuard, Nat.pos_of_ne_zero hzero]
        refine .head hguard ?_
        dsimp only [matchTurn]
        split_ifs with hpop
        · exact ih _ _
        · -- the oldest item keeps some quantity, so the trade has none left
          refine .of_guard_eq_false ?_
          have hdone : trade.qty - min oldest.qty trade.qty = 0 := by omega
          simp [matchGuard, hdone]

/-- What a unit of the bucket gains when it is closed at a price. -/
def unitGain (t : PositionType) (price unit : ℚ) : ℚ :=
  if t.isLong then price - unit else unit - price

theorem unitGain_eq (t : PositionType) (price unit : ℚ) :
    unitGain t price unit = t.sign * (price - unit) := by
  unfold unitGain PositionType.sign
  split_ifs <;> ring

@[simp] theorem tradeCount_setPositions (pos : CPosition) (t : PositionType)
    (q : List PositionItem) : (pos.setPositions t q).tradeCount = pos.tradeCount := by
  cases t <;> rfl

/-- A closing trade takes the oldest units of the bucket that it addresses, as many as there are
at most, books what they gain and changes nothing else. -/
theorem addTrade_close (pos : CPosition) (trade : TradeInfo) (hclose : trade.isOpen = false) :
    (∃ left, LoopEnds matchGuard (matchTurn trade.calcDiff pos.unitMultiplier)
        ⟨trade, pos.getPositions trade.bucket, pos.realizedPnL⟩
        ⟨left, (pos.addTrade trade).getPositions trade.bucket,
          (pos.addTrade trade).realizedPnL⟩) ∧
      bucketUnits (pos.addTrade trade) trade.bucket =
        (bucketUnits pos trade.bucket).drop
          (min trade.qty (bucketUnits pos trade.bucket).length) ∧
      (∀ t, t ≠ trade.bucket → (pos.addTrade trade).getPositions t = pos.getPositions t) ∧
      (pos.addTrade trade).tradeCount = pos.tradeCount ∧
      (pos.addTrade trade).realizedPnL = pos.realizedPnL + pos.unitMultiplier *
        (((bucketUnits pos trade.bucket).take
          (min trade.qty (bucketUnits pos trade.bucket).length)).map
            (unitGain trade.bucket trade.price)).sum := by
  have hrealized : (pos.addTrade trade).realizedPnL = (pos.closeMatch trade).realizedPnL := by
    simp only [CPosition.addTrade, hclose, Bool.false_eq_true, if_false]
  have hunits := bucketUnits_addTrade_close pos trade hclose trade.bucket
  have hgain := realizedPnL_addTrade_close pos trade hclose
  refine ⟨⟨{ trade with qty := (pos.closeMatch trade).qty }, ?_⟩, ?_, fun t ht => ?_, ?_, ?_⟩
  · rw [getPositions_addTrade_close pos trade hclose, if_pos rfl, hrealized]
    exact loopEnds_tradeMatchPos _ _ _ _ _
  · rw [hunits, if_pos rfl, ← List.drop_eq_drop_min]
  · rw [getPositions_addTrade_close pos trade hclose, if_neg ht]
  · simp only [CPosition.addTrade, hclose, Bool.false_eq_true, if_false, tradeCount_setPositions]
  · rw [hgain, ← List.take_eq_take_min]
    rw [funext (unitGain_eq trade.bucket trade.price)]

theorem addTrade_close_twoLots :
    let pos : CPosition :=
      { unitMultiplier := 10, longPosition := [⟨5, 1, true, true⟩, ⟨7, 2, true, true⟩] }
    bucketUnits (pos.addTrade ⟨8, 2, false, false, true⟩) .longToday = [7] ∧
      (pos.addTrade ⟨8, 2, false, false, true⟩).realizedPnL = 40 := by
  intro pos
  obtain ⟨-, hunits, -, -, hgain⟩ := addTrade_close pos ⟨8, 2, false, false, true⟩ rfl
  refine ⟨hunits.trans (by decide +kernel), hgain.trans ?_⟩
  decide +kernel

/-! ### The start of a day -/

inductive PositionAction
  | addTrade (trade : TradeInfo)
  | updatePrice (price : ℚ)

def takeAction (pos : CPosition) : PositionAction → CPosition
  | .addTrade trade => pos.addTrade trade
  | .updatePrice price => pos.updatePrice price

theorem wellFlagged_takeActions (actions : List PositionAction) {pos : CPosition}
    (h : WellFlagged pos) : WellFlagged (actions.foldl takeAction pos) := by
  induction actions generalizing pos with
  | nil => exact h
  | cons action actions ih =>
      cases action with
      | addTrade trade => exact ih (h.addTrade trade)
      | updatePrice price => exact ih (h.updatePrice price)

/-- `resetPnl` keeps the quantity of every bucket and prices all units at the mark; the profit is
zero then, and at any later mark it is that of the net quantity since. -/
theorem resetPnl_of_actions (m : ℕ) (actions : List PositionAction) :
    let pos := actions.foldl takeAction { unitMultiplier := m }
    (∀ t, bucketQty pos.resetPnl t = bucketQty pos t) ∧
      (∀ t, ∀ price ∈ bucketUnits pos.resetPnl t, price = pos.lastPrice) ∧
      pos.resetPnl.getPositionPnl = 0 ∧
      ∀ mark, pos.resetPnl.getPositionPnlAt mark =
        pos.unitMultiplier * (((bucketQty pos .longToday + bucketQty pos .longYst : ℕ) : ℚ) -
          (bucketQty pos .shortToday + bucketQty pos .shortYst : ℕ)) * (mark - pos.lastPrice) := by
  intro pos
  have hpos : WellFlagged pos := wellFlagged_takeActions actions (wellFlagged_default m)
  refine ⟨bucketQty_resetPnl pos, fun t price hprice => ?_, getPositionPnl_resetPnl hpos,
    fun mark => ?_⟩
  · rw [bucketUnits_resetPnl] at hprice
    exact List.eq_of_mem_replicate hprice
  · have hzero : pos.resetPnl.getPositionPnlAt pos.lastPrice = 0 := by
      rw [← lastPrice_resetPnl]
      exact getPositionPnl_resetPnl hpos
    rw [getPositionPnlAt_sub hpos.resetPnl mark pos.lastPrice, hzero]
    simp only [netQty, bucketQty_resetPnl, unitMultiplier_resetPnl]
    push_cast
    ring

/-! ### Quantity and amount of a bucket -/

def ammount (items : List PositionItem) : ℚ :=
  (items.map fun item => item.price * (item.qty : ℚ)).sum

/-- The quantity before each item, weighted with the price of the item. -/
def earlierAmmount : ℕ → List PositionItem → ℚ
  | _, [] => 0
  | before, item :: rest => item.price * before + earlierAmmount (before + item.qty) rest

theorem totalAmmount_eq (pos : CPosition) (t : PositionType) (hfits : bucketQty pos t < 2 ^ 32) :
    (pos.getTotalQtyAmmount t).totalAmmount =
      ammount (pos.getPositions t) + earlierAmmount 0 (pos.getPositions t) := by
  have hfold : ∀ (items : List PositionItem) (n : ℕ) (a : ℚ),
      n + (items.map PositionItem.qty).sum < 2 ^ 32 →
      (items.foldl (fun sum each =>
        let qty := (sum.qty + each.qty) % 2 ^ 32
        (⟨qty, sum.totalAmmount + each.price * qty⟩ : QryAmmount)) ⟨n, a⟩).totalAmmount =
        a + ammount items + earlierAmmount n items := by
    intro items
    induction items with
    | nil =>
        intro n a _
        simp [ammount, earlierAmmount]
    | cons item items ih =>
        intro n a hlt
        rw [List.map_cons, List.sum_cons, ← Nat.add_assoc] at hlt
        have hmod : (n + item.qty) % 2 ^ 32 = n + item.qty := Nat.mod_eq_of_lt (by omega)
        simp only [List.foldl_cons, hmod]
        rw [ih _ _ hlt]
        simp only [ammount, List.map_cons, List.sum_cons, earlierAmmount]
        push_cast
        ring
  have htotal := hfold (pos.getPositions t) 0 0 (by simpa [bucketQty] using hfits)
  rw [zero_add] at htotal
  exact htotal

theorem earlierAmmount_nonneg {items : List PositionItem}
    (hprice : ∀ item ∈ items, 0 < item.price) (before : ℕ) :
    0 ≤ earlierAmmount before items := by
  induction items generalizing before with
  | nil => exact le_rfl
  | cons item rest ih =>
      obtain ⟨hitem, hrest⟩ := List.forall_mem_cons.mp hprice
      exact add_nonneg (mul_nonneg hitem.le (Nat.cast_nonneg before)) (ih hrest _)

theorem earlierAmmount_eq_zero_iff {items : List PositionItem}
    (hprice : ∀ item ∈ items, 0 < item.price) (before : ℕ) :
    earlierAmmount before items = 0 ↔
      items = [] ∨ before = 0 ∧ ∀ item ∈ items.dropLast, item.qty = 0 := by
  induction items generalizing before with
  | nil => simp [earlierAmmount]
  | cons item rest ih =>
      obtain ⟨hitem, hrest⟩ := List.forall_mem_cons.mp hprice
      have hfirst : (0 : ℚ) ≤ item.price * before := mul_nonneg hitem.le (Nat.cast_nonneg before)
      rw [earlierAmmount, add_eq_zero_iff_of_nonneg hfirst (earlierAmmount_nonneg hrest _),
        ih hrest, mul_eq_zero, or_iff_right hitem.ne', Nat.cast_eq_zero]
      cases rest with
      | nil => simp
      | cons next rest =>
          simp only [List.dropLast_cons_cons, List.forall_mem_cons, reduceCtorEq, false_or]
          constructor
          · rintro ⟨hbefore, hsum, hqty⟩
            exact ⟨hbefore, by omega, hqty⟩
          · rintro ⟨hbefore, hitem, hqty⟩
            exact ⟨hbefore, by omega, hqty⟩

/-- The quantity of a bucket is right, and its amount is if and only if the quantities before each
item, weighted with the price of the item, add up to zero: with positive prices, if all items but
the last are empty. -/
theorem getTotalQtyAmmount_iff (pos : CPosition) (t : PositionType)
    (hfits : bucketQty pos t < 2 ^ 32) :
    (pos.getTotalQtyAmmount t).qty = bucketQty pos t ∧
      ((pos.getTotalQtyAmmount t).totalAmmount = ammount (pos.getPositions t) ↔
        earlierAmmount 0 (pos.getPositions t) = 0) ∧
      ((∀ item ∈ pos.getPositions t, 0 < item.price) →
        ((pos.getTotalQtyAmmount t).totalAmmount = ammount (pos.getPositions t) ↔
          ∀ item ∈ (pos.getPositions t).dropLast, item.qty = 0)) := by
  have hiff : (pos.getTotalQtyAmmount t).totalAmmount = ammount (pos.getPositions t) ↔
      earlierAmmount 0 (pos.getPositions t) = 0 := by
    rw [totalAmmount_eq pos t hfits, add_eq_left]
  refine ⟨?_, hiff, fun hprice => hiff.trans ?_⟩
  · rw [getTotalQtyAmmount_qty, Nat.mod_eq_of_lt hfits]
  · rw [earlierAmmount_eq_zero_iff hprice]
    constructor
    · rintro (hnil | ⟨-, hqty⟩)
      · simp [hnil]
      · exact hqty
    · exact fun hqty => .inr ⟨rfl, hqty⟩

/-- Two lots of one unit each: the second is counted twice. -/
def twoLots : CPosition := { longPosition := [⟨5, 1, true, true⟩, ⟨7, 1, true, true⟩] }

/-- An emptied lot before one of three units: nothing is counted twice. -/
def emptiedLot : CPosition := { longPosition := [⟨5, 0, true, true⟩, ⟨7, 3, true, true⟩] }

theorem getTotalQtyAmmount_iff_emptiedLot :
    (emptiedLot.getTotalQtyAmmount .longToday).qty = 3 ∧
      (emptiedLot.getTotalQtyAmmount .longToday).totalAmmount =
        ammount (emptiedLot.getPositions .longToday) ∧
      ammount (emptiedLot.getPositions .longToday) = 21 := by
  obtain ⟨hqty, -, hammount⟩ := getTotalQtyAmmount_iff emptiedLot .longToday (by decide)
  exact ⟨hqty, (hammount (by decide +kernel)).mpr (by decide), by decide +kernel⟩

theorem totalAmmount_twoLots :
    bucketQty twoLots .longToday < 2 ^ 32 ∧
      (twoLots.getTotalQtyAmmount .longToday).totalAmmount = 19 ∧
      ammount (twoLots.getPositions .longToday) = 12 := by
  decide +kernel

end BluesTrading.PositionLaws
