import BluesTrading.PositionUnits
import Mathlib.Algebra.BigOperators.Ring.List
import Mathlib.Tactic.LinearCombination

namespace BluesTrading.PositionValue

open BluesTrading.Foundations
open BluesTrading.PositionBook
open BluesTrading.PositionUnits

/-- Every item carries the flags of the bucket it is in. -/
def WellFlagged (pos : CPosition) : Prop :=
  ∀ t, ∀ item ∈ pos.getPositions t, item.isLong = t.isLong ∧ item.isToday = t.isToday

theorem wellFlagged_default (m : ℕ) : WellFlagged { unitMultiplier := m } := by
  intro t item hitem
  cases t <;> simp [CPosition.getPositions] at hitem

theorem WellFlagged.updatePrice {pos : CPosition} (h : WellFlagged pos) (p : ℚ) :
    WellFlagged (pos.updatePrice p) := by
  intro t item hitem
  exact h t item (by simpa [CPosition.updatePrice] using hitem)

theorem itemInvariant_flags :
    ItemInvariant fun t item => item.isLong = t.isLong ∧ item.isToday = t.isToday where
  matched _ _ _ _ h := h
  reopened _ _ _ _ := ⟨rfl, rfl⟩

theorem WellFlagged.addTrade {pos : CPosition} (h : WellFlagged pos) (trade : TradeInfo) :
    WellFlagged (pos.addTrade trade) := by
  refine itemInvariant_flags.addTrade h fun hopen => ?_
  rw [TradeInfo.bucket, if_pos hopen, PositionType.isLong_ofFlags, PositionType.isToday_ofFlags]
  exact ⟨rfl, rfl⟩

theorem WellFlagged.resetPnl {pos : CPosition} (h : WellFlagged pos) : WellFlagged pos.resetPnl :=
  itemInvariant_flags.resetPnl h

/-- The unrealised profit of a bucket at a mark, per unit of multiplier. -/
def bucketValue (pos : CPosition) (x : ℚ) (t : PositionType) : ℚ :=
  t.sign * ((bucketUnits pos t).map fun u => x - u).sum

theorem acculumate_eq (m : ℕ) (x acc : ℚ) (t : PositionType) (q : List PositionItem)
    (hflag : ∀ item ∈ q, item.isLong = t.isLong) :
    CPosition.acculumate m x acc q =
      acc + m * (t.sign * ((LotQueue.units (q.map lot)).map fun u => x - u).sum) := by
  unfold CPosition.acculumate
  induction q generalizing acc with
  | nil => simp
  | cons item q ih =>
      have htail : ∀ item ∈ q, item.isLong = t.isLong := fun i hi =>
        hflag i (List.mem_cons_of_mem _ hi)
      have hhead : item.isLong = t.isLong := hflag item List.mem_cons_self
      rw [List.foldl_cons, ih _ htail]
      cases hlong : t.isLong <;> simp [hhead, hlong, lot, PositionType.sign] <;> ring

theorem getPositionPnlAt_eq {pos : CPosition} (h : WellFlagged pos) (x : ℚ) :
    pos.getPositionPnlAt x = pos.realizedPnL + pos.unitMultiplier *
      (bucketValue pos x .shortToday + bucketValue pos x .shortYst +
        bucketValue pos x .longToday + bucketValue pos x .longYst) := by
  have hflag : ∀ t, ∀ item ∈ pos.getPositions t, item.isLong = t.isLong :=
    fun t item hitem => (h t item hitem).1
  simp only [CPosition.getPositionPnlAt]
  rw [acculumate_eq _ _ _ .longYst pos.longPositionYst (hflag .longYst),
    acculumate_eq _ _ _ .longToday pos.longPosition (hflag .longToday),
    acculumate_eq _ _ _ .shortYst pos.shortPositionYst (hflag .shortYst),
    acculumate_eq _ _ _ .shortToday pos.shortPosition (hflag .shortToday)]
  simp only [bucketValue, bucketUnits, CPosition.getPositions]
  ring

theorem getPositionPnlAt_default (m : ℕ) (x : ℚ) :
    CPosition.getPositionPnlAt { unitMultiplier := m } x = 0 := by
  simp [CPosition.getPositionPnlAt, CPosition.acculumate]

theorem getPositionPnlAt_of_bucket {pos pos' : CPosition} (h : WellFlagged pos)
    (h' : WellFlagged pos') (hmul : pos'.unitMultiplier = pos.unitMultiplier)
    (t : PositionType) (hother : ∀ t', t' ≠ t → bucketUnits pos' t' = bucketUnits pos t')
    (x : ℚ) :
    pos'.getPositionPnlAt x = pos.getPositionPnlAt x +
      (pos'.realizedPnL - pos.realizedPnL) +
      pos.unitMultiplier * (bucketValue pos' x t - bucketValue pos x t) := by
  have hvalue : ∀ t', t' ≠ t → bucketValue pos' x t' = bucketValue pos x t' := by
    intro t' ht'
    simp [bucketValue, hother t' ht']
  rw [getPositionPnlAt_eq h, getPositionPnlAt_eq h', hmul]
  cases t with
  | longToday =>
      rw [hvalue .shortToday (by decide), hvalue .shortYst (by decide),
        hvalue .longYst (by decide)]
      ring
  | longYst =>
      rw [hvalue .shortToday (by decide), hvalue .shortYst (by decide),
        hvalue .longToday (by decide)]
      ring
  | shortToday =>
      rw [hvalue .longToday (by decide), hvalue .shortYst (by decide),
        hvalue .longYst (by decide)]
      ring
  | shortYst =>
      rw [hvalue .shortToday (by decide), hvalue .longToday (by decide),
        hvalue .longYst (by decide)]
      ring

theorem getPositionPnlAt_addTrade_open {pos : CPosition} (h : WellFlagged pos)
    (trade : TradeInfo) (hopen : trade.isOpen = true) (x : ℚ) :
    (pos.addTrade trade).getPositionPnlAt x = pos.getPositionPnlAt x +
      pos.unitMultiplier * (trade.bucket.sign * trade.qty * (x - trade.price)) := by
  rw [getPositionPnlAt_of_bucket h (h.addTrade trade) (by simp) trade.bucket
    (fun t' ht' => by simp [bucketUnits_addTrade_open pos trade hopen, ht']) x]
  simp only [realizedPnL_addTrade_open pos trade hopen, bucketValue,
    bucketUnits_addTrade_open pos trade hopen, if_true, List.map_append, List.sum_append,
    List.map_replicate, List.sum_replicate, nsmul_eq_mul]
  ring

theorem sum_map_sub (us : List ℚ) (x y : ℚ) :
    (us.map fun u => x - u).sum - (us.map fun u => y - u).sum = us.length * (x - y) := by
  induction us with
  | nil => simp
  | cons u us ih =>
      simp only [List.map_cons, List.sum_cons, List.length_cons]
      push_cast
      linarith

/-- A covered close changes the profit by its own price difference only: what
it realises and what it removes from the bucket cancel. -/
theorem getPositionPnlAt_addTrade_close {pos : CPosition} (h : WellFlagged pos)
    (trade : TradeInfo) (hclose : trade.isOpen = false)
    (hcovered : trade.qty ≤ bucketQty pos trade.bucket) (x : ℚ) :
    (pos.addTrade trade).getPositionPnlAt x = pos.getPositionPnlAt x +
      pos.unitMultiplier * (trade.bucket.sign * trade.qty * (trade.price - x)) := by
  have hsplit : ((bucketUnits pos trade.bucket).map fun u => x - u).sum =
      (((bucketUnits pos trade.bucket).take trade.qty).map fun u => x - u).sum +
        (((bucketUnits pos trade.bucket).drop trade.qty).map fun u => x - u).sum := by
    rw [← List.sum_append, ← List.map_append, List.take_append_drop]
  have htake : ((bucketUnits pos trade.bucket).take trade.qty).length = trade.qty := by
    rw [List.length_take, length_bucketUnits]
    exact Nat.min_eq_left hcovered
  have hgain := sum_map_sub ((bucketUnits pos trade.bucket).take trade.qty) trade.price x
  rw [htake] at hgain
  rw [getPositionPnlAt_of_bucket h (h.addTrade trade) (by simp) trade.bucket
    (fun t' ht' => by simp [bucketUnits_addTrade_close pos trade hclose, ht']) x]
  simp only [realizedPnL_addTrade_close pos trade hclose, bucketValue,
    bucketUnits_addTrade_close pos trade hclose, if_true, hsplit, List.sum_map_mul_left]
  linear_combination (pos.unitMultiplier : ℚ) * trade.bucket.sign * hgain

theorem getPositionPnl_resetPnl {pos : CPosition} (h : WellFlagged pos) :
    pos.resetPnl.getPositionPnl = 0 := by
  have hrealized : pos.resetPnl.realizedPnL = 0 := rfl
  rw [CPosition.getPositionPnl, getPositionPnlAt_eq h.resetPnl, hrealized]
  simp [bucketValue, bucketUnits_resetPnl]

def netQty (pos : CPosition) : ℚ :=
  (bucketQty pos .longToday + bucketQty pos .longYst : ℚ) -
    (bucketQty pos .shortToday + bucketQty pos .shortYst)

theorem getPositionPnlAt_sub {pos : CPosition} (h : WellFlagged pos) (x y : ℚ) :
    pos.getPositionPnlAt x =
      pos.getPositionPnlAt y + pos.unitMultiplier * (netQty pos * (x - y)) := by
  have hbucket : ∀ t, bucketValue pos x t =
      bucketValue pos y t + t.sign * (bucketQty pos t * (x - y)) := by
    intro t
    have hshift := sum_map_sub (bucketUnits pos t) x y
    rw [length_bucketUnits] at hshift
    simp only [bucketValue]
    linear_combination t.sign * hshift
  rw [getPositionPnlAt_eq h, getPositionPnlAt_eq h, hbucket .shortToday, hbucket .shortYst,
    hbucket .longToday, hbucket .longYst]
  simp only [PositionType.sign, PositionType.isLong, netQty]
  simp
  ring

/-! ### Both kinds of trade at once -/

/-- Buying counts up, selling counts down, whether it opens or closes. -/
def direction (trade : TradeInfo) : ℚ := if trade.isLong then 1 else -1

theorem sign_bucket (trade : TradeInfo) :
    trade.bucket.sign = if trade.isOpen then direction trade else -direction trade := by
  unfold TradeInfo.bucket PositionType.sign direction
  cases trade.isOpen <;> cases trade.isLong <;> simp

/-- A trade is covered if it opens or finds enough quantity to close. -/
def Covered (pos : CPosition) (trade : TradeInfo) : Prop :=
  trade.isOpen = false → trade.qty ≤ bucketQty pos trade.bucket

theorem getPositionPnlAt_addTrade {pos : CPosition} (h : WellFlagged pos)
    {trade : TradeInfo} (hcovered : Covered pos trade) (x : ℚ) :
    (pos.addTrade trade).getPositionPnlAt x = pos.getPositionPnlAt x +
      pos.unitMultiplier * (direction trade * trade.qty * (x - trade.price)) := by
  have hsign := sign_bucket trade
  cases hopen : trade.isOpen with
  | true =>
      rw [getPositionPnlAt_addTrade_open h trade hopen, hsign, hopen, if_pos rfl]
  | false =>
      rw [getPositionPnlAt_addTrade_close h trade hopen (hcovered hopen), hsign, hopen]
      simp only [Bool.false_eq_true, if_false]
      ring

theorem bucketQty_addTrade_open (pos : CPosition) (trade : TradeInfo)
    (hopen : trade.isOpen = true) (t : PositionType) :
    bucketQty (pos.addTrade trade) t =
      if t = trade.bucket then bucketQty pos t + trade.qty else bucketQty pos t := by
  rw [← length_bucketUnits, bucketUnits_addTrade_open pos trade hopen]
  split_ifs <;> simp [length_bucketUnits]

theorem netQty_of_bucket {pos pos' : CPosition} (t : PositionType) (d : ℚ)
    (hself : (bucketQty pos' t : ℚ) = bucketQty pos t + d)
    (hother : ∀ t', t' ≠ t → bucketQty pos' t' = bucketQty pos t') :
    netQty pos' = netQty pos + t.sign * d := by
  unfold netQty PositionType.sign
  cases t <;> simp [PositionType.isLong, hself, hother] <;> ring

theorem netQty_addTrade {pos : CPosition} {trade : TradeInfo}
    (hcovered : Covered pos trade) :
    netQty (pos.addTrade trade) = netQty pos + direction trade * trade.qty := by
  have hsign := sign_bucket trade
  cases hopen : trade.isOpen with
  | true =>
      have hnet : netQty (pos.addTrade trade) =
          netQty pos + trade.bucket.sign * trade.qty := by
        apply netQty_of_bucket
        · simp [bucketQty_addTrade_open pos trade hopen]
        · intro t' ht'
          simp [bucketQty_addTrade_open pos trade hopen, ht']
      rw [hnet, hsign, hopen, if_pos rfl]
  | false =>
      have hnet : netQty (pos.addTrade trade) =
          netQty pos + trade.bucket.sign * -trade.qty := by
        apply netQty_of_bucket
        · rw [bucketQty_addTrade_close pos trade hopen, if_pos rfl,
            Nat.cast_sub (hcovered hopen), sub_eq_add_neg]
        · intro t' ht'
          simp [bucketQty_addTrade_close pos trade hopen, ht']
      rw [hnet, hsign, hopen]
      simp

end BluesTrading.PositionValue
