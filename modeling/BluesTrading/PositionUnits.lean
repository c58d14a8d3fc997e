import BluesTrading.PositionBook

namespace BluesTrading.PositionUnits

open BluesTrading.Foundations
open BluesTrading.PositionBook

def lot (item : PositionItem) : ℚ × ℕ := (item.price, item.qty)

def bucketUnits (pos : CPosition) (t : PositionType) : List ℚ :=
  LotQueue.units ((pos.getPositions t).map lot)

def bucketQty (pos : CPosition) (t : PositionType) : ℕ :=
  ((pos.getPositions t).map PositionItem.qty).sum

theorem length_bucketUnits (pos : CPosition) (t : PositionType) :
    (bucketUnits pos t).length = bucketQty pos t := by
  simp [bucketUnits, bucketQty, LotQueue.length_units, lot, Function.comp_def]

/-- `getTotalQtyAmmount` counts a bucket modulo 32 bits. -/
theorem getTotalQtyAmmount_qty (pos : CPosition) (t : PositionType) :
    (pos.getTotalQtyAmmount t).qty = bucketQty pos t % 2 ^ 32 := by
  have hfold : ∀ (items : List PositionItem) (n : ℕ) (a : ℚ),
      (items.foldl (fun sum each =>
        let qty := (sum.qty + each.qty) % 2 ^ 32
        (⟨qty, sum.totalAmmount + each.price * qty⟩ : QryAmmount)) ⟨n % 2 ^ 32, a⟩).qty =
        (n + (items.map PositionItem.qty).sum) % 2 ^ 32 := by
    intro items
    induction items with
    | nil =>
        intro n a
        rfl
    | cons item items ih =>
        intro n a
        simp only [List.foldl_cons, Nat.mod_add_mod, ih, List.map_cons, List.sum_cons,
          Nat.add_assoc]
  have htotal := hfold (pos.getPositions t) 0 0
  rwa [Nat.zero_add] at htotal

/-! ### Field access -/

@[simp] theorem getPositions_setPositions (pos : CPosition) (t t' : PositionType)
    (q : List PositionItem) :
    (pos.setPositions t q).getPositions t' = if t' = t then q else pos.getPositions t' := by
  cases t <;> cases t' <;> rfl

@[simp] theorem lastPrice_setPositions (pos : CPosition) (t : PositionType)
    (q : List PositionItem) : (pos.setPositions t q).lastPrice = pos.lastPrice := by
  cases t <;> rfl

@[simp] theorem unitMultiplier_setPositions (pos : CPosition) (t : PositionType)
    (q : List PositionItem) :
    (pos.setPositions t q).unitMultiplier = pos.unitMultiplier := by
  cases t <;> rfl

@[simp] theorem realizedPnL_setPositions (pos : CPosition) (t : PositionType)
    (q : List PositionItem) : (pos.setPositions t q).realizedPnL = pos.realizedPnL := by
  cases t <;> rfl

theorem getPositions_congr {pos pos' : CPosition} (t : PositionType)
    (hl : pos'.longPosition = pos.longPosition)
    (hly : pos'.longPositionYst = pos.longPositionYst)
    (hs : pos'.shortPosition = pos.shortPosition)
    (hsy : pos'.shortPositionYst = pos.shortPositionYst) :
    pos'.getPositions t = pos.getPositions t := by
  cases t <;> simpa [CPosition.getPositions]

@[simp] theorem getPositions_realizedPnL (pos : CPosition) (r : ℚ) (t : PositionType) :
    CPosition.getPositions { pos with realizedPnL := r } t = pos.getPositions t :=
  getPositions_congr t rfl rfl rfl rfl

@[simp] theorem getPositions_tradeCount (pos : CPosition) (n : ℕ) (t : PositionType) :
    CPosition.getPositions { pos with tradeCount := n } t = pos.getPositions t :=
  getPositions_congr t rfl rfl rfl rfl

@[simp] theorem getPositions_lastPrice (pos : CPosition) (p : ℚ) (t : PositionType) :
    CPosition.getPositions { pos with lastPrice := p } t = pos.getPositions t :=
  getPositions_congr t rfl rfl rfl rfl

@[simp] theorem bucketUnits_updatePrice (pos : CPosition) (p : ℚ) (t : PositionType) :
    bucketUnits (pos.updatePrice p) t = bucketUnits pos t := by
  simp [bucketUnits, CPosition.updatePrice]

/-! ### The matching loop -/

theorem tradeMatchPos_queue (calcDiff : ℚ → ℚ → ℚ) (m : ℕ) (trade : TradeInfo) (r : ℚ)
    (q : List PositionItem) :
    (tradeMatchPos calcDiff m trade r q).queue.map lot =
      LotQueue.consume trade.qty (q.map lot) := by
  induction q generalizing trade r with
  | nil => rfl
  | cons oldest rest ih =>
      simp only [tradeMatchPos, List.map_cons]
      rw [show lot oldest = (oldest.price, oldest.qty) from rfl, LotQueue.consume]
      by_cases hzero : trade.qty = 0
      · simp [hzero, lot]
      · by_cases hle : oldest.qty ≤ trade.qty
        · simp [hzero, hle, ih]
        · have hkeep : oldest.qty - trade.qty ≠ 0 := by omega
          simp [hzero, hle, Nat.min_eq_right (not_le.mp hle).le, hkeep, lot]

theorem tradeMatchPos_realizedPnL (calcDiff : ℚ → ℚ → ℚ) (m : ℕ) (trade : TradeInfo)
    (r : ℚ) (q : List PositionItem) :
    (tradeMatchPos calcDiff m trade r q).realizedPnL =
      r + m * LotQueue.matchedSum (calcDiff trade.price) trade.qty (q.map lot) := by
  induction q generalizing trade r with
  | nil => simp [tradeMatchPos, LotQueue.matchedSum]
  | cons oldest rest ih =>
      simp only [tradeMatchPos, List.map_cons]
      rw [show lot oldest = (oldest.price, oldest.qty) from rfl, LotQueue.matchedSum]
      by_cases hzero : trade.qty = 0
      · simp [hzero]
      · by_cases hle : oldest.qty ≤ trade.qty
        · simp only [hzero, if_false, Nat.min_eq_left hle, Nat.sub_self, if_true, hle, ih,
            nsmul_eq_mul]
          ring
        · have hmin : min oldest.qty trade.qty = trade.qty :=
            Nat.min_eq_right (not_le.mp hle).le
          have hkeep : oldest.qty - trade.qty ≠ 0 := by omega
          simp only [hzero, if_false, hmin, hkeep, hle, nsmul_eq_mul]
          ring

theorem tradeMatchPos_qty (calcDiff : ℚ → ℚ → ℚ) (m : ℕ) (trade : TradeInfo) (r : ℚ)
    (q : List PositionItem) :
    (tradeMatchPos calcDiff m trade r q).qty =
      trade.qty - (q.map PositionItem.qty).sum := by
  induction q generalizing trade r with
  | nil => simp [tradeMatchPos]
  | cons oldest rest ih =>
      simp only [tradeMatchPos, List.map_cons, List.sum_cons]
      by_cases hzero : trade.qty = 0
      · simp [hzero]
      · by_cases hle : oldest.qty ≤ trade.qty
        · simp only [hzero, if_false, Nat.min_eq_left hle, Nat.sub_self, if_true, ih]
          omega
        · have hkeep : oldest.qty - trade.qty ≠ 0 := by omega
          simp only [hzero, if_false, Nat.min_eq_right (not_le.mp hle).le, hkeep]
          omega

/-- An item that is left is one of before, or what a match leaves of one. -/
theorem mem_tradeMatchPos (calcDiff : ℚ → ℚ → ℚ) (m : ℕ) (trade : TradeInfo) (r : ℚ)
    (q : List PositionItem) {item : PositionItem}
    (h : item ∈ (tradeMatchPos calcDiff m trade r q).queue) :
    item ∈ q ∨ 0 < item.qty ∧ ∃ n, { item with qty := n } ∈ q := by
  induction q generalizing trade r with
  | nil => simp [tradeMatchPos] at h
  | cons oldest rest ih =>
      simp only [tradeMatchPos] at h
      split_ifs at h with hzero hkeep
      · exact .inl h
      · rcases ih _ _ h with hmem | ⟨hpos, n, hn⟩
        · exact .inl (List.mem_cons_of_mem _ hmem)
        · exact .inr ⟨hpos, n, List.mem_cons_of_mem _ hn⟩
      · rcases List.mem_cons.mp h with rfl | h
        · exact .inr ⟨Nat.pos_of_ne_zero hkeep, oldest.qty, List.mem_cons_self⟩
        · exact .inl (List.mem_cons_of_mem _ h)

/-! ### Trades -/

@[simp] theorem lastPrice_addTrade (pos : CPosition) (trade : TradeInfo) :
    (pos.addTrade trade).lastPrice = pos.lastPrice := by
  unfold CPosition.addTrade CPosition.addPosition
  split_ifs <;> simp

@[simp] theorem unitMultiplier_addTrade (pos : CPosition) (trade : TradeInfo) :
    (pos.addTrade trade).unitMultiplier = pos.unitMultiplier := by
  unfold CPosition.addTrade CPosition.addPosition
  split_ifs <;> simp

theorem bucketUnits_addTrade_open (pos : CPosition) (trade : TradeInfo)
    (hopen : trade.isOpen = true) (t : PositionType) :
    bucketUnits (pos.addTrade trade) t =
      if t = trade.bucket then
        bucketUnits pos t ++ List.replicate trade.qty trade.price
      else bucketUnits pos t := by
  simp only [CPosition.addTrade, CPosition.addPosition, bucketUnits, TradeInfo.bucket, hopen,
    if_true, getPositions_setPositions, getPositions_tradeCount]
  split_ifs with h <;> simp [h, lot]

theorem realizedPnL_addTrade_open (pos : CPosition) (trade : TradeInfo)
    (hopen : trade.isOpen = true) :
    (pos.addTrade trade).realizedPnL = pos.realizedPnL := by
  simp [CPosition.addTrade, CPosition.addPosition, hopen]

theorem getPositions_addTrade_close (pos : CPosition) (trade : TradeInfo)
    (hclose : trade.isOpen = false) (t : PositionType) :
    (pos.addTrade trade).getPositions t =
      if t = trade.bucket then (pos.closeMatch trade).queue else pos.getPositions t := by
  simp only [CPosition.addTrade, hclose, Bool.false_eq_true, if_false, getPositions_realizedPnL,
    getPositions_setPositions]

theorem bucketUnits_addTrade_close (pos : CPosition) (trade : TradeInfo)
    (hclose : trade.isOpen = false) (t : PositionType) :
    bucketUnits (pos.addTrade trade) t =
      if t = trade.bucket then (bucketUnits pos t).drop trade.qty
      else bucketUnits pos t := by
  rw [bucketUnits, getPositions_addTrade_close pos trade hclose]
  split_ifs with h
  · rw [CPosition.closeMatch, tradeMatchPos_queue, LotQueue.units_consume, h]
    rfl
  · rfl

/-- A closing trade books the difference to the trade price for every unit it
takes, with the sign of the bucket. -/
theorem realizedPnL_addTrade_close (pos : CPosition) (trade : TradeInfo)
    (hclose : trade.isOpen = false) :
    (pos.addTrade trade).realizedPnL = pos.realizedPnL + pos.unitMultiplier *
      (((bucketUnits pos trade.bucket).take trade.qty).map fun u =>
        trade.bucket.sign * (trade.price - u)).sum := by
  have hdiff : trade.calcDiff trade.price =
      fun u => trade.bucket.sign * (trade.price - u) :=
    funext (trade.calcDiff_eq hclose)
  simp only [CPosition.addTrade, hclose, Bool.false_eq_true, if_false]
  rw [CPosition.closeMatch, tradeMatchPos_realizedPnL, LotQueue.matchedSum_eq, hdiff]
  rfl

theorem unmatchedQty_close (pos : CPosition) (trade : TradeInfo)
    (hclose : trade.isOpen = false) :
    pos.unmatchedQty trade = trade.qty - bucketQty pos trade.bucket := by
  simp [CPosition.unmatchedQty, hclose, CPosition.closeMatch, tradeMatchPos_qty, bucketQty]

theorem bucketQty_addTrade_close (pos : CPosition) (trade : TradeInfo)
    (hclose : trade.isOpen = false) (t : PositionType) :
    bucketQty (pos.addTrade trade) t =
      if t = trade.bucket then bucketQty pos t - trade.qty else bucketQty pos t := by
  rw [← length_bucketUnits, bucketUnits_addTrade_close pos trade hclose]
  split_ifs <;> simp [length_bucketUnits]

/-! ### The day-end pass -/

@[simp] theorem lastPrice_reopenItem (t : PositionType) (pos : CPosition)
    (item : PositionItem) : (CPosition.reopenItem t pos item).lastPrice = pos.lastPrice := by
  simp [CPosition.reopenItem]

@[simp] theorem unitMultiplier_reopenItem (t : PositionType) (pos : CPosition)
    (item : PositionItem) :
    (CPosition.reopenItem t pos item).unitMultiplier = pos.unitMultiplier := by
  simp [CPosition.reopenItem]

theorem bucketUnits_reopenItem (t t' : PositionType) (pos : CPosition) (item : PositionItem) :
    bucketUnits (CPosition.reopenItem t pos item) t' =
      if t' = t then
        (bucketUnits pos t).drop item.qty ++ List.replicate item.qty pos.lastPrice
      else bucketUnits pos t' := by
  rw [CPosition.reopenItem, bucketUnits_addTrade_open _ _ rfl,
    bucketUnits_addTrade_close _ _ rfl]
  simp only [TradeInfo.bucket, Bool.not_not, PositionType.ofFlags_flags, if_true,
    Bool.false_eq_true, if_false]
  split_ifs with h <;> simp [h]

@[simp] theorem lastPrice_foldl_reopenItem (t : PositionType) (items : List PositionItem)
    (pos : CPosition) :
    (items.foldl (CPosition.reopenItem t) pos).lastPrice = pos.lastPrice := by
  induction items generalizing pos with
  | nil => rfl
  | cons item items ih => simp [ih]

@[simp] theorem unitMultiplier_foldl_reopenItem (t : PositionType)
    (items : List PositionItem) (pos : CPosition) :
    (items.foldl (CPosition.reopenItem t) pos).unitMultiplier = pos.unitMultiplier := by
  induction items generalizing pos with
  | nil => rfl
  | cons item items ih => simp [ih]

theorem bucketUnits_foldl_reopenItem (t t' : PositionType) (items : List PositionItem)
    (pos : CPosition) :
    bucketUnits (items.foldl (CPosition.reopenItem t) pos) t' =
      if t' = t then
        (items.map PositionItem.qty).foldl
          (fun us n => us.drop n ++ List.replicate n pos.lastPrice) (bucketUnits pos t)
      else bucketUnits pos t' := by
  induction items generalizing pos with
  | nil => by_cases h : t' = t <;> simp [h]
  | cons item items ih =>
      rw [List.foldl_cons, ih]
      by_cases h : t' = t <;> simp [h, bucketUnits_reopenItem]

@[simp] theorem lastPrice_reopenBucket (pos : CPosition) (t : PositionType) :
    (pos.reopenBucket t).lastPrice = pos.lastPrice := by
  simp [CPosition.reopenBucket]

@[simp] theorem unitMultiplier_reopenBucket (pos : CPosition) (t : PositionType) :
    (pos.reopenBucket t).unitMultiplier = pos.unitMultiplier := by
  simp [CPosition.reopenBucket]

theorem bucketUnits_reopenBucket (pos : CPosition) (t t' : PositionType) :
    bucketUnits (pos.reopenBucket t) t' =
      if t' = t then List.replicate (bucketQty pos t) pos.lastPrice
      else bucketUnits pos t' := by
  rw [CPosition.reopenBucket, bucketUnits_foldl_reopenItem]
  split_ifs with h
  · have hlen : ((pos.getPositions t).map PositionItem.qty).sum =
        (bucketUnits pos t).length := (length_bucketUnits pos t).symm
    rw [LotQueue.foldl_turnover _ _ _ hlen.le, hlen, List.drop_length, List.nil_append,
      length_bucketUnits]
  · rfl

theorem bucketQty_reopenBucket (pos : CPosition) (t t' : PositionType) :
    bucketQty (pos.reopenBucket t) t' = bucketQty pos t' := by
  rw [← length_bucketUnits, bucketUnits_reopenBucket]
  split_ifs with h
  · simp [h]
  · exact length_bucketUnits pos t'

@[simp] theorem lastPrice_resetPnl (pos : CPosition) :
    pos.resetPnl.lastPrice = pos.lastPrice := by
  simp [CPosition.resetPnl]

@[simp] theorem unitMultiplier_resetPnl (pos : CPosition) :
    pos.resetPnl.unitMultiplier = pos.unitMultiplier := by
  simp [CPosition.resetPnl]

/-- After `resetPnl` every bucket holds as many units as before, all of them
at the mark. -/
theorem bucketUnits_resetPnl (pos : CPosition) (t : PositionType) :
    bucketUnits pos.resetPnl t = List.replicate (bucketQty pos t) pos.lastPrice := by
  have hreset : bucketUnits pos.resetPnl t = bucketUnits
      ((((pos.reopenBucket .shortToday).reopenBucket .shortYst).reopenBucket
        .longToday).reopenBucket .longYst) t := by
    simp only [CPosition.resetPnl, bucketUnits, getPositions_realizedPnL]
  rw [hreset]
  cases t <;> simp [bucketUnits_reopenBucket, bucketQty_reopenBucket]

theorem bucketQty_resetPnl (pos : CPosition) (t : PositionType) :
    bucketQty pos.resetPnl t = bucketQty pos t := by
  rw [← length_bucketUnits, bucketUnits_resetPnl, List.length_replicate]

/-! ### Properties of items -/

/-- What an item of a queue keeps when a part of it is matched, and when it is closed and opened
again. -/
structure ItemInvariant (Q : PositionType → PositionItem → Prop) : Prop where
  matched : ∀ t item n, 0 < n → Q t item → Q t { item with qty := n }
  reopened : ∀ t item price, Q t item → Q t ⟨price, item.qty, t.isLong, t.isToday⟩

namespace ItemInvariant

variable {Q : PositionType → PositionItem → Prop} {pos : CPosition}

theorem addTrade (hQ : ItemInvariant Q) (h : ∀ t, ∀ item ∈ pos.getPositions t, Q t item)
    {trade : TradeInfo} (hopens : trade.isOpen = true →
      Q trade.bucket ⟨trade.price, trade.qty, trade.isLong, trade.isToday⟩) :
    ∀ t, ∀ item ∈ (pos.addTrade trade).getPositions t, Q t item := by
  intro t item hitem
  cases hopen : trade.isOpen with
  | true =>
      have hbucket : trade.bucket = PositionType.ofFlags trade.isLong trade.isToday :=
        if_pos hopen
      simp only [CPosition.addTrade, hopen, if_true, CPosition.addPosition,
        getPositions_setPositions, getPositions_tradeCount] at hitem
      split_ifs at hitem with ht
      · rcases List.mem_append.mp hitem with hold | hnew
        · exact h t item (ht ▸ hold)
        · rw [List.mem_singleton.mp hnew, ht, ← hbucket]
          exact hopens hopen
      · exact h t item hitem
  | false =>
      rw [getPositions_addTrade_close pos trade hopen] at hitem
      split_ifs at hitem with ht
      · subst ht
        rcases mem_tradeMatchPos _ _ _ _ _ hitem with hold | ⟨hpos, n, hn⟩
        · exact h _ item hold
        · exact hQ.matched _ { item with qty := n } item.qty hpos (h _ _ hn)
      · exact h t item hitem

theorem foldl_reopenItem (hQ : ItemInvariant Q) (h : ∀ t, ∀ item ∈ pos.getPositions t, Q t item)
    {t : PositionType} {items : List PositionItem} (hitems : ∀ item ∈ items, Q t item) :
    ∀ t', ∀ item ∈ (items.foldl (CPosition.reopenItem t) pos).getPositions t', Q t' item := by
  induction items generalizing pos with
  | nil => exact h
  | cons item items ih =>
      obtain ⟨hitem, hitems⟩ := List.forall_mem_cons.mp hitems
      refine ih (hQ.addTrade (hQ.addTrade h fun hopen => ?_) fun _ => ?_) hitems
      · cases hopen
      · rw [TradeInfo.bucket, if_pos rfl, PositionType.ofFlags_flags]
        exact hQ.reopened t item pos.lastPrice hitem

theorem reopenBucket (hQ : ItemInvariant Q) (h : ∀ t, ∀ item ∈ pos.getPositions t, Q t item)
    (t : PositionType) : ∀ t', ∀ item ∈ (pos.reopenBucket t).getPositions t', Q t' item :=
  hQ.foldl_reopenItem h (h t)

theorem resetPnl (hQ : ItemInvariant Q) (h : ∀ t, ∀ item ∈ pos.getPositions t, Q t item) :
    ∀ t, ∀ item ∈ pos.resetPnl.getPositions t, Q t item := by
  intro t item hitem
  rw [CPosition.resetPnl, getPositions_realizedPnL] at hitem
  exact hQ.reopenBucket (hQ.reopenBucket (hQ.reopenBucket (hQ.reopenBucket h _) _) _) _ t item
    hitem

end ItemInvariant

end BluesTrading.PositionUnits
