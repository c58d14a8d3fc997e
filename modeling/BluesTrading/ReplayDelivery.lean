import BluesTrading.MarketDataReplayer
import BluesTrading.OrderManager

namespace BluesTrading.ReplayDelivery

open BluesTrading.Foundations
open BluesTrading.OrderData
open BluesTrading.PositionBook
open BluesTrading.PositionUnits
open BluesTrading.PositionManager
open BluesTrading.OrderManager
open BluesTrading.MarketDataReplayer

/-- What a strategy does when it is called: it submits requests one after the
other, seeing the returned id and what it was notified of, and ends in a state. -/
inductive Reaction (σ : Type)
  | done (state : σ)
  | submit (request : OrderRequest) (next : Option ℕ → List Notification → Reaction σ)

namespace Reaction

def run {σ : Type} (byteOrder : ByteOrder) :
    Reaction σ → FakeOrderManager → σ × FakeOrderManager
  | done state, mgr => (state, mgr)
  | submit request next, mgr =>
      let (id, mgr', told) := mgr.submitRequest byteOrder request
      (next id told).run byteOrder mgr'

end Reaction

def Present (mgr : FakeOrderManager) (inst : ℕ) : Prop :=
  mgr.posMgr.allPositions.find? inst ≠ none

section Consumers

variable {σ : Type} (byteOrder : ByteOrder) (onMarketData : σ → CTickData → Reaction σ)

def strategyConsumer (s : σ × FakeOrderManager) (tick : CTickData) : σ × FakeOrderManager :=
  (onMarketData s.1 tick).run byteOrder s.2

/-- The position manager as a consumer of ticks. -/
def positionConsumer (s : σ × FakeOrderManager) (tick : CTickData) : σ × FakeOrderManager :=
  (s.1, { s.2 with posMgr := s.2.posMgr.onMarketData tick })

def strategyFirst : List (σ × FakeOrderManager → CTickData → σ × FakeOrderManager) :=
  [strategyConsumer byteOrder onMarketData, positionConsumer]

def positionFirst : List (σ × FakeOrderManager → CTickData → σ × FakeOrderManager) :=
  [positionConsumer, strategyConsumer byteOrder onMarketData]

/-- The reaction to a tick creates the position of the tick's instrument. -/
def CreatesPosition (s : σ × FakeOrderManager) (tick : CTickData) : Prop :=
  ¬ Present s.2 tick.instIndex ∧
    Present (strategyConsumer byteOrder onMarketData s tick).2 tick.instIndex

end Consumers

/-! ### The book without its marks -/

def unmarked (m : TestPositionManager) : TestPositionManager :=
  { m with allPositions := m.allPositions.mapValues fun _ pos => pos.updatePrice 0 }

def unmarkedManager (mgr : FakeOrderManager) : FakeOrderManager :=
  { mgr with posMgr := unmarked mgr.posMgr }

theorem getPosition_unmarked (m : TestPositionManager) (inst : ℕ) :
    (unmarked m).getPosition inst =
      ((m.getPosition inst).1.updatePrice 0, unmarked (m.getPosition inst).2) := by
  unfold TestPositionManager.getPosition unmarked
  rw [OrderedMap.find?_mapValues]
  cases m.allPositions.find? inst with
  | none => simp [OrderedMap.mapValues_insert, CPosition.updatePrice]
  | some pos => rfl

@[simp] theorem getTotalQtyAmmount_updatePrice (pos : CPosition) (p : ℚ) (t : PositionType) :
    (pos.updatePrice p).getTotalQtyAmmount t = pos.getTotalQtyAmmount t := by
  cases t <;> rfl

theorem addTrade_updatePrice (pos : CPosition) (p : ℚ) (trade : TradeInfo) :
    (pos.updatePrice p).addTrade trade = (pos.addTrade trade).updatePrice p := by
  obtain ⟨price, qty, isOpen, isLong, isToday⟩ := trade
  cases isOpen <;> cases isLong <;> cases isToday <;> rfl

theorem onUpdateOrder_unmarked (m : TestPositionManager) (order : OrderDataDetail) :
    (unmarked m).onUpdateOrder order = unmarked (m.onUpdateOrder order) := by
  have hset : ∀ (m : TestPositionManager) (inst : ℕ) (pos : CPosition),
      (unmarked m).setPosition inst (pos.updatePrice 0) = unmarked (m.setPosition inst pos) := by
    intro m inst pos
    simp [unmarked, TestPositionManager.setPosition, OrderedMap.mapValues_insert]
  simp only [TestPositionManager.onUpdateOrder_eq, TestPositionManager.bookTrade,
    getPosition_unmarked, addTrade_updatePrice, hset]
  split_ifs <;> rfl

/-! ### What a request does without the marks -/

theorem checkInventory_unmarked (m : TestPositionManager) (inst orderqty : ℕ)
    (ystPosType todayPosType : PositionType) :
    checkInventory (unmarked m) inst orderqty ystPosType todayPosType =
      (checkInventory m inst orderqty ystPosType todayPosType).map id unmarked := by
  simp only [checkInventory, getPosition_unmarked, getTotalQtyAmmount_updatePrice]
  split_ifs <;> rfl

theorem checkNewOrderRequestValid_unmarked (m : TestPositionManager) (request : OrderRequest) :
    checkNewOrderRequestValid (unmarked m) request =
      (checkNewOrderRequestValid m request).map id unmarked := by
  have hcash : (unmarked m).cash = m.cash := rfl
  cases request with
  | securityNewOrder exch request =>
      simp only [checkNewOrderRequestValid, getPosition_unmarked,
        getTotalQtyAmmount_updatePrice, hcash]
      split_ifs <;> rfl
  | futureNewOrder exch request =>
      simp only [checkNewOrderRequestValid, checkInventory_unmarked]
      split_ifs <;> rfl
  | sseSecurityCancel blueOrderID => rfl
  | sseSecurityModify newOrder blueOrderID => rfl
  | unsupported requestType => rfl

theorem generateFutureOrder_unmarked (m : TestPositionManager) (requestID : ℕ)
    (exch : FutureExchange) (request : FutureNewOrderRequest) (hint : OrderErrorCode) :
    generateFutureOrder (unmarked m) requestID exch request hint =
      (generateFutureOrder m requestID exch request hint).map id unmarked := by
  simp only [generateFutureOrder, getPosition_unmarked, getTotalQtyAmmount_updatePrice]
  split_ifs <;> rfl

theorem generateOrders_unmarked (m : TestPositionManager) (requestID : ℕ)
    (request : OrderRequest) :
    FakeOrderManager.generateOrders (unmarked m) requestID request =
      (FakeOrderManager.generateOrders m requestID request).map id (Prod.map id unmarked) := by
  cases request with
  | securityNewOrder exch request =>
      simp only [FakeOrderManager.generateOrders, generateSecurityOrder,
        checkNewOrderRequestValid_unmarked]
      rfl
  | futureNewOrder exch request =>
      simp only [FakeOrderManager.generateOrders, checkNewOrderRequestValid_unmarked, Prod.map_snd,
        Prod.map_fst, generateFutureOrder_unmarked]
      rfl
  | sseSecurityCancel blueOrderID => rfl
  | sseSecurityModify newOrder blueOrderID => rfl
  | unsupported requestType => rfl

theorem handleOrder_unmarked (code : OrderErrorCode) (mgr : FakeOrderManager)
    (told : List Notification) (order : OrderDataDetail) :
    FakeOrderManager.handleOrder code (unmarkedManager mgr, told) order =
      (FakeOrderManager.handleOrder code (mgr, told) order).map unmarkedManager id := by
  have hfill : ∀ mgr : FakeOrderManager, (unmarkedManager mgr).fillOrder order =
      unmarkedManager (mgr.fillOrder order) := by
    intro mgr
    simp only [FakeOrderManager.fillOrder, unmarkedManager, onUpdateOrder_unmarked]
    rfl
  have hstore : (unmarkedManager mgr).storeOrder order = unmarkedManager (mgr.storeOrder order) :=
    rfl
  simp only [FakeOrderManager.handleOrder, hstore, hfill]
  split_ifs <;> rfl

theorem foldl_handleOrder_unmarked (code : OrderErrorCode) (orders : List OrderDataDetail)
    (mgr : FakeOrderManager) (told : List Notification) :
    orders.foldl (FakeOrderManager.handleOrder code) (unmarkedManager mgr, told) =
      (orders.foldl (FakeOrderManager.handleOrder code) (mgr, told)).map unmarkedManager id := by
  induction orders generalizing mgr told with
  | nil => rfl
  | cons order orders ih =>
      rw [List.foldl_cons, handleOrder_unmarked, List.foldl_cons]
      exact ih _ _

theorem handleOrders_unmarked (mgr : FakeOrderManager)
    (generated : List OrderDataDetail × OrderErrorCode × TestPositionManager) :
    (unmarkedManager mgr).handleOrders (generated.map id (Prod.map id unmarked)) =
      (mgr.handleOrders generated).map unmarkedManager id :=
  foldl_handleOrder_unmarked generated.2.1 generated.1 { mgr with posMgr := generated.2.2 } []

/-- A request is answered the same whatever the marks, and changes the rest of
the book the same way. -/
theorem submitRequest_unmarked (mgr : FakeOrderManager) (byteOrder : ByteOrder)
    (request : OrderRequest) :
    (unmarkedManager mgr).submitRequest byteOrder request =
      (mgr.submitRequest byteOrder request).map id (Prod.map unmarkedManager id) := by
  have hid : ((unmarkedManager mgr).submitRequest byteOrder request).1 =
      (mgr.submitRequest byteOrder request).1 := by
    cases request <;> rfl
  have hrest : ((unmarkedManager mgr).submitRequest byteOrder request).2 =
      (mgr.submitRequest byteOrder request).2.map unmarkedManager id := by
    have hrecord : (unmarkedManager mgr).recordRequest byteOrder request =
        (mgr.recordRequest byteOrder request).map id unmarkedManager := rfl
    have hposMgr : (unmarkedManager mgr).posMgr = unmarked mgr.posMgr := rfl
    rw [FakeOrderManager.submitRequest_eq, FakeOrderManager.submitRequest_eq, hrecord, hposMgr,
      Prod.map_fst, Prod.map_snd, id_eq, generateOrders_unmarked]
    exact handleOrders_unmarked _ _
  exact Prod.ext hid hrest

theorem run_unmarked {σ : Type} (byteOrder : ByteOrder) (reaction : Reaction σ)
    (mgr : FakeOrderManager) :
    reaction.run byteOrder (unmarkedManager mgr) =
      (reaction.run byteOrder mgr).map id unmarkedManager := by
  induction reaction generalizing mgr with
  | done state => rfl
  | submit request next ih =>
      simp only [Reaction.run, submitRequest_unmarked, Prod.map_fst, Prod.map_snd, id_eq]
      exact ih _ _ _

/-! ### What a request does to the marks -/

def mark (mgr : FakeOrderManager) (inst : ℕ) : ℚ := (mgr.posMgr.getPosition inst).1.lastPrice

structure KeepsMarks (mgr mgr' : FakeOrderManager) : Prop where
  mark : ∀ inst, mark mgr' inst = mark mgr inst
  present : ∀ inst, Present mgr inst → Present mgr' inst

theorem KeepsMarks.trans {mgr₁ mgr₂ mgr₃ : FakeOrderManager} (h : KeepsMarks mgr₁ mgr₂)
    (h' : KeepsMarks mgr₂ mgr₃) : KeepsMarks mgr₁ mgr₃ where
  mark inst := (h'.mark inst).trans (h.mark inst)
  present inst hinst := h'.present inst (h.present inst hinst)

theorem keepsMarks_fillOrder (mgr : FakeOrderManager) (order : OrderDataDetail) :
    KeepsMarks mgr (mgr.fillOrder order) where
  mark inst := by
    simp only [mark, FakeOrderManager.fillOrder, TestPositionManager.onUpdateOrder_eq,
      TestPositionManager.getPosition_bookTrade]
    split_ifs with hinst
    · rw [lastPrice_addTrade, hinst]
    · rw [hinst]
    · rfl
  present inst hinst := by
    simp only [Present, FakeOrderManager.fillOrder, TestPositionManager.onUpdateOrder_eq,
      TestPositionManager.find?_bookTrade]
    split_ifs
    · exact Option.some_ne_none _
    · exact Option.some_ne_none _
    · exact hinst

theorem keepsMarks_handleOrder (code : OrderErrorCode)
    (state : FakeOrderManager × List Notification) (order : OrderDataDetail) :
    KeepsMarks state.1 (FakeOrderManager.handleOrder code state order).1 := by
  simp only [FakeOrderManager.handleOrder]
  split_ifs
  · exact ⟨(keepsMarks_fillOrder (state.1.storeOrder order) order).mark,
      (keepsMarks_fillOrder (state.1.storeOrder order) order).present⟩
  · exact ⟨fun _ => rfl, fun _ => id⟩

theorem keepsMarks_foldl_handleOrder (code : OrderErrorCode) (orders : List OrderDataDetail)
    (state : FakeOrderManager × List Notification) :
    KeepsMarks state.1 (orders.foldl (FakeOrderManager.handleOrder code) state).1 := by
  induction orders generalizing state with
  | nil => exact ⟨fun _ => rfl, fun _ => id⟩
  | cons order orders ih => exact (keepsMarks_handleOrder code state order).trans (ih _)

theorem keepsMarks_submitRequest (mgr : FakeOrderManager) (byteOrder : ByteOrder)
    (request : OrderRequest) : KeepsMarks mgr (mgr.submitRequest byteOrder request).2.1 := by
  rw [FakeOrderManager.submitRequest_eq]
  have hlooked := FakeOrderManager.lookedUp_generateOrders mgr.posMgr
    (mgr.recordRequest byteOrder request).1 request
  generalize FakeOrderManager.generateOrders mgr.posMgr
    (mgr.recordRequest byteOrder request).1 request = generated at hlooked
  have hstart : KeepsMarks mgr
      { (mgr.recordRequest byteOrder request).2 with posMgr := generated.2.2 } :=
    ⟨fun inst => congrArg CPosition.lastPrice (hlooked.getPosition inst), hlooked.present⟩
  exact hstart.trans (keepsMarks_foldl_handleOrder generated.2.1 generated.1 (_, []))

theorem keepsMarks_run {σ : Type} (byteOrder : ByteOrder) (reaction : Reaction σ)
    (mgr : FakeOrderManager) : KeepsMarks mgr (reaction.run byteOrder mgr).2 := by
  induction reaction generalizing mgr with
  | done state => exact ⟨fun _ => rfl, fun _ => id⟩
  | submit request next ih =>
      exact (keepsMarks_submitRequest mgr byteOrder request).trans (ih _ _ _)

theorem mark_eq_zero {mgr : FakeOrderManager} {inst : ℕ} (h : ¬ Present mgr inst) :
    mark mgr inst = 0 := by
  rw [mark, TestPositionManager.getPosition_fst, not_not.mp h]
  rfl

theorem posMgr_eq_iff {mgr mgr' : FakeOrderManager}
    (h : unmarkedManager mgr = unmarkedManager mgr') :
    mgr.posMgr = mgr'.posMgr ↔ ∀ inst, mark mgr inst = mark mgr' inst := by
  have hbook : unmarked mgr.posMgr = unmarked mgr'.posMgr :=
    congrArg FakeOrderManager.posMgr h
  constructor
  · intro heq inst
    rw [mark, mark, heq]
  · intro hmark
    have hcash := congrArg TestPositionManager.cash hbook
    change mgr.posMgr.cash = mgr'.posMgr.cash at hcash
    have hentries : mgr.posMgr.allPositions = mgr'.posMgr.allPositions := by
      ext1 inst
      have hpos := congrArg (fun m => m.allPositions.find? inst) hbook
      have hlast := hmark inst
      simp only [unmarked, OrderedMap.find?_mapValues] at hpos
      simp only [mark, TestPositionManager.getPosition_fst] at hlast
      cases hfind : mgr.posMgr.allPositions.find? inst with
      | none => simpa [hfind, eq_comm] using hpos
      | some pos =>
          cases hfind' : mgr'.posMgr.allPositions.find? inst with
          | none => simp [hfind, hfind'] at hpos
          | some pos' =>
              simp only [hfind, hfind', Option.map_some, Option.some_inj] at hpos
              simp only [hfind, hfind', Option.getD_some] at hlast
              have hrestore := congrArg (fun p => p.updatePrice pos.lastPrice) hpos
              have hpos' : pos = pos'.updatePrice pos.lastPrice := hrestore
              rw [hpos', hlast]
              rfl
    exact congrArg₂ TestPositionManager.mk hentries hcash

/-! ### One tick -/

theorem mark_onMarketData (mgr : FakeOrderManager) (tick : CTickData) (inst : ℕ) [Decidable
    (Present mgr inst)] :
    mark { mgr with posMgr := mgr.posMgr.onMarketData tick } inst =
      if inst = tick.instIndex ∧ Present mgr inst then tick.lastPrice else mark mgr inst := by
  simp only [mark, TestPositionManager.onMarketData, TestPositionManager.getPosition_fst,
    TestPositionManager.find?_updatePrice, Present]
  cases hfind : mgr.posMgr.allPositions.find? inst with
  | none => simp
  | some pos => by_cases hinst : inst = tick.instIndex <;> simp [hinst, CPosition.updatePrice]

theorem unmarked_onMarketData (m : TestPositionManager) (tick : CTickData) :
    unmarked (m.onMarketData tick) = unmarked m := by
  have hentries : (unmarked (m.onMarketData tick)).allPositions = (unmarked m).allPositions := by
    ext1 inst
    simp only [unmarked, TestPositionManager.onMarketData, OrderedMap.find?_mapValues,
      TestPositionManager.find?_updatePrice]
    split_ifs <;> simp [CPosition.updatePrice, Function.comp_def]
  have hcash : (unmarked (m.onMarketData tick)).cash = (unmarked m).cash :=
    TestPositionManager.cash_updatePrice m tick
  exact congrArg₂ TestPositionManager.mk hentries hcash

section TwoReplays

variable {σ : Type} {byteOrder : ByteOrder} {onMarketData : σ → CTickData → Reaction σ}

/-- Two replays that agree up to the marks. -/
def Agree (x y : σ × FakeOrderManager) : Prop :=
  x.1 = y.1 ∧ unmarkedManager x.2 = unmarkedManager y.2

theorem present_iff_of_agree {x y : σ × FakeOrderManager} (h : Agree x y) (inst : ℕ) :
    Present x.2 inst ↔ Present y.2 inst := by
  have hpos := congrArg (fun mgr => mgr.posMgr.allPositions.find? inst) h.2
  simp only [unmarkedManager, unmarked, OrderedMap.find?_mapValues] at hpos
  rw [Present, Present, not_iff_not, ← Option.map_eq_none_iff, hpos, Option.map_eq_none_iff]

theorem agree_positionConsumer (x : σ × FakeOrderManager) (tick : CTickData) :
    Agree (positionConsumer x tick) x := by
  refine ⟨rfl, ?_⟩
  simp only [unmarkedManager, positionConsumer, unmarked_onMarketData]

theorem agree_strategyConsumer {x y : σ × FakeOrderManager} (h : Agree x y)
    (tick : CTickData) :
    Agree (strategyConsumer byteOrder onMarketData x tick)
      (strategyConsumer byteOrder onMarketData y tick) := by
  obtain ⟨hstate, hbook⟩ := h
  unfold strategyConsumer
  rw [hstate]
  have hx := run_unmarked byteOrder (onMarketData y.1 tick) x.2
  have hy := run_unmarked byteOrder (onMarketData y.1 tick) y.2
  rw [hbook, hy] at hx
  exact ⟨(congrArg Prod.fst hx).symm, (congrArg Prod.snd hx).symm⟩

theorem Agree.symm {x y : σ × FakeOrderManager} (h : Agree x y) : Agree y x :=
  ⟨h.1.symm, h.2.symm⟩

theorem Agree.trans {x y z : σ × FakeOrderManager} (h : Agree x y) (h' : Agree y z) :
    Agree x z :=
  ⟨h.1.trans h'.1, h.2.trans h'.2⟩

theorem Agree.step {x y : σ × FakeOrderManager} (h : Agree x y) (tick : CTickData) :
    Agree (positionConsumer (strategyConsumer byteOrder onMarketData x tick) tick)
      (strategyConsumer byteOrder onMarketData (positionConsumer y tick) tick) :=
  (agree_positionConsumer _ tick).trans
    (agree_strategyConsumer (h.trans (agree_positionConsumer y tick).symm) tick)

/-- After a tick the marks of its instrument agree unless the reaction created
the position; all other marks agree as before. -/
theorem mark_step_iff {x y : σ × FakeOrderManager} (h : Agree x y) (tick : CTickData)
    (inst : ℕ) :
    mark (positionConsumer (strategyConsumer byteOrder onMarketData x tick) tick).2 inst =
        mark (strategyConsumer byteOrder onMarketData (positionConsumer y tick) tick).2 inst ↔
      if inst = tick.instIndex then
        CreatesPosition byteOrder onMarketData x tick → tick.lastPrice = 0
      else mark x.2 inst = mark y.2 inst := by
  classical
  have hkeep := keepsMarks_run byteOrder (onMarketData x.1 tick) x.2
  have hkeep' := keepsMarks_run byteOrder (onMarketData (positionConsumer y tick).1 tick)
    (positionConsumer y tick).2
  have hleft : mark (positionConsumer (strategyConsumer byteOrder onMarketData x tick) tick).2
      inst = if inst = tick.instIndex ∧
        Present (strategyConsumer byteOrder onMarketData x tick).2 inst then tick.lastPrice
      else mark x.2 inst := by
    rw [← hkeep.mark inst]
    exact mark_onMarketData _ tick inst
  have hright : mark (strategyConsumer byteOrder onMarketData (positionConsumer y tick) tick).2
      inst = if inst = tick.instIndex ∧ Present x.2 inst then tick.lastPrice
      else mark y.2 inst := by
    rw [present_iff_of_agree h inst, ← mark_onMarketData y.2 tick inst]
    exact hkeep'.mark inst
  rw [hleft, hright]
  by_cases hinst : inst = tick.instIndex
  · subst hinst
    simp only [true_and, if_true]
    by_cases hbefore : Present x.2 tick.instIndex
    · -- the position was there before: both replays mark it
      have hafter : Present (strategyConsumer byteOrder onMarketData x tick).2 tick.instIndex :=
        hkeep.present _ hbefore
      rw [if_pos hafter, if_pos hbefore]
      exact iff_of_true rfl fun hcreates => absurd hbefore hcreates.1
    · rw [if_neg hbefore, mark_eq_zero hbefore,
        mark_eq_zero (mt (present_iff_of_agree h _).mpr hbefore)]
      by_cases hafter : Present (strategyConsumer byteOrder onMarketData x tick).2 tick.instIndex
      · rw [if_pos hafter]
        exact ⟨fun hprice _ => hprice, fun hprice => hprice ⟨hbefore, hafter⟩⟩
      · rw [if_neg hafter]
        exact iff_of_true rfl fun hcreates => absurd hcreates.2 hafter
  · simp [hinst]

/-! ### The whole day -/

theorem forall_split_concat {α : Type} {P : List α → α → List α → Prop} (l : List α) (a : α) :
    (∀ pre x post, l ++ [a] = pre ++ x :: post → P pre x post) ↔
      P l a [] ∧ ∀ pre x post, l = pre ++ x :: post → P pre x (post ++ [a]) := by
  constructor
  · intro h
    refine ⟨h l a [] rfl, ?_⟩
    rintro pre x post rfl
    exact h pre x (post ++ [a]) (by simp)
  · rintro ⟨hlast, hrest⟩ pre x post hsplit
    rcases List.eq_nil_or_concat' post with rfl | ⟨post', b, rfl⟩
    · obtain ⟨rfl, hx⟩ := List.append_inj' hsplit rfl
      obtain rfl := List.singleton_inj.mp hx
      exact hlast
    · have hassoc : l ++ [a] = (pre ++ x :: post') ++ [b] := by simpa using hsplit
      obtain ⟨hl, hb⟩ := List.append_inj' hassoc rfl
      obtain rfl := List.singleton_inj.mp hb
      exact hrest pre x post' hl

theorem deliver_concat {τ : Type} (consumers : List (τ → CTickData → τ))
    (ticks : List CTickData) (tick : CTickData) (s : τ) :
    deliver consumers (ticks ++ [tick]) s =
      consumers.foldl (fun s onMarketData => onMarketData s tick) (deliver consumers ticks s) := by
  simp [deliver]

/-- A position created in reaction to a tick of its instrument is marked later
in the day, or was created at price zero. -/
def MarkedLater (byteOrder : ByteOrder) (onMarketData : σ → CTickData → Reaction σ)
    (s : σ × FakeOrderManager) (pre : List CTickData) (tick : CTickData)
    (post : List CTickData) : Prop :=
  CreatesPosition byteOrder onMarketData
      (deliver (strategyFirst byteOrder onMarketData) pre s) tick →
    tick.lastPrice = 0 ∨ ∃ later ∈ post, later.instIndex = tick.instIndex

theorem agree_deliver (s : σ × FakeOrderManager) (ticks : List CTickData) :
    Agree (deliver (strategyFirst byteOrder onMarketData) ticks s)
      (deliver (positionFirst byteOrder onMarketData) ticks s) := by
  induction ticks using List.reverseRecOn with
  | nil => exact ⟨rfl, rfl⟩
  | append_singleton ticks tick ih =>
      rw [deliver_concat, deliver_concat]
      exact ih.step tick

theorem mark_deliver_iff (s : σ × FakeOrderManager) (ticks : List CTickData) (inst : ℕ) :
    mark (deliver (strategyFirst byteOrder onMarketData) ticks s).2 inst =
        mark (deliver (positionFirst byteOrder onMarketData) ticks s).2 inst ↔
      ∀ pre tick post, ticks = pre ++ tick :: post → tick.instIndex = inst →
        MarkedLater byteOrder onMarketData s pre tick post := by
  induction ticks using List.reverseRecOn with
  | nil => simp [deliver]
  | append_singleton ticks tick ih =>
      rw [deliver_concat, deliver_concat, forall_split_concat]
      refine (mark_step_iff (agree_deliver s ticks) tick inst).trans ?_
      by_cases hinst : inst = tick.instIndex
      · subst hinst
        rw [if_pos rfl]
        constructor
        · intro hprice
          exact ⟨fun _ hcreates => .inl (hprice hcreates),
            fun pre x post _ hx _ => .inr ⟨tick, by simp, hx.symm⟩⟩
        · rintro ⟨hlast, -⟩ hcreates
          exact (hlast rfl hcreates).resolve_right (by simp)
      · -- the last tick neither is of this instrument nor marks it
        have hpost : ∀ pre x post, x.instIndex = inst →
            (MarkedLater byteOrder onMarketData s pre x (post ++ [tick]) ↔
              MarkedLater byteOrder onMarketData s pre x post) := by
          intro pre x post hx
          simp [MarkedLater, hx, Ne.symm hinst]
        rw [if_neg hinst, ih]
        constructor
        · intro h
          exact ⟨fun heq => absurd heq.symm hinst,
            fun pre x post hsplit hx => (hpost pre x post hx).mpr (h pre x post hsplit hx)⟩
        · rintro ⟨-, h⟩ pre x post hsplit hx
          exact (hpost pre x post hx).mp (h pre x post hsplit hx)

/-- The books at the end of the day agree exactly when every position that was
created in reaction to a tick of its own instrument, at a price other than
zero, saw a later tick of that instrument. -/
theorem startReplay_posMgr_eq_iff (replayer : MarketDataReplayerMultiThread)
    (s : σ × FakeOrderManager) :
    (replayer.startReplay (strategyFirst byteOrder onMarketData) s).2.posMgr =
        (replayer.startReplay (positionFirst byteOrder onMarketData) s).2.posMgr ↔
      ∀ pre tick post, replayer.allTicks = pre ++ tick :: post →
        MarkedLater byteOrder onMarketData s pre tick post := by
  rw [MarketDataReplayerMultiThread.startReplay, MarketDataReplayerMultiThread.startReplay,
    posMgr_eq_iff (agree_deliver s replayer.allTicks).2]
  simp only [mark_deliver_iff]
  exact ⟨fun h pre tick post hsplit => h _ pre tick post hsplit rfl,
    fun h inst pre tick post hsplit _ => h pre tick post hsplit⟩

end TwoReplays

def buyOnFirstTick (bought : Bool) (_tick : CTickData) : Reaction Bool :=
  if bought then .done true
  else .submit (auRequest 1 .flagOpen .flagLong) fun _ _ => .done true

/-- The only tick of the day opens the position: whether it is marked depends on
who sees the tick first. -/
theorem startReplay_posMgr_ne :
    let replayer : MarketDataReplayerMultiThread :=
      ⟨20150105, [{ instIndex := 5220000, timeInMS := 32400000, lastPrice := 250 }]⟩
    (replayer.startReplay (strategyFirst .littleEndian buyOnFirstTick)
        (false, newManager 0)).2.posMgr ≠
      (replayer.startReplay (positionFirst .littleEndian buyOnFirstTick)
        (false, newManager 0)).2.posMgr := by
  decide +kernel

end BluesTrading.ReplayDelivery
