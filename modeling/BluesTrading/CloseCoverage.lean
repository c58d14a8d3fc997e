import BluesTrading.OrderSession

namespace BluesTrading.CloseCoverage

open BluesTrading.Foundations
open BluesTrading.OrderData
open BluesTrading.PositionBook
open BluesTrading.PositionUnits
open BluesTrading.PositionManager
open BluesTrading.OrderManager
open BluesTrading.OrderSession

def held (m : TestPositionManager) (inst : ℕ) (t : PositionType) : ℕ :=
  bucketQty (m.getPosition inst).1 t

def unmatchedFill (m : TestPositionManager) (order : OrderDataDetail) : ℕ :=
  (m.getPosition (orderInstrument order)).1.unmatchedQty (orderTrade order)

/-- Filling the order closes a position. -/
def Closes (order : OrderDataDetail) : Prop := (orderTrade (tradeOrder order)).isOpen = false

/-- The quantity that filling an order takes from a bucket. -/
def share (inst : ℕ) (t : PositionType) (order : OrderDataDetail) : ℕ :=
  let trade := orderTrade (tradeOrder order)
  if orderInstrument order = inst ∧ trade.isOpen = false ∧ trade.bucket = t then trade.qty else 0

def unfilled (frame : Frame) : List OrderDataDetail :=
  if frame.code = .noError then
    if frame.filled then frame.rest else frame.current :: frame.rest
  else []

def shares (inst : ℕ) (t : PositionType) (orders : List OrderDataDetail) : ℕ :=
  (orders.map (share inst t)).sum

/-- What the suspended calls are still going to take from a bucket. -/
def outstanding (stack : List Frame) (inst : ℕ) (t : PositionType) : ℕ :=
  shares inst t (stack.flatMap unfilled)

/-- The steps of a session in which only futures are closed. -/
def CloseAction : Action → Prop
  | .submit (.futureNewOrder _ request) => request.opencloseflag ≠ .flagOpen
  | .submit _ => False
  | .resume => True
  | .unwind => True
  | .setBook _ => False

/-- The two parts of an accepted closing request, together with the shares
outstanding, fit into the buckets they are taken from. -/
def Fits (s : Session) : Action → Prop
  | .submit (.futureNewOrder exch request) =>
      (checkNewOrderRequestValid s.mgr.posMgr (.futureNewOrder exch request)).1 = .noError →
        let (ystPosType, todayPosType) := closedBuckets request.longshortflag
        let pos := (s.mgr.posMgr.getPosition request.instrumentID).1
        let closeTodayQty := min (pos.getTotalQtyAmmount todayPosType).qty request.orderqty
        outstanding s.stack request.instrumentID todayPosType + closeTodayQty ≤
            held s.mgr.posMgr request.instrumentID todayPosType ∧
          outstanding s.stack request.instrumentID ystPosType +
              (request.orderqty - closeTodayQty) ≤
            held s.mgr.posMgr request.instrumentID ystPosType
  | _ => True

/-! ### One order -/

@[simp] theorem orderInstrument_tradeOrder (order : OrderDataDetail) :
    orderInstrument (tradeOrder order) = orderInstrument order := by
  unfold orderInstrument tradeOrder
  cases order.order <;> rfl

@[simp] theorem orderStatus_tradeOrder (order : OrderDataDetail) :
    orderStatus (tradeOrder order) = .orderFilled := by
  unfold orderStatus tradeOrder
  cases order.order <;> rfl

theorem held_lookedUp {m m' : TestPositionManager} (h : m.LookedUp m') (inst : ℕ)
    (t : PositionType) : held m' inst t = held m inst t := by
  rw [held, held, h.getPosition]

theorem posMgr_fillOrder (mgr : FakeOrderManager) (order : OrderDataDetail) :
    (mgr.fillOrder order).posMgr = mgr.posMgr.bookTrade (orderInstrument order) .orderFilled
      (orderTrade (tradeOrder order)) := by
  rw [← orderStatus_tradeOrder order, ← orderInstrument_tradeOrder order,
    ← TestPositionManager.onUpdateOrder_eq]
  rfl

theorem bucketUnits_onUpdateOrder (m : TestPositionManager) {order : OrderDataDetail}
    (hclose : Closes order) (inst : ℕ) (t : PositionType) :
    bucketUnits ((m.onUpdateOrder (tradeOrder order)).getPosition inst).1 t =
      (bucketUnits (m.getPosition inst).1 t).drop (share inst t order) := by
  have hopen : (orderTrade (tradeOrder order)).isOpen = false := hclose
  rw [TestPositionManager.onUpdateOrder_eq, TestPositionManager.getPosition_bookTrade,
    orderStatus_tradeOrder, orderInstrument_tradeOrder, if_pos rfl, share]
  by_cases hinst : inst = orderInstrument order
  · subst hinst
    rw [if_pos rfl, bucketUnits_addTrade_close _ _ hclose]
    by_cases ht : t = (orderTrade (tradeOrder order)).bucket
    · simp [ht, hopen]
    · simp [ht, Ne.symm ht]
  · simp [hinst, Ne.symm hinst]

theorem held_onUpdateOrder (m : TestPositionManager) {order : OrderDataDetail}
    (hclose : Closes order) (inst : ℕ) (t : PositionType) :
    held (m.onUpdateOrder (tradeOrder order)) inst t = held m inst t - share inst t order := by
  rw [held, ← length_bucketUnits, bucketUnits_onUpdateOrder m hclose, List.length_drop,
    length_bucketUnits, held]

theorem held_fillOrder (mgr : FakeOrderManager) {order : OrderDataDetail}
    (hclose : Closes order) (inst : ℕ) (t : PositionType) :
    held (mgr.fillOrder order).posMgr inst t =
      held mgr.posMgr inst t - share inst t order :=
  held_onUpdateOrder mgr.posMgr hclose inst t

theorem unmatchedFill_tradeOrder (m : TestPositionManager) {order : OrderDataDetail}
    (hclose : Closes order) :
    unmatchedFill m (tradeOrder order) = (orderTrade (tradeOrder order)).qty -
      held m (orderInstrument order) (orderTrade (tradeOrder order)).bucket := by
  rw [unmatchedFill, unmatchedQty_close _ _ hclose, orderInstrument_tradeOrder, held]

theorem unmatchedFill_eq_zero_iff (m : TestPositionManager) {order : OrderDataDetail}
    (hclose : Closes order) :
    unmatchedFill m (tradeOrder order) = 0 ↔
      ∀ inst t, share inst t order ≤ held m inst t := by
  rw [unmatchedFill_tradeOrder m hclose, Nat.sub_eq_zero_iff_le]
  constructor
  · intro hle inst t
    simp only [share]
    split_ifs with h
    · obtain ⟨rfl, -, rfl⟩ := h
      exact hle
    · exact Nat.zero_le _
  · intro hall
    have hself := hall (orderInstrument order) (orderTrade (tradeOrder order)).bucket
    rwa [share, if_pos ⟨rfl, hclose, rfl⟩] at hself

/-! ### The orders of one request -/

@[simp] theorem shares_nil (inst : ℕ) (t : PositionType) : shares inst t [] = 0 := rfl

@[simp] theorem shares_cons (inst : ℕ) (t : PositionType) (order : OrderDataDetail)
    (orders : List OrderDataDetail) :
    shares inst t (order :: orders) = share inst t order + shares inst t orders := rfl

@[simp] theorem shares_append (inst : ℕ) (t : PositionType) (left right : List OrderDataDetail) :
    shares inst t (left ++ right) = shares inst t left + shares inst t right := by
  simp [shares]

theorem closedBuckets_ne (longshortflag : LongShortFlag) :
    (closedBuckets longshortflag).1 ≠ (closedBuckets longshortflag).2 := by
  cases longshortflag <;> decide

section Children

variable (requestID orderID : ℕ) (exch : FutureExchange) {request : FutureNewOrderRequest}

theorem orderTrade_futureOrder (orderqty : ℕ) {opencloseflag : OpenCloseFlag}
    (hflag : opencloseflag ≠ .flagOpen) (common : CommonOrderStatusDetail) :
    let trade := orderTrade (tradeOrder
      (futureOrder requestID orderID exch request orderqty opencloseflag common))
    trade.isOpen = false ∧ trade.qty = orderqty ∧
      trade.bucket = if opencloseflag = .flagCloseToday then
        (closedBuckets request.longshortflag).2 else (closedBuckets request.longshortflag).1 := by
  have hbucket : PositionType.ofFlags (!decide (request.longshortflag = .flagLong))
      (decide (opencloseflag = .flagCloseToday)) =
      if opencloseflag = .flagCloseToday then (closedBuckets request.longshortflag).2
      else (closedBuckets request.longshortflag).1 := by
    unfold closedBuckets
    cases request.longshortflag <;> cases opencloseflag <;> rfl
  simp [orderTrade, tradeOrder, futureOrder, futureTrade, fakeFutureTradeOrder, hflag,
    TradeInfo.bucket, hbucket]

theorem share_futureOrder (inst : ℕ) (t : PositionType) (orderqty : ℕ)
    {opencloseflag : OpenCloseFlag} (hflag : opencloseflag ≠ .flagOpen)
    (common : CommonOrderStatusDetail) :
    share inst t (futureOrder requestID orderID exch request orderqty opencloseflag common) =
      if request.instrumentID = inst ∧ (if opencloseflag = .flagCloseToday then
        (closedBuckets request.longshortflag).2 else (closedBuckets request.longshortflag).1) = t
      then orderqty else 0 := by
  obtain ⟨hopen, hqty, hbucket⟩ := @orderTrade_futureOrder requestID orderID exch request
    orderqty opencloseflag hflag common
  simp only [share, hopen, hqty, hbucket, true_and]
  rfl

/-- The children of an accepted closing request: one for what today's bucket has, one for
the rest. -/
theorem generateFutureOrder_close (m : TestPositionManager)
    (hflag : request.opencloseflag ≠ .flagOpen) :
    let todayQty := ((m.getPosition request.instrumentID).1.getTotalQtyAmmount
      (closedBuckets request.longshortflag).2).qty
    let closeTodayQty := min todayQty request.orderqty
    (generateFutureOrder m requestID exch request .noError).1 =
      (if 0 < todayQty then
        [futureOrder requestID requestID exch request closeTodayQty .flagCloseToday
          ⟨.orderNew, .noError⟩]
      else []) ++
      if 0 < request.orderqty - closeTodayQty then
        [futureOrder requestID (requestID + 1) exch request (request.orderqty - closeTodayQty)
          .flagCloseYst ⟨.orderNew, .noError⟩]
      else [] := by
  simp only [generateFutureOrder, ne_eq, not_true_eq_false, if_false, hflag, not_false_eq_true,
    if_true]
  generalize ((m.getPosition request.instrumentID).1.getTotalQtyAmmount
    (closedBuckets request.longshortflag).2).qty = todayQty
  have hleft : (if todayQty > 0 then request.orderqty - min todayQty request.orderqty
      else request.orderqty) = request.orderqty - min todayQty request.orderqty := by
    split_ifs <;> omega
  rw [hleft]

theorem shares_generateFutureOrder (m : TestPositionManager)
    (hflag : request.opencloseflag ≠ .flagOpen) (inst : ℕ) (t : PositionType) :
    let buckets := closedBuckets request.longshortflag
    let closeTodayQty := min ((m.getPosition request.instrumentID).1.getTotalQtyAmmount
      buckets.2).qty request.orderqty
    shares inst t (generateFutureOrder m requestID exch request .noError).1 =
      (if request.instrumentID = inst ∧ buckets.2 = t then closeTodayQty else 0) +
        if request.instrumentID = inst ∧ buckets.1 = t then request.orderqty - closeTodayQty
        else 0 := by
  intro buckets closeTodayQty
  rw [generateFutureOrder_close requestID exch m hflag, shares_append]
  simp only [closeTodayQty, buckets]
  generalize ((m.getPosition request.instrumentID).1.getTotalQtyAmmount
    (closedBuckets request.longshortflag).2).qty = todayQty
  congr 1
  · rcases Nat.eq_zero_or_pos todayQty with hzero | hpos
    · simp [hzero]
    · simp [hpos, share_futureOrder]
  · rcases Nat.eq_zero_or_pos (request.orderqty - min todayQty request.orderqty) with
      hzero | hpos
    · simp [hzero]
    · rw [if_pos hpos]
      simp [share_futureOrder]

end Children

/-! ### The shares outstanding after a step -/

theorem outstanding_cons (frame : Frame) (stack : List Frame) (inst : ℕ) (t : PositionType) :
    outstanding (frame :: stack) inst t =
      shares inst t (unfilled frame) + outstanding stack inst t := by
  simp [outstanding]

theorem outstanding_advance (s : Session) (code : OrderErrorCode)
    (orders : List OrderDataDetail) (stack : List Frame) (inst : ℕ) (t : PositionType) :
    outstanding (s.advance code orders stack).stack inst t =
      (if code = .noError then shares inst t orders else 0) + outstanding stack inst t := by
  cases orders with
  | nil => simp [Session.advance]
  | cons order rest =>
      rw [Session.advance, outstanding_cons]
      by_cases hcode : code = .noError <;> simp [unfilled, hcode]

theorem held_advance (s : Session) (code : OrderErrorCode) (orders : List OrderDataDetail)
    (stack : List Frame) (inst : ℕ) (t : PositionType) :
    held (s.advance code orders stack).mgr.posMgr inst t = held s.mgr.posMgr inst t := by
  cases orders <;> rfl

theorem fills_advance (s : Session) (code : OrderErrorCode) (orders : List OrderDataDetail)
    (stack : List Frame) : (s.advance code orders stack).fills = s.fills := by
  cases orders <;> rfl

theorem held_submit (s : Session) (byteOrder : ByteOrder) (request : OrderRequest) (inst : ℕ)
    (t : PositionType) :
    held (s.submit byteOrder request).mgr.posMgr inst t = held s.mgr.posMgr inst t := by
  rw [Session.submit, held_advance]
  exact held_lookedUp (FakeOrderManager.lookedUp_generateOrders s.mgr.posMgr _ request) inst t

def requestShare (m : TestPositionManager) (exch : FutureExchange)
    (request : FutureNewOrderRequest) (inst : ℕ) (t : PositionType) : ℕ :=
  if (checkNewOrderRequestValid m (.futureNewOrder exch request)).1 = .noError then
    let buckets := closedBuckets request.longshortflag
    let closeTodayQty := min ((m.getPosition request.instrumentID).1.getTotalQtyAmmount
      buckets.2).qty request.orderqty
    (if request.instrumentID = inst ∧ buckets.2 = t then closeTodayQty else 0) +
      if request.instrumentID = inst ∧ buckets.1 = t then request.orderqty - closeTodayQty
      else 0
  else 0

theorem outstanding_submit (s : Session) (byteOrder : ByteOrder) (exch : FutureExchange)
    {request : FutureNewOrderRequest} (hflag : request.opencloseflag ≠ .flagOpen) (inst : ℕ)
    (t : PositionType) :
    outstanding (s.submit byteOrder (.futureNewOrder exch request)).stack inst t =
      requestShare s.mgr.posMgr exch request inst t + outstanding s.stack inst t := by
  let checked := checkNewOrderRequestValid s.mgr.posMgr (.futureNewOrder exch request)
  have hcode : (s.generated byteOrder (.futureNewOrder exch request)).2.1 = checked.1 := rfl
  have horders : (s.generated byteOrder (.futureNewOrder exch request)).1 =
      (generateFutureOrder checked.2 (s.mgr.recordRequest byteOrder
        (.futureNewOrder exch request)).1 exch request checked.1).1 := rfl
  rw [Session.submit, outstanding_advance, requestShare, hcode, horders]
  congr 1
  by_cases hvalid : checked.1 = .noError
  · rw [if_pos hvalid, if_pos hvalid, hvalid, shares_generateFutureOrder _ _ _ hflag,
      (lookedUp_checkNewOrderRequestValid _ _).getPosition]
  · rw [if_neg hvalid, if_neg hvalid]

theorem fits_submit_iff {s : Session}
    (hbefore : ∀ inst t, outstanding s.stack inst t ≤ held s.mgr.posMgr inst t)
    (byteOrder : ByteOrder) (exch : FutureExchange) {request : FutureNewOrderRequest}
    (hflag : request.opencloseflag ≠ .flagOpen) :
    let after := s.submit byteOrder (.futureNewOrder exch request)
    Fits s (.submit (.futureNewOrder exch request)) ↔
      ∀ inst t, outstanding after.stack inst t ≤ held after.mgr.posMgr inst t := by
  have hne := closedBuckets_ne request.longshortflag
  simp only [held_submit, outstanding_submit s byteOrder exch hflag, requestShare, Fits]
  constructor
  · intro hfits inst t
    have hold := hbefore inst t
    split_ifs with hcode htoday hyst hyst
    · exact absurd (hyst.2.trans htoday.2.symm) hne
    · obtain ⟨rfl, rfl⟩ := htoday
      have := (hfits hcode).1
      omega
    · obtain ⟨rfl, rfl⟩ := hyst
      have := (hfits hcode).2
      omega
    · omega
    · omega
  · intro hall hcode
    have htoday := hall request.instrumentID (closedBuckets request.longshortflag).2
    have hyst := hall request.instrumentID (closedBuckets request.longshortflag).1
    simp only [hcode, if_true, hne, hne.symm, and_false, and_self, if_false] at htoday hyst
    omega

/-! ### One step of a session that only closes -/

def ClosingStack (stack : List Frame) : Prop :=
  ∀ frame ∈ stack, ∀ order ∈ frame.current :: frame.rest, Closes order

theorem closes_of_mem_generateFutureOrder {m : TestPositionManager} {requestID : ℕ}
    {exch : FutureExchange} {request : FutureNewOrderRequest} {hint : OrderErrorCode}
    (hflag : request.opencloseflag ≠ .flagOpen) {order : OrderDataDetail}
    (h : order ∈ (generateFutureOrder m requestID exch request hint).1) : Closes order := by
  obtain ⟨_, _, opencloseflag, _, rfl, hchild, -⟩ := exists_of_mem_generateFutureOrder h
  have hne : opencloseflag ≠ .flagOpen := by
    rcases hchild with rfl | rfl | rfl
    · exact hflag
    · decide
    · decide
  exact (orderTrade_futureOrder _ _ exch _ hne _).1

theorem closingStack_advance {s : Session} {orders : List OrderDataDetail}
    {stack : List Frame} (hstack : ClosingStack stack) (horders : ∀ order ∈ orders, Closes order)
    (code : OrderErrorCode) : ClosingStack (s.advance code orders stack).stack := by
  cases orders with
  | nil => exact hstack
  | cons order rest =>
      intro frame hframe
      rcases List.mem_cons.mp hframe with rfl | hframe
      · exact horders
      · exact hstack frame hframe

theorem shares_unfilled_of_not_fill {frame : Frame}
    (h : ¬ (frame.code = .noError ∧ frame.filled = false)) (inst : ℕ) (t : PositionType) :
    shares inst t (unfilled frame) =
      if frame.code = .noError then shares inst t frame.rest else 0 := by
  unfold unfilled
  by_cases hcode : frame.code = .noError
  · have hfilled : frame.filled = true := by simpa [hcode] using h
    simp [hcode, hfilled]
  · simp [hcode]

theorem shares_unfilled_of_fill {frame : Frame}
    (h : frame.code = .noError ∧ frame.filled = false) (inst : ℕ) (t : PositionType) :
    shares inst t (unfilled frame) = share inst t frame.current +
      shares inst t (unfilled { frame with filled := true }) := by
  simp [unfilled, h.1, h.2]

theorem ClosingStack.step {byteOrder : ByteOrder} {s u : Session} {a : Action}
    (hclose : CloseAction a) (htake : Session.step byteOrder s a = some u)
    (h : ClosingStack s.stack) : ClosingStack u.stack := by
  rcases Session.step_cases htake with ⟨request, rfl, rfl⟩ | ⟨frame, stack, hstack, hcase⟩ |
    ⟨posMgr, rfl, -⟩
  · cases request with
    | futureNewOrder exch request =>
        exact closingStack_advance h
          (fun order hmem => closes_of_mem_generateFutureOrder hclose hmem) _
    | _ => exact hclose.elim
  · rw [hstack] at h
    have htail : ClosingStack stack := fun f hf => h f (List.mem_cons_of_mem frame hf)
    have hframe := h frame List.mem_cons_self
    rcases hcase with ⟨-, -, rfl⟩ | ⟨-, -, rfl⟩ | ⟨-, rfl⟩
    · intro f hf
      rcases List.mem_cons.mp hf with rfl | hf
      · exact hframe
      · exact htail f hf
    · exact closingStack_advance htail
        (fun order hmem => hframe order (List.mem_cons_of_mem _ hmem)) _
    · exact htail
  · exact hclose.elim

/-- The shares outstanding fit into what is held. -/
def InventoryCovers (s : Session) : Prop :=
  ∀ inst t, outstanding s.stack inst t ≤ held s.mgr.posMgr inst t

def AllMatched (s : Session) : Prop :=
  ∀ fill ∈ s.fills, unmatchedFill fill.1 fill.2 = 0

structure Sound (s : Session) : Prop where
  matched : AllMatched s
  covers : InventoryCovers s

theorem sound_submit_iff (s : Session) (byteOrder : ByteOrder) (exch : FutureExchange)
    {request : FutureNewOrderRequest} (hflag : request.opencloseflag ≠ .flagOpen) :
    Sound s ∧ Fits s (.submit (.futureNewOrder exch request)) ↔
      Sound (s.submit byteOrder (.futureNewOrder exch request)) := by
  have hfills : (s.submit byteOrder (.futureNewOrder exch request)).fills = s.fills := by
    rw [Session.submit, fills_advance]
    rfl
  constructor
  · rintro ⟨hsound, hfits⟩
    exact ⟨by simpa only [AllMatched, hfills] using hsound.matched,
      (fits_submit_iff hsound.covers byteOrder exch hflag).mp hfits⟩
  · intro hsound
    have hcovers : InventoryCovers s := by
      intro inst t
      have hafter := hsound.covers inst t
      rw [held_submit, outstanding_submit s byteOrder exch hflag] at hafter
      omega
    exact ⟨⟨by simpa only [AllMatched, hfills] using hsound.matched, hcovers⟩,
      (fits_submit_iff hcovers byteOrder exch hflag).mpr hsound.covers⟩

theorem sound_fill_iff {s : Session} {frame : Frame} {stack : List Frame}
    (hstack : s.stack = frame :: stack) (hfill : frame.code = .noError ∧ frame.filled = false)
    (hclose : Closes frame.current) : Sound s ↔ Sound (s.fill frame stack) := by
  have hbefore : ∀ inst t, outstanding s.stack inst t =
      share inst t frame.current + outstanding (s.fill frame stack).stack inst t := by
    intro inst t
    rw [hstack, outstanding_cons, shares_unfilled_of_fill hfill, Nat.add_assoc,
      ← outstanding_cons]
    rfl
  have hheld : ∀ inst t, held (s.fill frame stack).mgr.posMgr inst t =
      held s.mgr.posMgr inst t - share inst t frame.current :=
    held_fillOrder s.mgr hclose
  have hfills : AllMatched (s.fill frame stack) ↔
      AllMatched s ∧ unmatchedFill s.mgr.posMgr (tradeOrder frame.current) = 0 := by
    simp [AllMatched, Session.fill, or_imp, forall_and]
  constructor
  · rintro ⟨hmatched, hcovers⟩
    refine ⟨hfills.mpr ⟨hmatched, (unmatchedFill_eq_zero_iff _ hclose).mpr ?_⟩, ?_⟩
    · intro inst t
      have := hcovers inst t
      rw [hbefore] at this
      omega
    · intro inst t
      have := hcovers inst t
      rw [hbefore] at this
      rw [hheld]
      omega
  · rintro ⟨hmatched, hcovers⟩
    obtain ⟨hold, hnew⟩ := hfills.mp hmatched
    refine ⟨hold, ?_⟩
    intro inst t
    have hshare := (unmatchedFill_eq_zero_iff _ hclose).mp hnew inst t
    have hafter := hcovers inst t
    rw [hheld] at hafter
    rw [hbefore]
    omega

theorem sound_advance_iff {s : Session} {frame : Frame} {stack : List Frame}
    (hstack : s.stack = frame :: stack)
    (hnext : ¬ (frame.code = .noError ∧ frame.filled = false)) :
    Sound s ↔ Sound (s.advance frame.code frame.rest stack) := by
  have hshares : ∀ inst t, outstanding (s.advance frame.code frame.rest stack).stack inst t =
      outstanding s.stack inst t := by
    intro inst t
    rw [outstanding_advance, hstack, outstanding_cons, shares_unfilled_of_not_fill hnext]
  have hfills := fills_advance s frame.code frame.rest stack
  have hcovers : InventoryCovers (s.advance frame.code frame.rest stack) ↔
      InventoryCovers s := by
    simp only [InventoryCovers, hshares, held_advance]
  constructor
  · intro h
    exact ⟨by simpa only [AllMatched, hfills] using h.matched, hcovers.mpr h.covers⟩
  · intro h
    exact ⟨by simpa only [AllMatched, hfills] using h.matched, hcovers.mp h.covers⟩

theorem Sound.unwind {s : Session} {frame : Frame} {stack : List Frame}
    (hstack : s.stack = frame :: stack) (h : Sound s) : Sound { s with stack := stack } := by
  refine ⟨h.matched, ?_⟩
  intro inst t
  have hbefore := h.covers inst t
  rw [hstack, outstanding_cons] at hbefore
  exact le_trans (Nat.le_add_left _ _) hbefore

/-- A step in which nobody throws keeps a session sound exactly when the request
it submits, if any, fits. -/
theorem sound_step_iff {byteOrder : ByteOrder} {s u : Session} {a : Action}
    (hclosing : ClosingStack s.stack) (hclose : CloseAction a) (hstay : a ≠ .unwind)
    (htake : Session.step byteOrder s a = some u) :
    Sound s ∧ Fits s a ↔ Sound u := by
  rcases Session.step_cases htake with ⟨request, rfl, rfl⟩ | ⟨frame, stack, hstack, hcase⟩ |
    ⟨posMgr, rfl, -⟩
  · cases request with
    | futureNewOrder exch request => exact sound_submit_iff s byteOrder exch hclose
    | _ => exact hclose.elim
  · have hcurrent : Closes frame.current :=
      hclosing frame (hstack ▸ List.mem_cons_self) _ List.mem_cons_self
    rcases hcase with ⟨rfl, hfill, rfl⟩ | ⟨rfl, hnext, rfl⟩ | ⟨rfl, -⟩
    · exact (and_iff_left trivial).trans (sound_fill_iff hstack hfill hcurrent)
    · exact (and_iff_left trivial).trans (sound_advance_iff hstack hnext)
    · exact absurd rfl hstay
  · exact hclose.elim

theorem Sound.step {byteOrder : ByteOrder} {s u : Session} {a : Action}
    (hclosing : ClosingStack s.stack) (hclose : CloseAction a) (hfits : Fits s a)
    (htake : Session.step byteOrder s a = some u) (h : Sound s) : Sound u := by
  by_cases hstay : a = .unwind
  · subst hstay
    rcases Session.step_cases htake with ⟨request, hno, -⟩ |
      ⟨frame, stack, hstack, ⟨hno, -⟩ | ⟨hno, -⟩ | ⟨-, rfl⟩⟩ | ⟨posMgr, hno, -⟩
    · cases hno
    · cases hno
    · cases hno
    · exact h.unwind hstack
    · cases hno
  · exact (sound_step_iff hclosing hclose hstay htake).mp ⟨h, hfits⟩

theorem sound_idle (mgr : FakeOrderManager) : Sound (Session.idle mgr) where
  matched := by simp [AllMatched, Session.idle]
  covers := by simp [InventoryCovers, Session.idle, outstanding]

/-! ### Runs -/

theorem fits_of_sound_end {byteOrder : ByteOrder} {s u : Session} {actions : List Action}
    (hrun : Run (Session.step byteOrder) (fun _ a => CloseAction a ∧ a ≠ .unwind) s actions u)
    (hclosing : ClosingStack s.stack) (hend : Sound u) :
    Sound s ∧ Run (Session.step byteOrder) (fun s a => CloseAction a ∧ Fits s a) s actions u := by
  induction hrun with
  | nil => exact ⟨hend, .nil _⟩
  | cons hpermit htake _ ih =>
      obtain ⟨hclose, hstay⟩ := hpermit
      obtain ⟨hsound, hrest⟩ := ih (hclosing.step hclose htake) hend
      obtain ⟨hbefore, hfits⟩ := (sound_step_iff hclosing hclose hstay htake).mpr hsound
      exact ⟨hbefore, .cons ⟨hclose, hfits⟩ htake hrest⟩

/-- Every fill of a run of closing requests, nested or not, is fully matched as
long as every accepted request fits next to the shares outstanding.  A run that
has come to rest without a throw was fully matched only if every request did. -/
theorem fills_matched_iff_fits (byteOrder : ByteOrder) (mgr : FakeOrderManager) :
    (∀ actions s, Run (Session.step byteOrder) (fun s a => CloseAction a ∧ Fits s a)
        (Session.idle mgr) actions s →
      ∀ fill ∈ s.fills, unmatchedFill fill.1 fill.2 = 0) ∧
    ∀ actions s, Run (Session.step byteOrder) (fun _ a => CloseAction a ∧ a ≠ .unwind)
        (Session.idle mgr) actions s → s.stack = [] →
      (∀ fill ∈ s.fills, unmatchedFill fill.1 fill.2 = 0) →
      Run (Session.step byteOrder) (fun s a => CloseAction a ∧ Fits s a)
        (Session.idle mgr) actions s := by
  have hidle : ClosingStack (Session.idle mgr).stack := fun _ hframe => by cases hframe
  constructor
  · intro actions s hrun
    have hstep : ∀ s a u, CloseAction a ∧ Fits s a → Session.step byteOrder s a = some u →
        ClosingStack s.stack ∧ Sound s → ClosingStack u.stack ∧ Sound u := by
      rintro s a u ⟨hclose, hfits⟩ htake ⟨hclosing, hsound⟩
      exact ⟨hclosing.step hclose htake, hsound.step hclosing hclose hfits htake⟩
    exact (hrun.invariant hstep ⟨hidle, sound_idle mgr⟩).2.matched
  · intro actions s hrun hrest hmatched
    have hend : Sound s := ⟨hmatched, by simp [InventoryCovers, hrest, outstanding]⟩
    exact (fits_of_sound_end hrun hidle hend).2

theorem fills_matched_iff_fits_nested :
    ∃ s, Run (Session.step .littleEndian) (fun s a => CloseAction a ∧ Fits s a)
        (Session.idle (longManager [⟨100, 2, true, true⟩] []))
        (.submit (auRequest 1 .flagClose .flagShort) ::
          .submit (auRequest 1 .flagClose .flagShort) :: List.replicate 4 .resume) s ∧
      ∀ fill ∈ s.fills, unmatchedFill fill.1 fill.2 = 0 := by
  have hstay : ∃ s, Run (Session.step .littleEndian) (fun _ a => CloseAction a ∧ a ≠ .unwind)
      (Session.idle (longManager [⟨100, 2, true, true⟩] []))
      (.submit (auRequest 1 .flagClose .flagShort) ::
        .submit (auRequest 1 .flagClose .flagShort) :: List.replicate 4 .resume) s ∧
      s.stack = [] ∧ ∀ fill ∈ s.fills, unmatchedFill fill.1 fill.2 = 0 := by
    refine ⟨_, .cons ?_ rfl (.cons ?_ rfl (.cons ?_ rfl (.cons ?_ rfl (.cons ?_ rfl
      (.cons ?_ rfl (.nil _)))))), rfl, by decide +kernel⟩ <;>
    exact ⟨by simp [CloseAction, auRequest], by simp⟩
  obtain ⟨s, hrun, hstack, hmatched⟩ := hstay
  have hfits := (fills_matched_iff_fits _ _).2 _ s hrun hstack hmatched
  exact ⟨s, hfits, (fills_matched_iff_fits _ _).1 _ s hfits⟩

/-- Closing the only long again from inside the notification of its close, and
closing two longs of one without a side, both leave a unit unmatched. -/
theorem exists_unmatched_fill :
    (∃ s, Run (Session.step .littleEndian) (fun _ a => CloseAction a)
        (Session.idle (longManager [⟨100, 1, true, true⟩] []))
        (.submit (auRequest 1 .flagClose .flagShort) ::
          .submit (auRequest 1 .flagClose .flagShort) :: List.replicate 3 .resume) s ∧
      ∃ fill ∈ s.fills, unmatchedFill fill.1 fill.2 = 1) ∧
    ∃ s, Run (Session.step .littleEndian) (fun _ a => CloseAction a)
        (Session.idle (longManager [⟨100, 1, true, true⟩] []))
        (.submit (auRequest 2 .flagClose .flagNone) :: List.replicate 3 .resume) s ∧
      ∃ fill ∈ s.fills, unmatchedFill fill.1 fill.2 = 1 := by
  constructor
  · refine ⟨_, .cons ?_ rfl (.cons ?_ rfl (.cons ?_ rfl (.cons ?_ rfl (.cons ?_ rfl
      (.nil _))))), ?_⟩
    rotate_right
    · decide +kernel
    all_goals simp [CloseAction, auRequest]
  · refine ⟨_, .cons ?_ rfl (.cons ?_ rfl (.cons ?_ rfl (.cons ?_ rfl (.nil _)))), ?_⟩
    rotate_right
    · decide +kernel
    all_goals simp [CloseAction, auRequest]

end BluesTrading.CloseCoverage
