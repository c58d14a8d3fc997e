import BluesTrading.OrderOutcomes
import BluesTrading.OrderSession

namespace BluesTrading.CashBound

open BluesTrading.Foundations
open BluesTrading.OrderData
open BluesTrading.PositionManager
open BluesTrading.OrderManager
open BluesTrading.OrderOutcomes
open BluesTrading.OrderSession

def Buys : OrderRequest → Prop
  | .securityNewOrder _ request => request.longshortflag = .flagLong
  | _ => False

instance : (request : OrderRequest) → Decidable (Buys request)
  | .securityNewOrder _ _ => inferInstanceAs (Decidable (_ = _))
  | .futureNewOrder _ _ => .isFalse not_false
  | .sseSecurityCancel _ => .isFalse not_false
  | .sseSecurityModify _ _ => .isFalse not_false
  | .unsupported _ => .isFalse not_false

/-- What happens in a run of purchases.  Whatever else is done to the book leaves the cash as it
is. -/
def Purchasing (s : Session) : Action → Prop
  | .submit request => Buys request
  | .resume => True
  | .unwind => False
  | .setBook posMgr => posMgr.cash = s.mgr.posMgr.cash

instance (s : Session) : (a : Action) → Decidable (Purchasing s a)
  | .submit request => inferInstanceAs (Decidable (Buys request))
  | .resume => .isTrue trivial
  | .unwind => .isFalse not_false
  | .setBook _ => inferInstanceAs (Decidable (_ = _))

theorem purchasing_onMarketData (s : Session) (tick : CTickData) :
    Purchasing s (.setBook (s.mgr.posMgr.onMarketData tick)) :=
  s.mgr.posMgr.cash_updatePrice tick

theorem purchasing_getPosition (s : Session) (inst : ℕ) :
    Purchasing s (.setBook (s.mgr.posMgr.getPosition inst).2) :=
  s.mgr.posMgr.cash_getPosition inst

def submitted (actions : List Action) : List OrderRequest :=
  actions.filterMap fun
    | .submit request => some request
    | _ => none

def needCash : OrderRequest → ℚ
  | .securityNewOrder _ request => request.orderqty * request.price
  | _ => 0

/-- The purchases that could be paid if they were the only one. -/
def affordable (cash : ℚ) (requests : List OrderRequest) : List OrderRequest :=
  requests.filter fun request => needCash request ≤ cash

/-- What an order has cost. -/
def paid (order : OrderDataDetail) : ℚ := filledQty order * tradePrice order

def toFill (frame : Frame) : List OrderDataDetail :=
  if frame.code = .noError then
    (if frame.filled then frame.rest else frame.current :: frame.rest).map tradeOrder
  else []

/-- All orders that have been filled or will be when the consumers return. -/
def filledOrders (s : Session) : List OrderDataDetail :=
  s.fills.map Prod.snd ++ s.stack.flatMap toFill

/-! ### The orders of a session -/

section Session

variable {s t : Session} {byteOrder : ByteOrder}

theorem filledOrders_of_returned (h : s.stack = []) : filledOrders s = s.fills.map Prod.snd := by
  rw [filledOrders, h, List.flatMap_nil, List.append_nil]

theorem filledOrders_advance (s : Session) (code : OrderErrorCode)
    (orders : List OrderDataDetail) (stack : List Frame) :
    filledOrders (s.advance code orders stack) =
      s.fills.map Prod.snd ++
        ((if code = .noError then orders.map tradeOrder else []) ++ stack.flatMap toFill) := by
  cases orders with
  | nil => simp [filledOrders, Session.advance]
  | cons order rest => simp [filledOrders, Session.advance, toFill]

theorem filledOrders_resume (h : s.step byteOrder .resume = some t) :
    filledOrders t = filledOrders s := by
  rcases Session.step_cases h with ⟨request, hact, -⟩ | ⟨frame, stack, hstack, hcase⟩ |
    ⟨posMgr, hact, -⟩
  · cases hact
  · rcases hcase with ⟨-, ⟨hcode, hfilled⟩, rfl⟩ | ⟨-, hdone, rfl⟩ | ⟨hact, -⟩
    · simp [filledOrders, Session.fill, hstack, toFill, hcode, hfilled]
    · rw [filledOrders_advance, filledOrders, hstack, List.flatMap_cons, toFill]
      split_ifs with hcode hfilled
      · rfl
      · exact absurd ⟨hcode, by simpa using hfilled⟩ hdone
      · rfl
    · cases hact
  · cases hact

theorem cash_step {a : Action} (hpermit : Purchasing s a) (h : s.step byteOrder a = some t) :
    t.mgr.posMgr.cash = s.mgr.posMgr.cash := by
  have hadvance : ∀ (s : Session) code orders stack,
      (s.advance code orders stack).mgr.posMgr = s.mgr.posMgr := by
    intro s code orders stack
    cases orders <;> rfl
  rcases Session.step_cases h with ⟨request, rfl, rfl⟩ | ⟨frame, stack, -, hcase⟩ |
    ⟨posMgr, rfl, rfl⟩
  · exact (congrArg TestPositionManager.cash (hadvance _ _ _ _)).trans
      (cash_generateOrders s.mgr.posMgr _ request)
  · rcases hcase with ⟨-, -, rfl⟩ | ⟨-, -, rfl⟩ | ⟨-, rfl⟩
    · exact s.mgr.posMgr.cash_onUpdateOrder (tradeOrder frame.current)
    · rw [hadvance]
    · rfl
  · exact hpermit

end Session

/-! ### The cost of a run -/

section Run

variable {s t : Session} {byteOrder : ByteOrder}

theorem accepted_buy_iff {m : TestPositionManager} {request : OrderRequest} (h : Buys request) :
    Accepted m request ↔ needCash request ≤ m.cash := by
  cases request with
  | securityNewOrder exch request =>
      have hlong : request.longshortflag = .flagLong := h
      simp only [Accepted, checkNewOrderRequestValid, if_pos hlong, needCash]
      split_ifs with hless
      · simpa using hless
      · simpa using hless
  | _ => exact h.elim

theorem sum_paid_generateOrders (m : TestPositionManager) (requestID : ℕ)
    {request : OrderRequest} (h : Buys request) :
    (((FakeOrderManager.generateOrders m requestID request).1.map tradeOrder).map paid).sum =
      needCash request := by
  cases request with
  | securityNewOrder exch request => exact add_zero _
  | _ => exact h.elim

/-- A purchase is filled as a whole or not at all. -/
theorem sum_paid_submit (s : Session) (byteOrder : ByteOrder) {request : OrderRequest}
    (h : Buys request) :
    ((filledOrders (s.submit byteOrder request)).map paid).sum =
      ((filledOrders s).map paid).sum +
        ((affordable s.mgr.posMgr.cash [request]).map needCash).sum := by
  have hcode : (s.generated byteOrder request).2.1 = .noError ↔
      needCash request ≤ s.mgr.posMgr.cash := by
    rw [← accepted_buy_iff h, Accepted, ← code_generateOrders]
    rfl
  have hadvance := filledOrders_advance (s.accept byteOrder request)
    (s.generated byteOrder request).2.1 (s.generated byteOrder request).1 s.stack
  change filledOrders (s.submit byteOrder request) = s.fills.map Prod.snd ++ _ at hadvance
  rw [hadvance, filledOrders, affordable]
  simp only [List.map_append, List.sum_append, List.filter_cons, List.filter_nil, hcode,
    decide_eq_true_eq]
  split_ifs with hcash
  · rw [Session.generated, sum_paid_generateOrders _ _ h, List.map_singleton, List.sum_singleton]
    ring
  · simp

/-- All purchases of a run are checked against the cash at its beginning. -/
theorem sum_paid_run {actions : List Action}
    (hrun : Run (Session.step byteOrder) Purchasing s actions t) :
    ((filledOrders t).map paid).sum = ((filledOrders s).map paid).sum +
      ((affordable s.mgr.posMgr.cash (submitted actions)).map needCash).sum := by
  induction hrun with
  | nil => exact (add_zero _).symm
  | @cons s v t a actions hpermit htake hrest ih =>
      rw [ih, cash_step hpermit htake]
      cases a with
      | submit request =>
          obtain rfl := Option.some.inj htake
          have hsubmitted : submitted (.submit request :: actions) =
              [request] ++ submitted actions := rfl
          rw [sum_paid_submit s byteOrder hpermit, hsubmitted, affordable, affordable, affordable,
            List.filter_append, List.map_append, List.sum_append, add_assoc]
      | resume =>
          rw [filledOrders_resume htake]
          rfl
      | unwind => exact hpermit.elim
      | setBook posMgr =>
          obtain rfl := Option.some.inj htake
          rfl

/-- A run of purchases stays within the cash at its beginning exactly when those that could be
paid one by one can be paid together. -/
theorem sum_paid_le_iff {mgr : FakeOrderManager} {actions : List Action}
    (hrun : Run (Session.step byteOrder) Purchasing (Session.idle mgr) actions s) :
    ((filledOrders s).map paid).sum ≤ mgr.posMgr.cash ↔
      ((affordable mgr.posMgr.cash (submitted actions)).map needCash).sum ≤ mgr.posMgr.cash := by
  have hbegin : ((filledOrders (Session.idle mgr)).map paid).sum = 0 := rfl
  rw [sum_paid_run hrun, hbegin, zero_add]
  rfl

end Run

def buyOne (price : ℚ) : OrderRequest :=
  .securityNewOrder .sse
    { instrumentID := 600000, price := price, orderqty := 1, longshortflag := .flagLong }

/-- The second purchase, which costs too much, and the third one are made from the first
notification. -/
def buyNested : List Action :=
  [.submit (buyOne 60), .submit (buyOne 150), .resume, .submit (buyOne 40)] ++
    List.replicate 4 .resume

theorem sum_paid_le_iff_buyNested :
    ∃ s, Run (Session.step .littleEndian) Purchasing (Session.idle (newManager 100)) buyNested s ∧
      s.stack = [] ∧ ((s.fills.map Prod.snd).map paid).sum ≤ 100 := by
  have hexecute : (Run.execute (Session.step .littleEndian) Purchasing
      (Session.idle (newManager 100)) buyNested).map (fun s => s.stack.isEmpty) = some true := by
    decide +kernel
  obtain ⟨s, hrun, hempty⟩ := Run.exists_of_execute_map hexecute
  have hreturned : s.stack = [] := by simpa using hempty
  refine ⟨s, hrun, hreturned, ?_⟩
  rw [← filledOrders_of_returned hreturned]
  exact (sum_paid_le_iff hrun).mpr (by decide +kernel)

/-- The whole cash is spent twice. -/
theorem sum_paid_twice :
    ∃ s, 0 ≤ (newManager 100).posMgr.cash ∧
      Run (Session.step .littleEndian) Purchasing (Session.idle (newManager 100))
        [.submit (buyOne 100), .resume, .resume, .submit (buyOne 100), .resume, .resume] s ∧
      s.stack = [] ∧
      ¬ ((s.fills.map Prod.snd).map paid).sum ≤ (newManager 100).posMgr.cash := by
  have hexecute : (Run.execute (Session.step .littleEndian) Purchasing
      (Session.idle (newManager 100))
      [.submit (buyOne 100), .resume, .resume, .submit (buyOne 100), .resume, .resume]).map
        (fun s => (s.stack.isEmpty, ((s.fills.map Prod.snd).map paid).sum)) =
      some (true, 200) := by
    decide +kernel
  obtain ⟨s, hrun, hend⟩ := Run.exists_of_execute_map hexecute
  obtain ⟨hempty, hsum⟩ := Prod.mk.inj hend
  refine ⟨s, by decide +kernel, hrun, by simpa using hempty, ?_⟩
  rw [hsum]
  decide +kernel

/-! ### Purchases one after the other -/

/-- What the order manager and its book see in a run of purchases that no consumer answers. -/
inductive Event
  | purchase (request : OrderRequest)
  | tick (data : CTickData)
  | lookUp (inst : ℕ)

def trade (byteOrder : ByteOrder) (mgr : FakeOrderManager) : Event → FakeOrderManager
  | .purchase request => (mgr.submitRequest byteOrder request).2.1
  | .tick data => { mgr with posMgr := mgr.posMgr.onMarketData data }
  | .lookUp inst => { mgr with posMgr := (mgr.posMgr.getPosition inst).2 }

def purchases (events : List Event) : List OrderRequest :=
  events.filterMap fun
    | .purchase request => some request
    | _ => none

theorem exists_run_trade {e : Event} (hbuys : ∀ request ∈ purchases [e], Buys request)
    (s : Session) (byteOrder : ByteOrder) :
    ∃ actions t, Run (Session.step byteOrder) Purchasing s actions t ∧ t.stack = s.stack ∧
      t.mgr = trade byteOrder s.mgr e ∧ submitted actions = purchases [e] := by
  cases e with
  | purchase request =>
      obtain ⟨n, t, hrun, hstack, hmgr⟩ := exists_resumes_submitRequest byteOrder s request
      refine ⟨_, t, hrun.of_forall_mem fun v a ha _ => ?_, hstack, hmgr, ?_⟩
      · rcases List.mem_cons.mp ha with rfl | ha
        · exact hbuys request (List.mem_singleton_self request)
        · obtain rfl := List.eq_of_mem_replicate ha
          trivial
      · have hnone : submitted (List.replicate n .resume) = [] := by
          refine List.filterMap_eq_nil_iff.mpr fun a ha => ?_
          obtain rfl := List.eq_of_mem_replicate ha
          rfl
        change request :: submitted (List.replicate n .resume) = [request]
        rw [hnone]
  | tick data =>
      exact ⟨_, _, .cons (purchasing_onMarketData s data) rfl (.nil _), rfl, rfl, rfl⟩
  | lookUp inst =>
      exact ⟨_, _, .cons (purchasing_getPosition s inst) rfl (.nil _), rfl, rfl, rfl⟩

theorem exists_run_trades {events : List Event}
    (hbuys : ∀ request ∈ purchases events, Buys request) (s : Session) (byteOrder : ByteOrder) :
    ∃ actions t, Run (Session.step byteOrder) Purchasing s actions t ∧ t.stack = s.stack ∧
      t.mgr = events.foldl (trade byteOrder) s.mgr ∧ submitted actions = purchases events := by
  induction events generalizing s with
  | nil => exact ⟨[], s, .nil s, rfl, rfl, rfl⟩
  | cons e events ih =>
      have hsplit : purchases (e :: events) = purchases [e] ++ purchases events :=
        List.filterMap_append (l := [e])
      rw [hsplit] at hbuys
      obtain ⟨hfirst, hothers⟩ := List.forall_mem_append.mp hbuys
      obtain ⟨actions, t, hrun, hstack, hmgr, hsubmitted⟩ := exists_run_trade hfirst s byteOrder
      obtain ⟨actions', u, hrun', hstack', hmgr', hsubmitted'⟩ := ih hothers t
      refine ⟨actions ++ actions', u, hrun.append hrun', hstack'.trans hstack, ?_, ?_⟩
      · rw [hmgr', hmgr, List.foldl_cons]
      · rw [hsplit, submitted, List.filterMap_append, ← submitted, ← submitted, hsubmitted,
          hsubmitted']

/-- The calls of `submitRequest`, with ticks and look-ups between them, are a run of purchases:
what they fill together costs what those cost that could be paid one by one. -/
theorem sum_paid_trades {events : List Event} (hbuys : ∀ request ∈ purchases events, Buys request)
    (mgr : FakeOrderManager) (byteOrder : ByteOrder) :
    ∃ actions s, Run (Session.step byteOrder) Purchasing (Session.idle mgr) actions s ∧
      s.stack = [] ∧ s.mgr = events.foldl (trade byteOrder) mgr ∧
      ((s.fills.map Prod.snd).map paid).sum =
        ((affordable mgr.posMgr.cash (purchases events)).map needCash).sum := by
  obtain ⟨actions, s, hrun, hstack, hmgr, hsubmitted⟩ :=
    exists_run_trades hbuys (Session.idle mgr) byteOrder
  have hbegin : ((filledOrders (Session.idle mgr)).map paid).sum = 0 := rfl
  refine ⟨actions, s, hrun, hstack, hmgr, ?_⟩
  rw [← filledOrders_of_returned hstack, sum_paid_run hrun, hbegin, zero_add, hsubmitted]
  rfl

end BluesTrading.CashBound
