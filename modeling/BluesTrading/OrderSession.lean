import BluesTrading.Foundations.Runs
import BluesTrading.OrderManager

/-!
The order manager under consumers that answer notifications.  While a
notification is out, `handleSecurityNew` or `handleFutureNew` is suspended in
the middle of its loop and any number of further requests may be handled, each
of which may be suspended in turn.  The suspended calls form a stack.
-/

namespace BluesTrading.OrderSession

open BluesTrading.Foundations
open BluesTrading.OrderData
open BluesTrading.PositionBook
open BluesTrading.PositionManager
open BluesTrading.OrderManager

/-- A suspended call: the consumers are being shown `current`, for the second
time if it is `filled`; `rest` is still to be handled. -/
structure Frame where
  code : OrderErrorCode
  current : OrderDataDetail
  filled : Bool
  rest : List OrderDataDetail

/-- The manager with its suspended calls, innermost first.  Two histories are
kept: `fills` has every filled order with the book it was applied to, `created`
the ids of the requests that produced an order. -/
structure Session where
  mgr : FakeOrderManager
  stack : List Frame
  fills : List (TestPositionManager × OrderDataDetail)
  created : List ℕ

/-- What can happen next: a request is submitted, the consumers return from the
innermost notification or throw out of it, or the book is changed by someone
else. -/
inductive Action
  | submit (request : OrderRequest)
  | resume
  | unwind
  | setBook (posMgr : TestPositionManager)

namespace Session

def advance (s : Session) (code : OrderErrorCode) (orders : List OrderDataDetail)
    (stack : List Frame) : Session :=
  match orders with
  | [] => { s with stack := stack }
  | order :: rest =>
      { s with
        mgr := s.mgr.storeOrder order
        stack := ⟨code, order, false, rest⟩ :: stack }

def fill (s : Session) (frame : Frame) (stack : List Frame) : Session :=
  { s with
    mgr := s.mgr.fillOrder frame.current
    stack := { frame with filled := true } :: stack
    fills := s.fills ++ [(s.mgr.posMgr, tradeOrder frame.current)] }

def generated (s : Session) (byteOrder : ByteOrder) (request : OrderRequest) :
    List OrderDataDetail × OrderErrorCode × TestPositionManager :=
  FakeOrderManager.generateOrders s.mgr.posMgr (s.mgr.recordRequest byteOrder request).1 request

def accept (s : Session) (byteOrder : ByteOrder) (request : OrderRequest) : Session :=
  let (requestID, mgr) := s.mgr.recordRequest byteOrder request
  let (orders, _, m) := s.generated byteOrder request
  { s with
    mgr := { mgr with posMgr := m }
    created := if orders = [] then s.created else s.created ++ [requestID] }

def submit (s : Session) (byteOrder : ByteOrder) (request : OrderRequest) : Session :=
  let (orders, code, _) := s.generated byteOrder request
  (s.accept byteOrder request).advance code orders s.stack

def step (byteOrder : ByteOrder) (s : Session) : Action → Option Session
  | .submit request => some (s.submit byteOrder request)
  | .resume =>
      match s.stack with
      | [] => none
      | frame :: stack =>
          if frame.code = .noError ∧ frame.filled = false then some (s.fill frame stack)
          else some (s.advance frame.code frame.rest stack)
  | .unwind =>
      match s.stack with
      | [] => none
      | _ :: stack => some { s with stack := stack }
  | .setBook posMgr => some { s with mgr := { s.mgr with posMgr := posMgr } }

/-- What a step can do: begin a request, fill the order shown as new, go on to
the next order, drop the innermost call, or replace the book. -/
theorem step_cases {byteOrder : ByteOrder} {s t : Session} {a : Action}
    (h : s.step byteOrder a = some t) :
    (∃ request, a = .submit request ∧ t = s.submit byteOrder request) ∨
      (∃ frame stack, s.stack = frame :: stack ∧
        (a = .resume ∧ (frame.code = .noError ∧ frame.filled = false) ∧ t = s.fill frame stack ∨
          a = .resume ∧ ¬ (frame.code = .noError ∧ frame.filled = false) ∧
            t = s.advance frame.code frame.rest stack ∨
          a = .unwind ∧ t = { s with stack := stack })) ∨
      ∃ posMgr, a = .setBook posMgr ∧ t = { s with mgr := { s.mgr with posMgr := posMgr } } := by
  cases a with
  | submit request => exact .inl ⟨request, rfl, (Option.some.inj h).symm⟩
  | resume =>
      simp only [step] at h
      split at h
      next => cases h
      next frame stack hstack =>
        refine .inr (.inl ⟨frame, stack, hstack, ?_⟩)
        split_ifs at h with hfill
        · exact .inl ⟨rfl, hfill, (Option.some.inj h).symm⟩
        · exact .inr (.inl ⟨rfl, hfill, (Option.some.inj h).symm⟩)
  | unwind =>
      simp only [step] at h
      split at h
      next => cases h
      next frame stack hstack =>
        exact .inr (.inl ⟨frame, stack, hstack, .inr (.inr ⟨rfl, (Option.some.inj h).symm⟩)⟩)
  | setBook posMgr => exact .inr (.inr ⟨posMgr, rfl, (Option.some.inj h).symm⟩)

def idle (mgr : FakeOrderManager) : Session := ⟨mgr, [], [], []⟩

end Session

/-! ### Without answers the session is `submitRequest` -/

/-- Handling the orders of a request with no answer in between leaves what the
loop of `handleFutureNew` leaves. -/
theorem exists_resumes_handleOrders (byteOrder : ByteOrder) (code : OrderErrorCode)
    (orders : List OrderDataDetail) (s : Session) (stack : List Frame)
    (told : List Notification) :
    ∃ n s', Run (Session.step byteOrder) (fun _ _ => True) (s.advance code orders stack)
        (List.replicate n .resume) s' ∧ s'.stack = stack ∧
      s'.mgr = (orders.foldl (FakeOrderManager.handleOrder code) (s.mgr, told)).1 := by
  induction orders generalizing s told with
  | nil => exact ⟨0, _, .nil _, rfl, rfl⟩
  | cons order orders ih =>
      let shown := s.advance code (order :: orders) stack
      by_cases hcode : code = .noError
      · let filled := shown.fill ⟨code, order, false, orders⟩ stack
        obtain ⟨n, s', hrun, hstack, hmgr⟩ := ih filled
          (told ++ (s.mgr.storeOrder order).notifyOrder order ++
            ((s.mgr.storeOrder order).fillOrder order).notifyOrder (tradeOrder order))
        have hfill : Session.step byteOrder shown .resume = some filled := by
          simp [shown, filled, Session.step, Session.advance, hcode]
        have hnext : Session.step byteOrder filled .resume =
            some (filled.advance code orders stack) := by
          simp [filled, Session.step, Session.fill]
        refine ⟨n + 2, s', .cons trivial hfill (.cons trivial hnext hrun), hstack, ?_⟩
        simpa [FakeOrderManager.handleOrder, hcode, filled, shown, Session.fill,
          Session.advance] using hmgr
      · obtain ⟨n, s', hrun, hstack, hmgr⟩ := ih shown
          (told ++ (s.mgr.storeOrder order).notifyOrder order)
        have hnext : Session.step byteOrder shown .resume =
            some (shown.advance code orders stack) := by
          simp [shown, Session.step, Session.advance, hcode]
        refine ⟨n + 1, s', .cons trivial hnext hrun, hstack, ?_⟩
        simpa [FakeOrderManager.handleOrder, hcode, shown, Session.advance] using hmgr

theorem exists_resumes_submitRequest (byteOrder : ByteOrder) (s : Session)
    (request : OrderRequest) :
    ∃ n s', Run (Session.step byteOrder) (fun _ _ => True) s
        (.submit request :: List.replicate n .resume) s' ∧ s'.stack = s.stack ∧
      s'.mgr = (s.mgr.submitRequest byteOrder request).2.1 := by
  obtain ⟨n, s', hrun, hstack, hmgr⟩ := exists_resumes_handleOrders byteOrder
    (s.generated byteOrder request).2.1 (s.generated byteOrder request).1
    (s.accept byteOrder request) s.stack []
  refine ⟨n, s', .cons trivial rfl hrun, hstack, ?_⟩
  rw [hmgr, FakeOrderManager.submitRequest_eq]
  rfl

end BluesTrading.OrderSession
