import BluesTrading.OrderLookup
import BluesTrading.OrderOutcomes

namespace BluesTrading.OrderIds

open BluesTrading.Foundations
open BluesTrading.OrderData
open BluesTrading.PositionManager
open BluesTrading.OrderManager
open BluesTrading.OrderSession
open BluesTrading.OrderOutcomes
open BluesTrading.OrderLookup

/-- A session with the ids of all requests and of all orders created so far. -/
structure Log where
  session : Session
  requestIDs : List ℕ
  orderIDs : List ℕ

inductive Event
  | session (a : Action)
  | startDay (date : ℕ)

/-- `FakeOrderManager` as its constructor leaves it, with a book and consumers. -/
def constructed (posMgr : TestPositionManager) (orderdataSubscribers : OrderedMap ℕ ℕ) :
    FakeOrderManager :=
  { requests := .empty, orders := .empty, requestID := 0, posMgr := posMgr,
    orderdataSubscribers := orderdataSubscribers }

namespace Log

variable (byteOrder : ByteOrder)

def start (mgr : FakeOrderManager) : Log := ⟨Session.idle mgr, [], []⟩

def submit (log : Log) (request : OrderRequest) : Log :=
  { session := log.session.submit byteOrder request
    requestIDs := log.requestIDs ++ [(log.session.mgr.recordRequest byteOrder request).1]
    orderIDs := log.orderIDs ++
      (log.session.generated byteOrder request).1.map OrderDataDetail.orderID }

/-- A day starts between the calls, never inside a notification. -/
def step (log : Log) : Event → Option Log
  | .session (.submit request) => some (log.submit byteOrder request)
  | .session a => (log.session.step byteOrder a).map fun session => { log with session := session }
  | .startDay date =>
      if log.session.stack = [] then
        some { log with
          session := { log.session with mgr := log.session.mgr.onStartDay date } }
      else none

end Log

/-- What an event inserts goes to a free key, or is the filled order in its own place. -/
def InsertsFresh (byteOrder : ByteOrder) (s : Session) : Event → Prop
  | .session (.submit request) =>
      s.mgr.requests.find? (s.mgr.recordRequest byteOrder request).1 = none ∧
        ∀ order ∈ (s.generated byteOrder request).1, s.mgr.orders.find? order.orderID = none
  | .session .resume =>
      ∀ frame ∈ s.stack.head?,
        if frame.code = .noError ∧ frame.filled = false then
          s.mgr.orders.find? frame.current.orderID = some frame.current
        else ∀ order ∈ frame.rest, s.mgr.orders.find? order.orderID = none
  | _ => True

/-! ### The ids of one request -/

/-- The two order ids of the request that finds the counter at `2 * k`. -/
def slot (byteOrder : ByteOrder) (k : ℕ) : List ℕ :=
  [byteOrder.requestID (2 * k), byteOrder.requestID (2 * k) + 1]

theorem requestID_mem_slot (byteOrder : ByteOrder) (k : ℕ) :
    byteOrder.requestID (2 * k) ∈ slot byteOrder k := List.mem_cons_self

theorem eq_of_mem_slot {byteOrder : ByteOrder} {j k id : ℕ} (hj : id ∈ slot byteOrder j)
    (hk : id ∈ slot byteOrder k) : j = k := by
  cases byteOrder <;>
    simp only [slot, ByteOrder.requestID, List.mem_cons, List.not_mem_nil, or_false] at hj hk <;>
    omega

theorem orderID_of_mem_generateFutureOrder {m : TestPositionManager} {requestID : ℕ}
    {exch : FutureExchange} {request : FutureNewOrderRequest} {hint : OrderErrorCode}
    {order : OrderDataDetail}
    (h : order ∈ (generateFutureOrder m requestID exch request hint).1) :
    order.orderID ∈ [requestID, requestID + 1] := by
  simp only [generateFutureOrder] at h
  split_ifs at h
  all_goals simp only [List.mem_append, List.mem_singleton, List.not_mem_nil, or_false,
    false_or] at h
  all_goals first | (obtain rfl := h) | (obtain rfl | rfl := h)
  all_goals simp [futureOrder]

theorem orderID_of_mem_generateOrders {m : TestPositionManager} {requestID : ℕ}
    {request : OrderRequest} {order : OrderDataDetail}
    (h : order ∈ (FakeOrderManager.generateOrders m requestID request).1) :
    order.orderID ∈ [requestID, requestID + 1] := by
  cases request with
  | securityNewOrder exch request =>
      obtain rfl := List.mem_singleton.mp h
      exact List.mem_cons_self
  | futureNewOrder exch request => exact orderID_of_mem_generateFutureOrder h
  | _ => cases h

/-! ### Look-ups by order id -/

theorem getOrderDetailByOrderID_eq {mgr : FakeOrderManager} (h : Filed mgr) (orderID : ℕ) :
    mgr.getOrderDetailByOrderID orderID = mgr.orders.find? orderID := by
  have hmem : ∀ order, order ∈ mgr.orders.values ↔ ∃ k, mgr.orders.find? k = some order := by
    intro order
    simp only [OrderedMap.values, List.mem_map, Prod.exists, exists_eq_right,
      OrderedMap.mem_entries_iff]
  cases hfind : mgr.getOrderDetailByOrderID orderID with
  | none =>
      refine (Option.eq_none_iff_forall_ne_some.mpr fun order hstored => ?_).symm
      have hall := List.find?_eq_none.mp hfind order ((hmem order).mpr ⟨_, hstored⟩)
      exact hall (by simpa using h orderID order hstored)
  | some order =>
      obtain ⟨k, hstored⟩ := (hmem order).mp (List.mem_of_find?_eq_some hfind)
      have hid : order.orderID = orderID := by simpa using List.find?_some hfind
      rw [← hid, h k order hstored, hstored]

/-! ### The invariant -/

/-- Every request so far has a slot of its own, which has the ids of its orders. -/
structure Allotted (byteOrder : ByteOrder) (log : Log) : Prop where
  counter : log.session.mgr.requestID = 2 * log.requestIDs.length % 2 ^ 32
  requestIDs : log.requestIDs =
    (List.range log.requestIDs.length).map fun k => byteOrder.requestID (2 * k)
  orderIDs : ∀ id ∈ log.orderIDs, ∃ k < log.requestIDs.length, id ∈ slot byteOrder k
  nodup : log.orderIDs.Nodup
  requests : ∀ k, log.session.mgr.requests.find? k ≠ none → k ∈ log.requestIDs

def live (stack : List Frame) : List OrderDataDetail :=
  stack.flatMap fun frame => frame.current :: frame.rest

/-- The orders of the suspended calls and `next` have ids of their own.  What is shown is
stored, the others are not stored yet. -/
structure Shelved (orderIDs : List ℕ) (orders : OrderedMap ℕ OrderDataDetail)
    (stack : List Frame) (next : List OrderDataDetail) : Prop where
  filed : ∀ k order, orders.find? k = some order → order.orderID = k
  stored : ∀ k, orders.find? k ≠ none → k ∈ orderIDs
  distinct : ((next ++ live stack).map OrderDataDetail.orderID).Nodup
  known : ∀ order ∈ next ++ live stack, order.orderID ∈ orderIDs
  free : ∀ order ∈ next ++ stack.flatMap Frame.rest, orders.find? order.orderID = none
  shown : ∀ frame ∈ stack, orders.find? frame.current.orderID =
    some (if frame.filled then tradeOrder frame.current else frame.current)

theorem mem_live_of_rest {stack : List Frame} {order : OrderDataDetail}
    (h : order ∈ stack.flatMap Frame.rest) : order ∈ live stack := by
  obtain ⟨frame, hframe, horder⟩ := List.mem_flatMap.mp h
  exact List.mem_flatMap.mpr ⟨frame, hframe, List.mem_cons_of_mem _ horder⟩

theorem mem_live_of_current {stack : List Frame} {frame : Frame} (h : frame ∈ stack) :
    frame.current ∈ live stack :=
  List.mem_flatMap.mpr ⟨frame, h, List.mem_cons_self⟩

theorem orderID_ne_of_nodup {order : OrderDataDetail} {others : List OrderDataDetail}
    (h : ((order :: others).map OrderDataDetail.orderID).Nodup) :
    ∀ other ∈ others, other.orderID ≠ order.orderID := by
  intro other hother heq
  exact (List.nodup_cons.mp h).1 (heq ▸ List.mem_map_of_mem hother)

section Shelf

variable {orderIDs : List ℕ} {orders : OrderedMap ℕ OrderDataDetail} {stack : List Frame}

theorem shelved_empty (orderIDs : List ℕ) : Shelved orderIDs .empty [] [] where
  filed k order hfind := by simp at hfind
  stored k hfind := absurd rfl hfind
  distinct := List.nodup_nil
  known order hmem := by cases hmem
  free order hmem := by cases hmem
  shown frame hframe := by cases hframe

theorem Shelved.put (frame : Frame) (h : Shelved orderIDs orders stack frame.rest)
    (hdistinct : ((frame.current :: (frame.rest ++ live stack)).map
      OrderDataDetail.orderID).Nodup)
    (hknown : frame.current.orderID ∈ orderIDs) {order : OrderDataDetail}
    (horder : order = if frame.filled then tradeOrder frame.current else frame.current) :
    Shelved orderIDs (orders.insert order.orderID order) (frame :: stack) [] := by
  have hne := orderID_ne_of_nodup hdistinct
  have hid : order.orderID = frame.current.orderID := by
    rw [horder]
    split_ifs
    · exact orderID_tradeOrder _
    · rfl
  rw [hid]
  refine
    { filed := fun k other hfind => ?_
      stored := fun k hfind => ?_
      distinct := hdistinct
      known := List.forall_mem_cons.mpr ⟨hknown, h.known⟩
      free := fun other hother => ?_
      shown := fun other hother => ?_ }
  · rw [OrderedMap.find?_insert] at hfind
    split_ifs at hfind with hk
    · rw [← Option.some.inj hfind, hid, hk]
    · exact h.filed k other hfind
  · rw [OrderedMap.find?_insert] at hfind
    split_ifs at hfind with hk
    · exact hk ▸ hknown
    · exact h.stored k hfind
  · have hrest : other ∈ frame.rest ++ stack.flatMap Frame.rest := hother
    rw [OrderedMap.find?_insert_of_ne _ _ (hne other ?_)]
    · exact h.free other hrest
    · exact (List.mem_append.mp hrest).elim (List.mem_append_left _)
        fun hmem => List.mem_append_right _ (mem_live_of_rest hmem)
  · rcases List.mem_cons.mp hother with rfl | hother
    · rw [OrderedMap.find?_insert_self, horder]
    · rw [OrderedMap.find?_insert_of_ne _ _
        (hne _ (List.mem_append_right _ (mem_live_of_current hother)))]
      exact h.shown other hother

theorem Shelved.pop {frame : Frame} (h : Shelved orderIDs orders (frame :: stack) []) :
    Shelved orderIDs orders stack frame.rest where
  filed := h.filed
  stored := h.stored
  distinct := (List.nodup_cons.mp h.distinct).2
  known order hmem := h.known order (List.mem_cons_of_mem frame.current hmem)
  free := h.free
  shown other hmem := h.shown other (List.mem_cons_of_mem frame hmem)

theorem Shelved.tail {order : OrderDataDetail} {rest : List OrderDataDetail}
    (h : Shelved orderIDs orders stack (order :: rest)) : Shelved orderIDs orders stack rest where
  filed := h.filed
  stored := h.stored
  distinct := (List.nodup_cons.mp h.distinct).2
  known other hmem := h.known other (List.mem_cons_of_mem order hmem)
  free other hmem := h.free other (List.mem_cons_of_mem order hmem)
  shown := h.shown

theorem Shelved.abandon {next : List OrderDataDetail} (h : Shelved orderIDs orders stack next) :
    Shelved orderIDs orders stack [] where
  filed := h.filed
  stored := h.stored
  distinct := h.distinct.sublist ((List.sublist_append_right next _).map _)
  known order hmem := h.known order (List.mem_append_right next hmem)
  free order hmem := h.free order (List.mem_append_right next hmem)
  shown := h.shown

theorem Shelved.advance {s : Session} {next : List OrderDataDetail} (code : OrderErrorCode)
    (h : Shelved orderIDs s.mgr.orders stack next) :
    Shelved orderIDs (s.advance code next stack).mgr.orders (s.advance code next stack).stack
      [] := by
  cases next with
  | nil => exact h
  | cons order rest =>
      exact h.tail.put ⟨code, order, false, rest⟩ h.distinct (h.known order List.mem_cons_self) rfl

end Shelf

/-! ### One event -/

structure Issued (byteOrder : ByteOrder) (log : Log) : Prop where
  allotted : Allotted byteOrder log
  shelved : Shelved log.orderIDs log.session.mgr.orders log.session.stack []

section Step

variable {byteOrder : ByteOrder} {log : Log}

theorem Log.step_cases {next : Log} {event : Event} (h : log.step byteOrder event = some next) :
    (∃ request, event = .session (.submit request) ∧ next = log.submit byteOrder request) ∨
      (∃ a session, event = .session a ∧ (∀ request, a ≠ .submit request) ∧
        log.session.step byteOrder a = some session ∧ next = { log with session := session }) ∨
      ∃ date, event = .startDay date ∧ log.session.stack = [] ∧
        next = { log with
          session := { log.session with mgr := log.session.mgr.onStartDay date } } := by
  cases event with
  | session a =>
      cases a with
      | submit request => exact .inl ⟨request, rfl, (Option.some.inj h).symm⟩
      | resume | unwind =>
          obtain ⟨session, htake, rfl⟩ := Option.map_eq_some_iff.mp h
          exact .inr (.inl ⟨_, session, rfl, fun _ => by simp, htake, rfl⟩)
      | setBook posMgr =>
          exact .inr (.inl ⟨_, _, rfl, fun _ => by simp, rfl,
            (Option.some.inj h).symm⟩)
  | startDay date =>
      simp only [step] at h
      split_ifs at h with hstack
      exact .inr (.inr ⟨date, rfl, hstack, (Option.some.inj h).symm⟩)

theorem requestID_advance (s : Session) (code : OrderErrorCode) (orders : List OrderDataDetail)
    (stack : List Frame) :
    (s.advance code orders stack).mgr.requestID = s.mgr.requestID ∧
      (s.advance code orders stack).mgr.requests = s.mgr.requests := by
  cases orders <;> exact ⟨rfl, rfl⟩

theorem Allotted.congr (h : Allotted byteOrder log) {session : Session}
    (hcounter : session.mgr.requestID = log.session.mgr.requestID)
    (hrequests : session.mgr.requests = log.session.mgr.requests) :
    Allotted byteOrder { log with session := session } where
  counter := hcounter.trans h.counter
  requestIDs := h.requestIDs
  orderIDs := h.orderIDs
  nodup := h.nodup
  requests k := by
    rw [hrequests]
    exact h.requests k

theorem Allotted.requestID_eq (h : Allotted byteOrder log)
    (hcount : log.requestIDs.length < 2 ^ 31) (request : OrderRequest) :
    (log.session.mgr.recordRequest byteOrder request).1 =
      byteOrder.requestID (2 * log.requestIDs.length) := by
  change byteOrder.requestID log.session.mgr.requestID = _
  rw [h.counter, Nat.mod_eq_of_lt (by omega)]

theorem Allotted.mem_requestIDs (h : Allotted byteOrder log) {id : ℕ}
    (hid : id ∈ log.requestIDs) : ∃ k < log.requestIDs.length, id ∈ slot byteOrder k := by
  rw [h.requestIDs] at hid
  obtain ⟨k, hk, rfl⟩ := List.mem_map.mp hid
  exact ⟨k, List.mem_range.mp hk, requestID_mem_slot byteOrder k⟩

theorem Allotted.mem_slot (h : Allotted byteOrder log) (hcount : log.requestIDs.length < 2 ^ 31)
    {request : OrderRequest} {id : ℕ}
    (hid : id ∈ (log.session.generated byteOrder request).1.map OrderDataDetail.orderID) :
    id ∈ slot byteOrder log.requestIDs.length := by
  obtain ⟨order, hmem, rfl⟩ := List.mem_map.mp hid
  have hids := orderID_of_mem_generateOrders hmem
  rwa [h.requestID_eq hcount request] at hids

theorem Allotted.notMem_orderIDs (h : Allotted byteOrder log)
    {id : ℕ} (hid : id ∈ slot byteOrder log.requestIDs.length) : id ∉ log.orderIDs := by
  intro hmem
  obtain ⟨k, hk, hslot⟩ := h.orderIDs id hmem
  exact hk.ne (eq_of_mem_slot hslot hid)

theorem Allotted.submit (h : Allotted byteOrder log) (hcount : log.requestIDs.length < 2 ^ 31)
    (request : OrderRequest) : Allotted byteOrder (log.submit byteOrder request) := by
  have hid := h.requestID_eq hcount request
  obtain ⟨hcounter, hrequests⟩ := requestID_advance
    (log.session.accept byteOrder request) (log.session.generated byteOrder request).2.1
    (log.session.generated byteOrder request).1 log.session.stack
  have hlength : (log.submit byteOrder request).requestIDs.length = log.requestIDs.length + 1 :=
    List.length_append
  refine
    { counter := ?_
      requestIDs := ?_
      orderIDs := fun id hmem => ?_
      nodup := ?_
      requests := fun k hfind => ?_ }
  · rw [hlength]
    refine hcounter.trans ?_
    change (log.session.mgr.requestID + 2) % 2 ^ 32 = _
    rw [h.counter]
    omega
  · rw [hlength, List.range_succ, List.map_append, ← h.requestIDs]
    exact congrArg (fun id => log.requestIDs ++ [id]) hid
  · rw [hlength]
    rcases List.mem_append.mp hmem with hold | hnew
    · obtain ⟨k, hk, hslot⟩ := h.orderIDs id hold
      exact ⟨k, Nat.lt_succ_of_lt hk, hslot⟩
    · exact ⟨log.requestIDs.length, Nat.lt_succ_self _, h.mem_slot hcount hnew⟩
  · refine List.nodup_append'.mpr ⟨h.nodup, nodup_generateOrders _ _ request, ?_⟩
    intro id hold hnew
    exact h.notMem_orderIDs (h.mem_slot hcount hnew) hold
  · have hinsert : (log.session.mgr.requests.insert
        (log.session.mgr.recordRequest byteOrder request).1 request).find? k ≠ none := by
      intro hnone
      refine hfind ?_
      change (log.session.submit byteOrder request).mgr.requests.find? k = none
      rw [Session.submit, hrequests]
      exact hnone
    rw [OrderedMap.find?_insert] at hinsert
    split_ifs at hinsert with hk
    · exact List.mem_append_right _ (List.mem_singleton.mpr hk)
    · exact List.mem_append_left _ (h.requests k hinsert)

theorem Issued.submit (h : Issued byteOrder log) (hcount : log.requestIDs.length < 2 ^ 31)
    (request : OrderRequest) : Issued byteOrder (log.submit byteOrder request) := by
  let generated := (log.session.generated byteOrder request).1
  have hnew : ∀ order ∈ generated, order.orderID ∉ log.orderIDs := fun order hmem =>
    h.allotted.notMem_orderIDs (h.allotted.mem_slot hcount (List.mem_map_of_mem hmem))
  refine ⟨h.allotted.submit hcount request, Shelved.advance _ ?_⟩
  exact
    { filed := h.shelved.filed
      stored := fun k hfind => List.mem_append_left _ (h.shelved.stored k hfind)
      distinct := by
        rw [List.map_append]
        refine List.nodup_append'.mpr ⟨nodup_generateOrders _ _ request, h.shelved.distinct, ?_⟩
        intro id hid hlive
        obtain ⟨order, hmem, rfl⟩ := List.mem_map.mp hid
        obtain ⟨other, hother, heq⟩ := List.mem_map.mp hlive
        exact hnew order hmem (heq ▸ h.shelved.known other hother)
      known := fun order hmem => (List.mem_append.mp hmem).elim
        (fun hgen => List.mem_append_right _ (List.mem_map_of_mem hgen))
        fun hlive => List.mem_append_left _ (h.shelved.known order hlive)
      free := fun order hmem => (List.mem_append.mp hmem).elim
        (fun hgen => by
          by_contra hfind
          exact hnew order hgen (h.shelved.stored _ hfind))
        fun hrest => h.shelved.free order hrest
      shown := h.shelved.shown }

theorem Issued.step {event : Event} {next : Log} (h : Issued byteOrder log)
    (htake : log.step byteOrder event = some next) (hcount : next.requestIDs.length ≤ 2 ^ 31) :
    Issued byteOrder next := by
  rcases Log.step_cases htake with ⟨request, rfl, rfl⟩ | ⟨a, session, rfl, hsubmit, hstep, rfl⟩ |
    ⟨date, rfl, hstack, rfl⟩
  · refine h.submit ?_ request
    simp only [Log.submit, List.length_append, List.length_singleton] at hcount
    omega
  · rcases Session.step_cases hstep with ⟨request, rfl, -⟩ | ⟨frame, stack, hstack, hcase⟩ |
      ⟨posMgr, rfl, rfl⟩
    · exact absurd rfl (hsubmit request)
    · have hshelved := h.shelved
      rw [hstack] at hshelved
      rcases hcase with ⟨-, ⟨hcode, hfilled⟩, rfl⟩ | ⟨-, -, rfl⟩ | ⟨-, rfl⟩
      · refine ⟨h.allotted.congr rfl rfl, ?_⟩
        exact hshelved.pop.put { frame with filled := true } hshelved.distinct
          (hshelved.known _ List.mem_cons_self) rfl
      · obtain ⟨hcounter, hrequests⟩ :=
          requestID_advance log.session frame.code frame.rest stack
        exact ⟨h.allotted.congr hcounter hrequests, hshelved.pop.advance frame.code⟩
      · exact ⟨h.allotted.congr rfl rfl, hshelved.pop.abandon⟩
    · exact ⟨h.allotted.congr rfl rfl, h.shelved⟩
  · refine ⟨h.allotted.congr rfl rfl, ?_⟩
    change Shelved log.orderIDs .empty log.session.stack []
    rw [hstack]
    exact shelved_empty log.orderIDs

theorem Issued.insertsFresh (h : Issued byteOrder log) {event : Event} {next : Log}
    (htake : log.step byteOrder event = some next) (hcount : next.requestIDs.length ≤ 2 ^ 31) :
    InsertsFresh byteOrder log.session event := by
  rcases Log.step_cases htake with ⟨request, rfl, rfl⟩ | ⟨a, session, rfl, hsubmit, hstep, -⟩ |
    ⟨date, rfl, -, -⟩
  · simp only [Log.submit, List.length_append, List.length_singleton] at hcount
    constructor
    · by_contra hfind
      obtain ⟨k, hk, hslot⟩ := h.allotted.mem_requestIDs (h.allotted.requests _ hfind)
      rw [h.allotted.requestID_eq (by omega)] at hslot
      exact hk.ne (eq_of_mem_slot hslot (requestID_mem_slot byteOrder _))
    · intro order hmem
      by_contra hfind
      exact h.allotted.notMem_orderIDs
        (h.allotted.mem_slot (by omega) (List.mem_map_of_mem hmem)) (h.shelved.stored _ hfind)
  · cases a with
    | submit request => exact absurd rfl (hsubmit request)
    | resume =>
        intro frame hframe
        have hmem : frame ∈ log.session.stack := List.mem_of_mem_head? hframe
        split_ifs with hfill
        · rw [h.shelved.shown frame hmem, hfill.2]
          rfl
        · exact fun order hrest =>
            h.shelved.free order (List.mem_flatMap.mpr ⟨frame, hmem, hrest⟩)
    | unwind => trivial
    | setBook posMgr => trivial
  · trivial

end Step

theorem issued_start (byteOrder : ByteOrder) (posMgr : TestPositionManager)
    (orderdataSubscribers : OrderedMap ℕ ℕ) :
    Issued byteOrder (Log.start (constructed posMgr orderdataSubscribers)) where
  allotted :=
    { counter := rfl
      requestIDs := rfl
      orderIDs := fun id hmem => by cases hmem
      nodup := List.nodup_nil
      requests := fun k hfind => absurd rfl hfind }
  shelved := shelved_empty []

/-- In a run of at most 2 ^ 31 requests from the constructor on, in any order of events and with
requests nested in notifications, all request ids and all order ids are distinct, nothing that is
stored is replaced by anything else, and every stored order is found under its id. -/
theorem ids_of_run (byteOrder : ByteOrder) (posMgr : TestPositionManager)
    (orderdataSubscribers : OrderedMap ℕ ℕ) {events : List Event} {log : Log}
    (hrun : Run (Log.step byteOrder) (fun _ _ => True)
      (Log.start (constructed posMgr orderdataSubscribers)) events log)
    (hcount : log.requestIDs.length ≤ 2 ^ 31) :
    log.requestIDs.Nodup ∧ log.orderIDs.Nodup ∧
      (∀ event next, log.step byteOrder event = some next →
        next.requestIDs.length ≤ 2 ^ 31 → InsertsFresh byteOrder log.session event) ∧
      ∀ orderID order, log.session.mgr.getOrderDetailByOrderID orderID = some order ↔
        (∃ k, log.session.mgr.orders.find? k = some order) ∧ order.orderID = orderID := by
  have hgrows : ∀ (log next : Log) (event : Event), log.step byteOrder event = some next →
      log.requestIDs.length ≤ next.requestIDs.length := by
    intro log next event htake
    rcases Log.step_cases htake with ⟨request, rfl, rfl⟩ | ⟨a, session, rfl, -, -, rfl⟩ |
      ⟨date, rfl, -, rfl⟩
    · simp [Log.submit]
    · exact le_rfl
    · exact le_rfl
  have hissued : log.requestIDs.length ≤ 2 ^ 31 → Issued byteOrder log := by
    refine Run.invariant (I := fun log => log.requestIDs.length ≤ 2 ^ 31 → Issued byteOrder log)
      (fun log event next _ htake h hnext => ?_) hrun
      (fun _ => issued_start byteOrder posMgr orderdataSubscribers)
    exact (h ((hgrows log next event htake).trans hnext)).step htake hnext
  have h := hissued hcount
  refine ⟨?_, h.allotted.nodup, fun event next htake hnext => h.insertsFresh htake hnext, ?_⟩
  · rw [h.allotted.requestIDs]
    refine List.nodup_range.map_on ?_
    intro j _ k _ heq
    exact eq_of_mem_slot (requestID_mem_slot byteOrder j) (heq ▸ requestID_mem_slot byteOrder k)
  · intro orderID order
    rw [getOrderDetailByOrderID_eq h.shelved.filed]
    constructor
    · exact fun hfind => ⟨⟨orderID, hfind⟩, h.shelved.filed orderID order hfind⟩
    · rintro ⟨⟨k, hfind⟩, rfl⟩
      rwa [h.shelved.filed k order hfind]

/-- One long of today and one of yesterday are closed by one request, and a second request comes
while the first is showing its first order. -/
def nestedRun : List Event :=
  .session (.submit (auRequest 2 .flagClose .flagShort)) ::
    .session (.submit (auRequest 1 .flagOpen .flagLong)) ::
    List.replicate 6 (.session .resume) ++ [.startDay 20150106]

theorem ids_of_run_nested :
    let mgr := constructed (longManager [⟨100, 1, true, true⟩] [⟨90, 1, true, false⟩]).posMgr .empty
    ∃ log, Run (Log.step .bigEndian) (fun _ _ => True) (Log.start mgr) nestedRun log ∧
      (log.requestIDs, log.orderIDs) = ([0, 2], [0, 1, 2]) ∧
      log.requestIDs.Nodup ∧ log.orderIDs.Nodup := by
  intro mgr
  have hexecute : (Run.execute (Log.step .bigEndian) (fun _ _ => True) (Log.start mgr)
      nestedRun).map (fun log => (log.requestIDs, log.orderIDs)) = some ([0, 2], [0, 1, 2]) := by
    decide +kernel
  obtain ⟨log, hrun, hids⟩ := Run.exists_of_execute_map hexecute
  have hcount : log.requestIDs.length ≤ 2 ^ 31 := by
    rw [(Prod.mk.inj hids).1]
    decide
  obtain ⟨hrequests, horders, -, -⟩ := ids_of_run .bigEndian _ _ hrun hcount
  exact ⟨log, hrun, hids, hrequests, horders⟩

end BluesTrading.OrderIds
