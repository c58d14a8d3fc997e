import BluesTrading.OrderSession

namespace BluesTrading.OrderLookup

open BluesTrading.Foundations
open BluesTrading.OrderData
open BluesTrading.PositionBook
open BluesTrading.PositionManager
open BluesTrading.OrderManager
open BluesTrading.OrderSession

def storedOrders (mgr : FakeOrderManager) (requestID : ℕ) : List OrderDataDetail :=
  mgr.orders.values.filter fun order => order.requestid = requestID

/-- The accepted closing requests that today's bucket does not cover, so that
a child for yesterday's is generated. -/
def ClosesYst (m : TestPositionManager) : OrderRequest → Prop
  | .futureNewOrder exch request =>
      (checkNewOrderRequestValid m (.futureNewOrder exch request)).1 = .noError ∧
        request.opencloseflag ≠ .flagOpen ∧
        ((m.getPosition request.instrumentID).1.getTotalQtyAmmount
          (closedBuckets request.longshortflag).2).qty < request.orderqty
  | _ => False

instance (m : TestPositionManager) : (request : OrderRequest) →
    Decidable (ClosesYst m request)
  | .futureNewOrder _ _ => inferInstanceAs (Decidable (_ ∧ _ ∧ _))
  | .securityNewOrder _ _ => .isFalse not_false
  | .sseSecurityCancel _ => .isFalse not_false
  | .sseSecurityModify _ _ => .isFalse not_false
  | .unsupported _ => .isFalse not_false

def SingleChild (s : Session) : Action → Prop
  | .submit request => ¬ ClosesYst s.mgr.posMgr request
  | _ => True

instance (s : Session) : (a : Action) → Decidable (SingleChild s a)
  | .submit request => inferInstanceAs (Decidable (¬ ClosesYst s.mgr.posMgr request))
  | .resume => .isTrue trivial
  | .unwind => .isTrue trivial
  | .setBook _ => .isTrue trivial

def OwnKey (order : OrderDataDetail) : Prop := order.orderID = order.requestid

@[simp] theorem ownKey_tradeOrder (order : OrderDataDetail) :
    OwnKey (tradeOrder order) ↔ OwnKey order := by
  unfold OwnKey tradeOrder
  cases order.order <;> rfl

/-! ### The orders a request produces -/

theorem ids_of_mem_generateOrders {m : TestPositionManager} {requestID : ℕ}
    {request : OrderRequest} {order : OrderDataDetail} (hsingle : ¬ ClosesYst m request)
    (h : order ∈ (FakeOrderManager.generateOrders m requestID request).1) :
    order.requestid = requestID ∧ OwnKey order := by
  cases request with
  | securityNewOrder exch request =>
      obtain rfl := List.mem_singleton.mp h
      exact ⟨rfl, rfl⟩
  | futureNewOrder exch request =>
      simp only [FakeOrderManager.generateOrders] at h
      obtain ⟨orderID, _, _, _, rfl, -, rfl | ⟨hhint, hflag, hleft⟩⟩ :=
        exists_of_mem_generateFutureOrder h
      · exact ⟨rfl, rfl⟩
      · rw [(lookedUp_checkNewOrderRequestValid _ _).getPosition] at hleft
        exact absurd ⟨hhint, hflag, hleft⟩ hsingle
  | sseSecurityCancel blueOrderID => cases h
  | sseSecurityModify newOrder blueOrderID => cases h
  | unsupported requestType => cases h

/-! ### Look-ups in one state -/

def Filed (mgr : FakeOrderManager) : Prop :=
  ∀ k order, mgr.orders.find? k = some order → order.orderID = k

theorem mem_getOrderDetailByRequestID {mgr : FakeOrderManager} {r : ℕ}
    {order : OrderDataDetail} :
    order ∈ mgr.getOrderDetailByRequestID r ↔ mgr.orders.find? r = some order := by
  unfold FakeOrderManager.getOrderDetailByRequestID
  cases mgr.orders.find? r <;> simp [eq_comm]

theorem mem_storedOrders {mgr : FakeOrderManager} {r : ℕ} {order : OrderDataDetail} :
    order ∈ storedOrders mgr r ↔
      (∃ k, mgr.orders.find? k = some order) ∧ order.requestid = r := by
  simp only [storedOrders, OrderedMap.values, List.mem_filter, List.mem_map, Prod.exists,
    OrderedMap.mem_entries_iff, exists_eq_right, decide_eq_true_eq]

/-- When orders are filed by order id, the look-up by request id is right for
all requests exactly when every order has the id of its request. -/
theorem lookup_perm_stored_iff {mgr : FakeOrderManager} (hfiled : Filed mgr) :
    (∀ r, (mgr.getOrderDetailByRequestID r).Perm (storedOrders mgr r)) ↔
      ∀ k order, mgr.orders.find? k = some order → OwnKey order := by
  constructor
  · intro hperm k order hfind
    have hstored : order ∈ storedOrders mgr order.requestid :=
      mem_storedOrders.mpr ⟨⟨k, hfind⟩, rfl⟩
    have hlookup := (hperm order.requestid).mem_iff.mpr hstored
    exact hfiled _ _ (mem_getOrderDetailByRequestID.mp hlookup)
  · intro hown r
    have hkeys : (mgr.orders.values.map OrderDataDetail.requestid) = mgr.orders.keys := by
      rw [OrderedMap.values, OrderedMap.keys, List.map_map]
      apply List.map_congr_left
      rintro ⟨k, order⟩ hmem
      have hfind := (OrderedMap.mem_entries_iff _ k order).mp hmem
      exact (hown k order hfind).symm.trans (hfiled k order hfind)
    have hnodup : (storedOrders mgr r).Nodup := by
      refine List.Nodup.filter _ (List.Nodup.of_map OrderDataDetail.requestid ?_)
      rw [hkeys]
      exact mgr.orders.keys_nodup
    have hsingle : (mgr.getOrderDetailByRequestID r).Nodup := by
      unfold FakeOrderManager.getOrderDetailByRequestID
      cases mgr.orders.find? r <;> simp
    rw [List.perm_ext_iff_of_nodup hsingle hnodup]
    intro order
    rw [mem_getOrderDetailByRequestID, mem_storedOrders]
    constructor
    · intro hfind
      exact ⟨⟨r, hfind⟩, (hown r order hfind).symm.trans (hfiled r order hfind)⟩
    · rintro ⟨⟨k, hfind⟩, rfl⟩
      rwa [← hown k order hfind, hfiled k order hfind]

/-! ### Look-ups in a run -/

structure Owned (mgr : FakeOrderManager) : Prop where
  filed : Filed mgr
  own : ∀ k order, mgr.orders.find? k = some order → OwnKey order

theorem find?_storeOrder (mgr : FakeOrderManager) (order : OrderDataDetail) (k : ℕ) :
    (mgr.storeOrder order).orders.find? k =
      if k = order.orderID then some order else mgr.orders.find? k :=
  OrderedMap.find?_insert mgr.orders order.orderID k order

theorem Owned.storeOrder {mgr : FakeOrderManager} (h : Owned mgr) {order : OrderDataDetail}
    (hown : OwnKey order) : Owned (mgr.storeOrder order) := by
  refine ⟨?_, ?_⟩
  all_goals
    intro k stored hfind
    rw [find?_storeOrder] at hfind
    split_ifs at hfind with hk
  · rw [← Option.some.inj hfind, hk]
  · exact h.filed k stored hfind
  · exact Option.some.inj hfind ▸ hown
  · exact h.own k stored hfind

structure LookupReady (s : Session) : Prop where
  owned : Owned s.mgr
  pending : ∀ frame ∈ s.stack, ∀ order ∈ frame.current :: frame.rest, OwnKey order
  created : ∀ r ∈ s.created, s.mgr.orders.find? r ≠ none

theorem lookupReady_advance {s : Session} {orders : List OrderDataDetail}
    {stack : List Frame} (howned : Owned s.mgr)
    (hstack : ∀ frame ∈ stack, ∀ order ∈ frame.current :: frame.rest, OwnKey order)
    (horders : ∀ order ∈ orders, OwnKey order)
    (hcreated : ∀ r ∈ s.created,
      s.mgr.orders.find? r ≠ none ∨ ∃ order ∈ orders.head?, order.orderID = r)
    (code : OrderErrorCode) : LookupReady (s.advance code orders stack) := by
  cases orders with
  | nil =>
      refine ⟨howned, hstack, fun r hr => (hcreated r hr).resolve_right ?_⟩
      rintro ⟨order, hmem, -⟩
      cases hmem
  | cons order rest =>
      refine ⟨howned.storeOrder (horders order List.mem_cons_self), ?_, ?_⟩
      · intro frame hframe
        rcases List.mem_cons.mp hframe with rfl | hframe
        · exact horders
        · exact hstack frame hframe
      · intro r hr
        change (s.mgr.storeOrder order).orders.find? r ≠ none
        rw [find?_storeOrder]
        split_ifs with hk
        · exact Option.some_ne_none _
        · refine (hcreated r hr).resolve_right ?_
          rintro ⟨first, hfirst, rfl⟩
          exact hk (congrArg _ (Option.some.inj hfirst).symm)

theorem LookupReady.submit {s : Session} (h : LookupReady s) (byteOrder : ByteOrder)
    {request : OrderRequest} (hsingle : ¬ ClosesYst s.mgr.posMgr request) :
    LookupReady (s.submit byteOrder request) := by
  have hids : ∀ order ∈ (s.generated byteOrder request).1,
      order.requestid = (s.mgr.recordRequest byteOrder request).1 ∧ OwnKey order :=
    fun order hmem => ids_of_mem_generateOrders hsingle hmem
  have hcreated : ∀ r ∈ (s.accept byteOrder request).created,
      s.mgr.orders.find? r ≠ none ∨
        ∃ order ∈ (s.generated byteOrder request).1.head?, order.orderID = r := by
    intro r hr
    simp only [Session.accept] at hr
    generalize (s.generated byteOrder request).1 = orders at hids hr
    cases orders with
    | nil => exact .inl (h.created r hr)
    | cons order rest =>
        obtain ⟨hid, hown⟩ := hids order List.mem_cons_self
        rcases List.mem_append.mp hr with hold | hnew
        · exact .inl (h.created r hold)
        · exact .inr ⟨order, rfl, hown.trans (hid.trans (List.mem_singleton.mp hnew).symm)⟩
  have howned : Owned (s.accept byteOrder request).mgr := ⟨h.owned.filed, h.owned.own⟩
  exact lookupReady_advance howned h.pending (fun order hmem => (hids order hmem).2)
    hcreated _

theorem LookupReady.step {byteOrder : ByteOrder} {s t : Session} {a : Action}
    (hsingle : SingleChild s a) (htake : Session.step byteOrder s a = some t)
    (h : LookupReady s) : LookupReady t := by
  rcases Session.step_cases htake with ⟨request, rfl, rfl⟩ | ⟨frame, stack, hstack, hcase⟩ |
    ⟨posMgr, rfl, rfl⟩
  · exact h.submit byteOrder hsingle
  · have hframe : ∀ order ∈ frame.current :: frame.rest, OwnKey order :=
      h.pending frame (hstack ▸ List.mem_cons_self)
    have htail : ∀ f ∈ stack, ∀ order ∈ f.current :: f.rest, OwnKey order :=
      fun f hf => h.pending f (hstack ▸ List.mem_cons_of_mem frame hf)
    rcases hcase with ⟨-, -, rfl⟩ | ⟨-, -, rfl⟩ | ⟨-, rfl⟩
    · have hown := (ownKey_tradeOrder _).mpr (hframe _ List.mem_cons_self)
      have howned := h.owned.storeOrder hown
      refine ⟨⟨howned.filed, howned.own⟩, ?_, ?_⟩
      · intro f hf
        rcases List.mem_cons.mp hf with rfl | hf
        · exact hframe
        · exact htail f hf
      · intro r hr
        change (s.mgr.storeOrder (tradeOrder frame.current)).orders.find? r ≠ none
        rw [find?_storeOrder]
        split_ifs
        · exact Option.some_ne_none _
        · exact h.created r hr
    · exact lookupReady_advance h.owned htail
        (fun order hmem => hframe order (List.mem_cons_of_mem _ hmem))
        (fun r hr => .inl (h.created r hr)) _
    · exact ⟨h.owned, htail, h.created⟩
  · exact ⟨⟨h.owned.filed, h.owned.own⟩, h.pending, h.created⟩

theorem lookupReady_onStartDay (mgr : FakeOrderManager) (date : ℕ) :
    LookupReady (Session.idle (mgr.onStartDay date)) where
  owned :=
    { filed := by simp [Filed, Session.idle, FakeOrderManager.onStartDay]
      own := by simp [Session.idle, FakeOrderManager.onStartDay] }
  pending := by simp [Session.idle]
  created := by simp [Session.idle]

/-- Since the last day start, as long as no closing request needed a child for
yesterday's bucket, looking up a request id finds exactly the stored orders of
that request, and finds one for every request that produced an order. -/
theorem lookup_perm_stored_of_singleChild {byteOrder : ByteOrder} {mgr : FakeOrderManager}
    {date : ℕ} {actions : List Action} {s : Session}
    (hrun : Run (Session.step byteOrder) SingleChild
      (Session.idle (mgr.onStartDay date)) actions s) :
    (∀ r, (s.mgr.getOrderDetailByRequestID r).Perm (storedOrders s.mgr r)) ∧
      ∀ r ∈ s.created, s.mgr.getSingleOrderByOrderRequestID r ≠ none := by
  have hready : LookupReady s :=
    hrun.invariant (fun _ _ _ hsingle htake hs => hs.step hsingle htake)
      (lookupReady_onStartDay mgr date)
  refine ⟨(lookup_perm_stored_iff hready.owned.filed).mpr hready.owned.own, ?_⟩
  intro r hr
  have hfind := hready.created r hr
  unfold FakeOrderManager.getSingleOrderByOrderRequestID
    FakeOrderManager.getOrderDetailByRequestID
  cases hcase : s.mgr.orders.find? r with
  | none => exact absurd hcase hfind
  | some order => exact Option.some_ne_none _

/-! ### The condition is necessary -/

theorem Filed.handleOrder {state : FakeOrderManager × List Notification}
    (h : Filed state.1) (code : OrderErrorCode) (order : OrderDataDetail) :
    Filed (FakeOrderManager.handleOrder code state order).1 := by
  have hstore : ∀ {mgr : FakeOrderManager} (order : OrderDataDetail), Filed mgr →
      Filed (mgr.storeOrder order) := by
    intro mgr order hmgr k stored hfind
    rw [find?_storeOrder] at hfind
    split_ifs at hfind with hk
    · rw [← Option.some.inj hfind, hk]
    · exact hmgr k stored hfind
  simp only [FakeOrderManager.handleOrder]
  split_ifs
  · exact hstore (tradeOrder order) (hstore order h)
  · exact hstore order h

theorem Filed.foldl_handleOrder {state : FakeOrderManager × List Notification}
    (h : Filed state.1) (code : OrderErrorCode) (orders : List OrderDataDetail) :
    Filed (orders.foldl (FakeOrderManager.handleOrder code) state).1 := by
  induction orders generalizing state with
  | nil => exact h
  | cons order orders ih => exact ih (h.handleOrder code order)

theorem generateFutureOrder_of_left {m : TestPositionManager} (requestID : ℕ)
    (exch : FutureExchange) {request : FutureNewOrderRequest}
    (hflag : request.opencloseflag ≠ .flagOpen)
    (hleft : ((m.getPosition request.instrumentID).1.getTotalQtyAmmount
      (closedBuckets request.longshortflag).2).qty < request.orderqty) :
    ∃ first yst, (generateFutureOrder m requestID exch request .noError).1 = first ++ [yst] ∧
      yst.requestid = requestID ∧ yst.orderID = requestID + 1 := by
  simp only [generateFutureOrder, ne_eq, not_true_eq_false, if_false, hflag, not_false_eq_true,
    if_true]
  have hrest : 0 < if ((m.getPosition request.instrumentID).1.getTotalQtyAmmount
      (closedBuckets request.longshortflag).2).qty > 0 then
        request.orderqty - min ((m.getPosition request.instrumentID).1.getTotalQtyAmmount
          (closedBuckets request.longshortflag).2).qty request.orderqty
      else request.orderqty := by
    split_ifs <;> omega
  rw [if_pos hrest]
  exact ⟨_, _, rfl, rfl, rfl⟩

theorem handleFutureNew_of_accepted {mgr : FakeOrderManager} {requestID : ℕ}
    {exch : FutureExchange} {request : FutureNewOrderRequest}
    (hcode : (checkNewOrderRequestValid mgr.posMgr (.futureNewOrder exch request)).1 =
      .noError) :
    let generated := generateFutureOrder
      (checkNewOrderRequestValid mgr.posMgr (.futureNewOrder exch request)).2 requestID exch
      request .noError
    mgr.handleFutureNew requestID exch request =
      generated.1.foldl (FakeOrderManager.handleOrder .noError)
        ({ mgr with posMgr := generated.2 }, []) := by
  simp only [FakeOrderManager.handleFutureNew, hcode]

/-- Every such request breaks the look-up. -/
theorem not_lookup_perm_stored_of_closesYst {mgr : FakeOrderManager} (hfiled : Filed mgr)
    (byteOrder : ByteOrder) {request : OrderRequest} (h : ClosesYst mgr.posMgr request) :
    ¬ ∀ r, ((mgr.submitRequest byteOrder request).2.1.getOrderDetailByRequestID r).Perm
      (storedOrders (mgr.submitRequest byteOrder request).2.1 r) := by
  cases request with
  | futureNewOrder exch request =>
      obtain ⟨hcode, hflag, hleft⟩ := h
      rw [← (lookedUp_checkNewOrderRequestValid mgr.posMgr
        (.futureNewOrder exch request)).getPosition] at hleft
      let recorded := mgr.recordRequest byteOrder (.futureNewOrder exch request)
      obtain ⟨first, yst, horders, hid, horderID⟩ := generateFutureOrder_of_left
        recorded.1 exch hflag hleft
      have hsubmit : (mgr.submitRequest byteOrder (.futureNewOrder exch request)).2.1 =
          (recorded.2.handleFutureNew recorded.1 exch request).1 := rfl
      have hrecorded : recorded.2.posMgr = mgr.posMgr := rfl
      rw [hsubmit, handleFutureNew_of_accepted (by rw [hrecorded, hcode])]
      simp only [hrecorded, horders, List.foldl_append, List.foldl_cons, List.foldl_nil]
      generalize hstate : first.foldl (FakeOrderManager.handleOrder .noError) _ = state
      have hbefore : Filed state.1 := by
        rw [← hstate]
        exact Filed.foldl_handleOrder hfiled _ _
      rw [lookup_perm_stored_iff (hbefore.handleOrder _ _)]
      intro hown
      have hfind : (FakeOrderManager.handleOrder .noError state yst).1.orders.find?
          (tradeOrder yst).orderID = some (tradeOrder yst) := by
        simp [FakeOrderManager.handleOrder, FakeOrderManager.fillOrder, find?_storeOrder]
      have hyst := (ownKey_tradeOrder yst).mp (hown _ _ hfind)
      rw [OwnKey, hid, horderID] at hyst
      omega
  | _ => exact h.elim

theorem lookup_perm_stored_of_singleChild_closeToday :
    ∃ s, Run (Session.step .littleEndian) SingleChild
        (Session.idle ((longManager [⟨100, 5, true, true⟩] []).onStartDay 20150105))
        [.submit (auRequest 3 .flagClose .flagShort), .resume, .resume] s ∧
      (∀ r, (s.mgr.getOrderDetailByRequestID r).Perm (storedOrders s.mgr r)) ∧
      ∀ r ∈ s.created, s.mgr.getSingleOrderByOrderRequestID r ≠ none := by
  obtain ⟨s, hrun⟩ : ∃ s, Run (Session.step .littleEndian) SingleChild
      (Session.idle ((longManager [⟨100, 5, true, true⟩] []).onStartDay 20150105))
      [.submit (auRequest 3 .flagClose .flagShort), .resume, .resume] s :=
    Run.exists_of_execute (by decide +kernel)
  exact ⟨s, hrun, lookup_perm_stored_of_singleChild hrun⟩

/-- A close of three longs that are all of yesterday leaves an order that its
request id does not find. -/
theorem lookup_closeYst_ne_stored :
    ∃ s, Run (Session.step .littleEndian) (fun _ _ => True)
        (Session.idle ((longManager [] [⟨100, 5, true, false⟩]).onStartDay 20150105))
        [.submit (auRequest 3 .flagClose .flagShort), .resume, .resume] s ∧
      0 ∈ s.created ∧ ¬ (s.mgr.getOrderDetailByRequestID 0).Perm (storedOrders s.mgr 0) ∧
      s.mgr.getSingleOrderByOrderRequestID 0 = none := by
  refine ⟨_, .cons trivial rfl (.cons trivial rfl (.cons trivial rfl (.nil _))), ?_⟩
  decide +kernel

end BluesTrading.OrderLookup
