import BluesTrading.RequestDispatch

namespace BluesTrading.DispatchProgress

open BluesTrading.Foundations
open BluesTrading.SourceText
open BluesTrading.RequestDispatch

/-! ### The number of configurations in a batch -/

theorem length_moveLast (num : ℕ) (request ret : List StrategyConfig) :
    (moveLast num (request, ret)).1.length = request.length - num := by
  induction num generalizing request ret with
  | zero => rfl
  | succ num ih =>
      rw [moveLast]
      cases hlast : request.getLast? with
      | none =>
          obtain rfl := List.getLast?_eq_none_iff.mp hlast
          exact (Nat.zero_sub _).symm
      | some config =>
          rw [ih, List.length_dropLast]
          omega

theorem length_splitRequest_left (request : TestRequest) (num : ℕ) :
    (splitRequest request num).2.configSpace.length = request.configSpace.length - num := by
  rw [splitRequest]
  split_ifs with hnum
  · exact (Nat.sub_eq_zero_of_le hnum).symm
  · exact length_moveLast num request.configSpace []

theorem length_splitRequest (request : TestRequest) (num : ℕ) :
    (splitRequest request num).1.configSpace.length = min num request.configSpace.length := by
  have hperm : ((splitRequest request num).1.configSpace ++
      (splitRequest request num).2.configSpace).Perm request.configSpace :=
    (splitRequest_spec request num).1
  have hlength := hperm.length_eq
  rw [List.length_append, length_splitRequest_left] at hlength
  omega

/-- The cores of a node times the factor are at least one, and the whole part is not a multiple
of 2^32, as which it would vanish in the conversion. -/
def IsEnough (taskFactor : ℚ) (node : NodeStatus) : Prop :=
  1 ≤ node.cores * taskFactor ∧ ¬ (2 ^ 32 : ℤ) ∣ ⌊node.cores * taskFactor⌋

theorem requestCores_ne_zero_iff {taskFactor : ℚ} {node : NodeStatus} :
    requestCores node taskFactor ≠ 0 ↔ IsEnough taskFactor node := by
  have hone : 1 ≤ ⌊node.cores * taskFactor⌋ ↔ 1 ≤ node.cores * taskFactor := by
    rw [Int.le_floor, Int.cast_one]
  rw [requestCores, IsEnough, ← hone]
  omega

/-! ### Passes that dispatch -/

section Steps

variable {d d' : Dispatcher} {taskFactor : ℚ} {a : Action}

theorem request_dispatch (key : Str) (node : NodeStatus) :
    (d.dispatch taskFactor key node).request =
      (splitRequest d.request (requestCores node taskFactor)).2 := rfl

theorem batches_dispatch (key : Str) (node : NodeStatus) :
    (d.dispatch taskFactor key node).batches = d.batches ++ [⟨key, requestCores node taskFactor,
      (splitRequest d.request (requestCores node taskFactor)).1, .running⟩] := rfl

/-- The node that a batch is sent to has enough cores to be asked for a configuration. -/
def AsksSome (taskFactor : ℚ) (d : Dispatcher) (a : Action) : Prop :=
  a = .endPass → ∀ key node, d.nextNode = some key → d.status.find? key = some node →
    IsEnough taskFactor node

/-- A batch that is sent has a configuration, and fewer of them remain. -/
def Progresses (taskFactor : ℚ) (d : Dispatcher) (a : Action) : Prop :=
  ∀ d' batch, d.step taskFactor a = some d' → d'.batches = d.batches ++ [batch] →
    batch.request.configSpace ≠ [] ∧
      d'.request.configSpace.length < d.request.configSpace.length

/-- Each batch so far has taken a configuration, and a pass begins only if there are some. -/
structure WithinRequest (request : TestRequest) (d : Dispatcher) : Prop where
  batches : d.batches.length + d.request.configSpace.length ≤ request.configSpace.length
  scan : d.scan ≠ none → d.request.configSpace ≠ []

/-- What a step does to the batches and the request: it sends one batch, or it keeps both. -/
inductive Sends (taskFactor : ℚ) (d : Dispatcher) : Action → Dispatcher → Prop
  | batch (key : Str) (node : NodeStatus) : d.scan ≠ none → d.nextNode = some key →
      d.status.find? key = some node → Sends taskFactor d .endPass (d.dispatch taskFactor key node)
  | none (a : Action) (d' : Dispatcher) : (a = .endPass → d.nextNode = none) →
      d'.batches.length = d.batches.length → d'.request = d.request →
      (d'.scan ≠ none → d.scan ≠ none ∨ d.request.configSpace ≠ []) →
      (∀ msg, a ≠ .recvStatus msg) → d'.status = d.status → Sends taskFactor d a d'
  | recvStatus (msg : NodeStatus) : Sends taskFactor d (.recvStatus msg) (d.recvStatus msg)

theorem sends_of_step (hstep : d.step taskFactor a = some d') : Sends taskFactor d a d' := by
  cases a with
  | endPass =>
      obtain ⟨scan, hscan, h⟩ := Option.bind_eq_some_iff.mp hstep
      have hpass : d.scan ≠ none := by simp [hscan]
      split at h
      next => cases h
      next _ hnext =>
        exact Option.some.inj h ▸
          .none _ _ (fun _ => hnext) rfl rfl (fun hne => absurd rfl hne) (by simp) rfl
      next key _ hnext =>
        obtain ⟨node, hnode, h⟩ := Option.bind_eq_some_iff.mp h
        exact Option.some.inj h ▸ .batch key node hpass hnext hnode
  | beginPass =>
      simp only [Dispatcher.step, Dispatcher.beginPass] at hstep
      split_ifs at hstep with hidle
      exact Option.some.inj hstep ▸
        .none _ _ (by simp) rfl rfl (fun _ => .inr hidle.2) (by simp) rfl
  | lookAtNode =>
      refine .none _ _ (by simp) ?_ ?_ (fun _ => .inl ?_) (by simp) ?_
      all_goals cases Dispatcher.stepped_of_step hstep <;> simp [*]
  | finish i result =>
      cases Dispatcher.stepped_of_step hstep with
      | finish i batch result =>
          exact .none _ _ (by simp) (by simp [Dispatcher.setWork]) rfl .inl (by simp) rfl
  | fail i =>
      cases Dispatcher.stepped_of_step hstep with
      | fail i batch =>
          exact .none _ _ (by simp) (by simp [Dispatcher.setWork]) rfl .inl (by simp) rfl
  | recvStatus msg => exact Option.some.inj hstep ▸ .recvStatus msg

variable {request : TestRequest}

theorem WithinRequest.step (h : WithinRequest request d) (hasks : AsksSome taskFactor d a)
    (hstep : d.step taskFactor a = some d') : WithinRequest request d' := by
  cases sends_of_step hstep with
  | batch key node hpass hnext hnode =>
      have hasked := requestCores_ne_zero_iff.mpr (hasks rfl key node hnext hnode)
      have hsome := List.length_pos_of_ne_nil (h.scan hpass)
      have hleft := length_splitRequest_left d.request (requestCores node taskFactor)
      have hbatches := h.batches
      refine ⟨?_, fun hne => absurd rfl hne⟩
      rw [batches_dispatch, request_dispatch, List.length_append, List.length_singleton]
      omega
  | none _ _ _ hlength hrequest hscan =>
      refine ⟨by rw [hlength, hrequest]; exact h.batches, fun hne => ?_⟩
      rw [hrequest]
      exact (hscan hne).elim h.scan id
  | recvStatus msg => exact ⟨h.batches, h.scan⟩

theorem withinRequest_start (request : TestRequest) (status : OrderedMap Str NodeStatus) :
    WithinRequest request (start request status) :=
  ⟨(Nat.zero_add _).le, fun hne => absurd rfl hne⟩

theorem asksSome_iff_progresses (h : WithinRequest request d)
    (hstep : d.step taskFactor a = some d') :
    AsksSome taskFactor d a ↔ Progresses taskFactor d a := by
  cases sends_of_step hstep with
  | batch key node hpass hnext hnode =>
      have hsome := List.length_pos_of_ne_nil (h.scan hpass)
      have hsent := length_splitRequest d.request (requestCores node taskFactor)
      have hleft := length_splitRequest_left d.request (requestCores node taskFactor)
      constructor
      · intro hasks t batch htake hbatches
        have hasked := requestCores_ne_zero_iff.mpr (hasks rfl key node hnext hnode)
        obtain rfl := Option.some.inj (hstep.symm.trans htake)
        rw [batches_dispatch] at hbatches
        rw [← List.singleton_inj.mp (List.append_cancel_left hbatches), request_dispatch, hleft]
        exact ⟨List.ne_nil_of_length_pos (by rw [hsent]; omega), by omega⟩
      · rintro hprogresses - key' node' hnext' hnode'
        obtain rfl := Option.some.inj (hnext.symm.trans hnext')
        obtain rfl := Option.some.inj (hnode.symm.trans hnode')
        rw [← requestCores_ne_zero_iff]
        intro hzero
        have hnil := List.eq_nil_of_length_eq_zero (hsent.trans (by rw [hzero, Nat.zero_min]))
        exact (hprogresses _ _ hstep (batches_dispatch key node)).1 hnil
  | none _ _ hnone hlength =>
      refine iff_of_true (fun ha key _ hnext => ?_) fun t batch htake hbatches => ?_
      · cases (hnone ha).symm.trans hnext
      · obtain rfl := Option.some.inj (hstep.symm.trans htake)
        rw [hbatches, List.length_append, List.length_singleton] at hlength
        omega
  | recvStatus msg =>
      refine iff_of_true (fun ha => by cases ha) fun t batch htake hbatches => ?_
      obtain rfl := Option.some.inj (hstep.symm.trans htake)
      exact absurd (List.self_eq_append_right.mp hbatches) (List.cons_ne_nil batch [])

/-- A request is sent in at most as many batches as it has configurations, and every pass that
dispatches takes some of them, just if each node that a batch is sent to is asked for some. -/
theorem run_progresses_iff {status : OrderedMap Str NodeStatus} {as : List Action} :
    (Run (Dispatcher.step · taskFactor) (Progresses taskFactor) (start request status) as d ∧
        d.batches.length ≤ request.configSpace.length) ↔
      Run (Dispatcher.step · taskFactor) (AsksSome taskFactor) (start request status) as d := by
  have hiff : ∀ (s : Dispatcher) a t, WithinRequest request s → s.step taskFactor a = some t →
      (AsksSome taskFactor s a ↔ Progresses taskFactor s a) := fun _ _ _ h hstep =>
    asksSome_iff_progresses h hstep
  have hstep : ∀ (s : Dispatcher) a t, WithinRequest request s → AsksSome taskFactor s a →
      s.step taskFactor a = some t → WithinRequest request t := fun _ _ _ h hasks hstep =>
    h.step hasks hstep
  have hstart := withinRequest_start request status
  rw [← Run.iff_of_invariant hiff hstep hstart, and_iff_left_iff_imp]
  intro hasks
  have hwithin := hasks.invariant (fun s a t hC htake hs => hstep s a t hs hC htake) hstart
  exact (Nat.le_add_right _ _).trans hwithin.batches

theorem run_asksSome_of_isEnough {status : OrderedMap Str NodeStatus} {as : List Action}
    (hstatus : ∀ key node, status.find? key = some node → IsEnough taskFactor node)
    (hrun : Run (Dispatcher.step · taskFactor)
      (fun _ a => ∀ msg, a = .recvStatus msg → IsEnough taskFactor msg)
      (start request status) as d) :
    Run (Dispatcher.step · taskFactor) (AsksSome taskFactor) (start request status) as d := by
  refine @Run.of_invariant _ _ _ _ _
    (fun s => ∀ key node, s.status.find? key = some node → IsEnough taskFactor node)
    (fun s a t hs hmsg htake => ⟨fun _ key node _ => hs key node, fun key node hnode => ?_⟩)
    _ _ _ hrun hstatus
  cases sends_of_step htake with
  | batch => exact hs key node hnode
  | none _ _ _ _ _ _ _ hkept => exact hs key node (hkept ▸ hnode)
  | recvStatus msg =>
      rw [Dispatcher.recvStatus, OrderedMap.find?_insert] at hnode
      split_ifs at hnode with hkey
      · exact Option.some.inj hnode ▸ hmsg msg rfl
      · exact hs key node hnode

end Steps

/-- With half a configuration to each core, the only node is sent empty batches. -/
theorem not_progresses_half :
    ∃ d, Run (Dispatcher.step · (1 / 2)) (fun _ _ => True)
        (start (sampleRequest 1) (networkOf sampleNode))
        [.beginPass, .lookAtNode, .endPass, .finish 0 ⟨[], []⟩,
          .beginPass, .lookAtNode, .endPass] d ∧
      1 ≤ sampleNode.cores ∧ d.batches.map (fun batch => batch.request.configSpace) = [[], []] ∧
      d.request.configSpace = (sampleRequest 1).configSpace ∧
      ¬ d.batches.length ≤ (sampleRequest 1).configSpace.length := by
  let actions : List Action := [.beginPass, .lookAtNode, .endPass, .finish 0 ⟨[], []⟩,
    .beginPass, .lookAtNode, .endPass]
  let d := (Run.execute (Dispatcher.step · (1 / 2)) (fun _ _ => True)
    (start (sampleRequest 1) (networkOf sampleNode)) actions).get (by decide +kernel)
  exact ⟨d, Run.of_execute (Option.some_get _).symm, by decide +kernel, by decide +kernel,
    by decide +kernel, by decide +kernel⟩

end BluesTrading.DispatchProgress
