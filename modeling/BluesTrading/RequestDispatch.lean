import BluesTrading.Foundations.OrderedMap
import BluesTrading.Foundations.Runs
import BluesTrading.SourceText

/-!
`HandleRequestNetwrok`: a request is cut into batches that are sent to the nodes of
the network.  The loop looks at one node after the other and sends a batch to the
most powerful one that is not working, while batches are finished and the nodes
report their status.
-/

namespace BluesTrading.RequestDispatch

open BluesTrading.Foundations
open BluesTrading.SourceText

/-! ### Messages -/

structure StrategyConfig where
  props : List (Str × Str)
  deriving DecidableEq

structure DataSrc where
  instrument : List Str
  startDate : ℕ
  endDate : ℕ
  datasrcType : ℕ
  datasrcInfo : List Str
  deriving DecidableEq

structure TestRequest where
  dllFile : Str
  configSpace : List StrategyConfig
  datasrc : List DataSrc
  deriving DecidableEq

structure TestResult where
  headline : Str
  resultitem : List Str
  deriving DecidableEq

structure NodeStatus where
  address : Str
  port : Str
  cores : ℕ
  usage : ℚ
  deriving DecidableEq

/-! ### Splitting and merging -/

/-- The loop of `splitRequest`: the last configuration is moved `num` times. -/
def moveLast : ℕ → List StrategyConfig × List StrategyConfig →
    List StrategyConfig × List StrategyConfig
  | 0, spaces => spaces
  | num + 1, (request, ret) =>
      match request.getLast? with
      | none => (request, ret)
      | some config => moveLast num (request.dropLast, ret ++ [config])

/-- The split-off request and what is left. -/
def splitRequest (request : TestRequest) (num : ℕ) : TestRequest × TestRequest :=
  if num ≥ request.configSpace.length then (request, { request with configSpace := [] })
  else
    let (left, split) := moveLast num (request.configSpace, [])
    ({ request with configSpace := split }, { request with configSpace := left })

def mergerResult (left right : TestResult) : TestResult :=
  ⟨right.headline, left.resultitem ++ right.resultitem⟩

/-- `TestFixture::getResult`, given what each strategy has logged. -/
def getResult (results : List (Str × List Str)) : Str × List Str :=
  results.foldl (fun ret each => (each.1, ret.2 ++ each.2)) ([], [])

/-- `HandleTestRequest`, given what a strategy logs when it is run with a configuration. -/
def handleTestRequest (runStrategy : Str → List DataSrc → StrategyConfig → Str × List Str)
    (request : TestRequest) : TestResult :=
  let allResult := getResult (request.configSpace.map (runStrategy request.dllFile request.datasrc))
  ⟨allResult.1, allResult.2⟩

theorem moveLast_spec (num : ℕ) (request ret : List StrategyConfig) :
    let (left, split) := moveLast num (request, ret)
    (split ++ left).Perm (ret ++ request) ∧ split.length ≤ ret.length + num := by
  induction num generalizing request ret with
  | zero => exact ⟨List.Perm.refl _, le_rfl⟩
  | succ num ih =>
      rw [moveLast]
      cases hlast : request.getLast? with
      | none => exact ⟨List.Perm.refl _, by omega⟩
      | some config =>
          obtain ⟨hperm, hlength⟩ := ih request.dropLast (ret ++ [config])
          refine ⟨hperm.trans ?_, by simpa [Nat.add_assoc, Nat.add_comm num] using hlength⟩
          have hrequest : request.dropLast ++ [config] = request :=
            List.dropLast_append_getLast? config hlast
          rw [List.append_assoc]
          refine List.Perm.append_left ret ?_
          conv_rhs => rw [← hrequest]
          exact (List.perm_append_singleton config request.dropLast).symm

theorem splitRequest_spec (request : TestRequest) (num : ℕ) :
    let (ret, left) := splitRequest request num
    (ret.configSpace ++ left.configSpace).Perm request.configSpace ∧
      ret.configSpace.length ≤ num ∧
      ret.dllFile = request.dllFile ∧ ret.datasrc = request.datasrc ∧
      left.dllFile = request.dllFile ∧ left.datasrc = request.datasrc := by
  rw [splitRequest]
  split_ifs with hnum
  · exact ⟨by simp, hnum, rfl, rfl, rfl, rfl⟩
  · have hmove := moveLast_spec num request.configSpace []
    exact ⟨hmove.1, by simpa using hmove.2, rfl, rfl, rfl, rfl⟩

theorem resultitem_handleTestRequest
    (runStrategy : Str → List DataSrc → StrategyConfig → Str × List Str)
    (request : TestRequest) :
    (handleTestRequest runStrategy request).resultitem =
      request.configSpace.flatMap fun config =>
        (runStrategy request.dllFile request.datasrc config).2 := by
  have hfold : ∀ (results : List (Str × List Str)) (ret : Str × List Str),
      (results.foldl (fun ret each => (each.1, ret.2 ++ each.2)) ret).2 =
        ret.2 ++ results.flatMap Prod.snd := by
    intro results
    induction results with
    | nil => simp
    | cons each results ih => simp [ih]
  simp [handleTestRequest, getResult, hfold, List.flatMap_map]

theorem resultitem_foldl_mergerResult (results : List TestResult) (result : TestResult) :
    (results.foldl mergerResult result).resultitem =
      result.resultitem ++ results.flatMap TestResult.resultitem := by
  induction results generalizing result with
  | nil => simp
  | cons each results ih => simp [ih, mergerResult]

/-! ### The loop, the workers and the network -/

inductive Work
  | running
  | finished (result : TestResult)
  | failed
  deriving DecidableEq

def Work.result? : Work → Option TestResult
  | .finished result => some result
  | _ => none

structure Batch where
  node : Str
  /-- The number of configurations that were asked for. -/
  asked : ℕ
  request : TestRequest
  work : Work
  deriving DecidableEq

/-- Where a pass over the nodes is: the node that was looked at last, and the greatest power
index so far. -/
structure Scan where
  last : Option Str
  powerIndex : ℚ
  deriving DecidableEq

/-- The variables of `HandleRequestNetwrok`.  A node is its key in `status`, from which
nothing is ever removed. -/
structure Dispatcher where
  request : TestRequest
  status : OrderedMap Str NodeStatus
  workingNode : Finset Str
  nextNode : Option Str
  scan : Option Scan
  batches : List Batch
  deriving DecidableEq

inductive Action
  | beginPass
  | lookAtNode
  | endPass
  | finish (i : ℕ) (result : TestResult)
  | fail (i : ℕ)
  | recvStatus (msg : NodeStatus)

def start (request : TestRequest) (status : OrderedMap Str NodeStatus) : Dispatcher :=
  ⟨request, status, ∅, none, none, []⟩

def powerIndex (node : NodeStatus) : ℚ := node.cores * node.usage / 100

def requestCores (node : NodeStatus) (taskFactor : ℚ) : ℕ :=
  ⌊node.cores * taskFactor⌋.toNat % 2 ^ 32

namespace Dispatcher

variable (d : Dispatcher)

/-- The node that a loop over `status` comes to after another one, or first. -/
def following (last : Option Str) : Option Str :=
  d.status.keys.find? fun key => last.all fun before => decide (before < key)

def beginPass : Option Dispatcher :=
  if d.scan = none ∧ d.request.configSpace ≠ [] then some { d with scan := some ⟨none, 0⟩ }
  else none

def lookAtNode : Option Dispatcher := do
  let scan ← d.scan
  let key ← d.following scan.last
  let node ← d.status.find? key
  if key ∈ d.workingNode then some { d with scan := some { scan with last := some key } }
  else if powerIndex node > scan.powerIndex then
    some { d with nextNode := some key, scan := some ⟨some key, powerIndex node⟩ }
  else some { d with scan := some { scan with last := some key } }

def dispatch (taskFactor : ℚ) (key : Str) (node : NodeStatus) : Dispatcher :=
  let asked := requestCores node taskFactor
  let (newrequest, left) := splitRequest d.request asked
  { d with
    request := left
    workingNode := insert key d.workingNode
    batches := d.batches ++ [⟨key, asked, newrequest, .running⟩]
    scan := none }

def endPass (taskFactor : ℚ) : Option Dispatcher := do
  let scan ← d.scan
  match d.following scan.last, d.nextNode with
  | some _, _ => none
  | none, none => some { d with scan := none }
  | none, some key =>
      let node ← d.status.find? key
      some (d.dispatch taskFactor key node)

def setWork (i : ℕ) (batch : Batch) (work : Work) : Dispatcher :=
  { d with batches := d.batches.set i { batch with work := work } }

def finish (i : ℕ) (result : TestResult) : Option Dispatcher := do
  let batch ← d.batches[i]?
  if batch.work = .running then
    some { d.setWork i batch (.finished result) with
      workingNode := d.workingNode.erase batch.node }
  else none

/-- An exception leaves `asyncwork` before the node is erased. -/
def fail (i : ℕ) : Option Dispatcher := do
  let batch ← d.batches[i]?
  if batch.work = .running then some (d.setWork i batch .failed) else none

def recvStatus (msg : NodeStatus) : Dispatcher :=
  { d with status := d.status.insert msg.address msg }

def step (taskFactor : ℚ) : Action → Option Dispatcher
  | .beginPass => d.beginPass
  | .lookAtNode => d.lookAtNode
  | .endPass => d.endPass taskFactor
  | .finish i result => d.finish i result
  | .fail i => d.fail i
  | .recvStatus msg => some (d.recvStatus msg)

def Ended : Prop := d.scan = none ∧ d.request.configSpace = []

/-- The result of the request; there is none while a batch is running, or if one has failed. -/
def result : Option TestResult :=
  (d.batches.mapM fun batch : Batch => batch.work.result?).map fun results =>
    results.foldl mergerResult ⟨[], []⟩

/-- What a step can do. -/
inductive Stepped (taskFactor : ℚ) (d : Dispatcher) : Action → Dispatcher → Prop
  | beginPass : d.scan = none → Stepped taskFactor d .beginPass { d with scan := some ⟨none, 0⟩ }
  | pass (scan : Scan) (key : Str) : d.scan = some scan →
      Stepped taskFactor d .lookAtNode { d with scan := some { scan with last := some key } }
  | choose (scan : Scan) (key : Str) (node : NodeStatus) : d.scan = some scan →
      key ∉ d.workingNode → scan.powerIndex < powerIndex node →
      Stepped taskFactor d .lookAtNode
        { d with nextNode := some key, scan := some ⟨some key, powerIndex node⟩ }
  | noNode (scan : Scan) : d.scan = some scan → d.nextNode = none →
      Stepped taskFactor d .endPass { d with scan := none }
  | dispatch (scan : Scan) (key : Str) (node : NodeStatus) : d.scan = some scan →
      d.nextNode = some key → Stepped taskFactor d .endPass (d.dispatch taskFactor key node)
  | finish (i : ℕ) (batch : Batch) (result : TestResult) : d.batches[i]? = some batch →
      batch.work = .running → Stepped taskFactor d (.finish i result)
        { d.setWork i batch (.finished result) with
          workingNode := d.workingNode.erase batch.node }
  | fail (i : ℕ) (batch : Batch) : d.batches[i]? = some batch → batch.work = .running →
      Stepped taskFactor d (.fail i) (d.setWork i batch .failed)
  | recvStatus (msg : NodeStatus) : Stepped taskFactor d (.recvStatus msg) (d.recvStatus msg)

variable {d}

theorem stepped_of_step {d' : Dispatcher} {taskFactor : ℚ} {a : Action}
    (h : d.step taskFactor a = some d') : Stepped taskFactor d a d' := by
  cases a with
  | beginPass =>
      simp only [step, Dispatcher.beginPass] at h
      split_ifs at h with hidle
      exact Option.some.inj h ▸ .beginPass hidle.1
  | lookAtNode =>
      obtain ⟨scan, hscan, h⟩ := Option.bind_eq_some_iff.mp h
      obtain ⟨key, -, h⟩ := Option.bind_eq_some_iff.mp h
      obtain ⟨node, -, h⟩ := Option.bind_eq_some_iff.mp h
      split_ifs at h with hworking hpower
      · exact Option.some.inj h ▸ .pass scan key hscan
      · exact Option.some.inj h ▸ .choose scan key node hscan hworking hpower
      · exact Option.some.inj h ▸ .pass scan key hscan
  | endPass =>
      obtain ⟨scan, hscan, h⟩ := Option.bind_eq_some_iff.mp h
      split at h
      next => cases h
      next hfollowing hnext => exact Option.some.inj h ▸ .noNode scan hscan hnext
      next key hfollowing hnext =>
        obtain ⟨node, -, h⟩ := Option.bind_eq_some_iff.mp h
        exact Option.some.inj h ▸ .dispatch scan key node hscan hnext
  | finish i result =>
      obtain ⟨batch, hbatch, h⟩ := Option.bind_eq_some_iff.mp h
      split_ifs at h with hrunning
      exact Option.some.inj h ▸ .finish i batch result hbatch hrunning
  | fail i =>
      obtain ⟨batch, hbatch, h⟩ := Option.bind_eq_some_iff.mp h
      split_ifs at h with hrunning
      exact Option.some.inj h ▸ .fail i batch hbatch hrunning
  | recvStatus msg => exact Option.some.inj h ▸ .recvStatus msg

end Dispatcher

/-! ### The batches are the request -/

section Partition

variable {d d' : Dispatcher} {request : TestRequest} {taskFactor : ℚ} {a : Action}

def sentConfigs (batches : List Batch) : List StrategyConfig :=
  batches.flatMap fun batch => batch.request.configSpace

/-- No configuration is lost or sent twice, and each batch is a part of the request. -/
structure Partitioned (request : TestRequest) (d : Dispatcher) : Prop where
  configs : (sentConfigs d.batches ++ d.request.configSpace).Perm request.configSpace
  left : d.request.dllFile = request.dllFile ∧ d.request.datasrc = request.datasrc
  batch : ∀ batch ∈ d.batches, batch.request.configSpace.length ≤ batch.asked ∧
    batch.request.dllFile = request.dllFile ∧ batch.request.datasrc = request.datasrc

theorem map_request_setWork {i : ℕ} {batch : Batch} (hbatch : d.batches[i]? = some batch)
    (work : Work) :
    (d.setWork i batch work).batches.map (fun each => (each.asked, each.request)) =
      d.batches.map fun each => (each.asked, each.request) := by
  obtain ⟨hi, hget⟩ := List.getElem?_eq_some_iff.mp hbatch
  rw [Dispatcher.setWork, List.map_set]
  refine List.ext_getElem (by simp) fun j hj hj' => ?_
  rw [List.getElem_set]
  split_ifs with hij
  · subst hij
    simp [hget]
  · rfl

theorem Partitioned.of_batches (h : Partitioned request d) (hrequest : d'.request = d.request)
    (hbatches : d'.batches.map (fun each => (each.asked, each.request)) =
      d.batches.map fun each => (each.asked, each.request)) : Partitioned request d' where
  configs := by
    have hsent : ∀ batches, sentConfigs batches =
        (batches.map fun each : Batch => (each.asked, each.request)).flatMap
          fun each => each.2.configSpace := fun batches => by
      simp [sentConfigs, List.flatMap_map]
    rw [hsent, hbatches, ← hsent, hrequest]
    exact h.configs
  left := hrequest ▸ h.left
  batch := by
    intro batch hbatch
    have hmem : (batch.asked, batch.request) ∈
        d.batches.map fun each => (each.asked, each.request) :=
      hbatches ▸ List.mem_map_of_mem hbatch
    obtain ⟨old, hold, heq⟩ := List.mem_map.mp hmem
    obtain ⟨hasked, hrequest⟩ := Prod.mk.inj heq
    rw [← hasked, ← hrequest]
    exact h.batch old hold

theorem Partitioned.step (h : Partitioned request d)
    (hstep : d.step taskFactor a = some d') : Partitioned request d' := by
  cases Dispatcher.stepped_of_step hstep with
  | beginPass hscan => exact h.of_batches rfl rfl
  | pass scan key hscan => exact h.of_batches rfl rfl
  | choose scan key node hscan hworking hpower => exact h.of_batches rfl rfl
  | noNode scan hscan hnext => exact h.of_batches rfl rfl
  | dispatch scan key node hscan hnext =>
      obtain ⟨hperm, hlength, hdll, hsrc, hdll', hsrc'⟩ :=
        splitRequest_spec d.request (requestCores node taskFactor)
      refine ⟨?_, ⟨hdll'.trans h.left.1, hsrc'.trans h.left.2⟩, fun batch hbatch => ?_⟩
      · refine List.Perm.trans ?_ h.configs
        simp only [Dispatcher.dispatch, sentConfigs, List.flatMap_append, List.flatMap_cons,
          List.flatMap_nil, List.append_nil, List.append_assoc]
        exact List.Perm.append_left _ hperm
      · rcases List.mem_append.mp hbatch with hbatch | hbatch
        · exact h.batch batch hbatch
        · obtain rfl := List.mem_singleton.mp hbatch
          exact ⟨hlength, hdll.trans h.left.1, hsrc.trans h.left.2⟩
  | finish i batch result hbatch hrunning =>
      exact h.of_batches rfl (map_request_setWork hbatch (.finished result))
  | fail i batch hbatch hrunning => exact h.of_batches rfl (map_request_setWork hbatch .failed)
  | recvStatus msg => exact h.of_batches rfl rfl

theorem partitioned_start (request : TestRequest) (status : OrderedMap Str NodeStatus) :
    Partitioned request (start request status) :=
  ⟨List.Perm.refl _, ⟨rfl, rfl⟩, fun _ hbatch => by cases hbatch⟩

theorem partitioned_of_run {status : OrderedMap Str NodeStatus} {as : List Action}
    (hrun : Run (Dispatcher.step · taskFactor) (fun _ _ => True) (start request status) as d) :
    Partitioned request d :=
  hrun.invariant (fun _ _ _ _ hstep h => h.step hstep) (partitioned_start request status)

theorem perm_of_mapM_result {batches : List Batch} {results : List TestResult}
    {rows : StrategyConfig → List Str}
    (hresults : batches.mapM (fun batch : Batch => batch.work.result?) = some results)
    (hrows : ∀ batch ∈ batches, ∀ result, batch.work = .finished result →
      result.resultitem.Perm (batch.request.configSpace.flatMap rows)) :
    (results.flatMap TestResult.resultitem).Perm ((sentConfigs batches).flatMap rows) := by
  induction batches generalizing results with
  | nil =>
      obtain rfl := Option.some.inj hresults
      exact List.Perm.refl _
  | cons batch batches ih =>
      obtain ⟨hfirst, hrows⟩ := List.forall_mem_cons.mp hrows
      rw [List.mapM_cons] at hresults
      obtain ⟨result, hresult, hresults⟩ := Option.bind_eq_some_iff.mp hresults
      obtain ⟨rest, hrest, heq⟩ := Option.bind_eq_some_iff.mp hresults
      obtain rfl := Option.some.inj heq
      have hfinished : batch.work = .finished result := by
        cases hwork : batch.work <;> rw [hwork] at hresult
        · cases hresult
        · exact congrArg _ (Option.some.inj hresult)
        · cases hresult
      simp only [sentConfigs, List.flatMap_cons, List.flatMap_append]
      exact (hfirst result hfinished).append (ih hrest hrows)

/-- However the loop ends, the batches are the request, none has more configurations than it
was to have, and if the nodes do their work the merged result has the rows of a single run. -/
theorem batches_of_ended {status : OrderedMap Str NodeStatus} {as : List Action}
    (hrun : Run (Dispatcher.step · taskFactor) (fun _ _ => True) (start request status) as d)
    (hended : d.Ended) :
    (sentConfigs d.batches).Perm request.configSpace ∧
      (∀ batch ∈ d.batches, batch.request.configSpace.length ≤ batch.asked ∧
        batch.request.dllFile = request.dllFile ∧ batch.request.datasrc = request.datasrc) ∧
      ∀ runStrategy result, d.result = some result →
        (∀ batch ∈ d.batches, ∀ own, batch.work = .finished own →
          own.resultitem.Perm (handleTestRequest runStrategy batch.request).resultitem) →
        result.resultitem.Perm (handleTestRequest runStrategy request).resultitem := by
  have hpart := partitioned_of_run hrun
  have hconfigs : (sentConfigs d.batches).Perm request.configSpace := by
    simpa [hended.2] using hpart.configs
  refine ⟨hconfigs, hpart.batch, fun runStrategy result hresult hown => ?_⟩
  obtain ⟨results, hresults, rfl⟩ := Option.map_eq_some_iff.mp hresult
  let rows : StrategyConfig → List Str := fun config =>
    (runStrategy request.dllFile request.datasrc config).2
  have hrows : ∀ batch ∈ d.batches, ∀ own, batch.work = .finished own →
      own.resultitem.Perm (batch.request.configSpace.flatMap rows) := by
    intro batch hbatch own hfinished
    obtain ⟨-, hdll, hsrc⟩ := hpart.batch batch hbatch
    have hperm := hown batch hbatch own hfinished
    rwa [resultitem_handleTestRequest, hdll, hsrc] at hperm
  rw [resultitem_foldl_mergerResult, resultitem_handleTestRequest, List.nil_append]
  exact (perm_of_mapM_result hresults hrows).trans (hconfigs.flatMap_right rows)

end Partition

def sampleRequest (configs : ℕ) : TestRequest :=
  ⟨[], (List.range configs).map fun i => ⟨[(['k'], digits i)]⟩, []⟩

def sampleNode : NodeStatus := ⟨['a'], ['1'], 1, 100⟩

def networkOf (node : NodeStatus) : OrderedMap Str NodeStatus :=
  OrderedMap.empty.insert node.address node

/-- A strategy that logs its first property. -/
def logFirst (_dll : Str) (_datasrc : List DataSrc) (config : StrategyConfig) :
    Str × List Str :=
  ([], config.props.map Prod.snd)

theorem batches_of_ended_twoPasses :
    ∃ d result, Run (Dispatcher.step · 1) (fun _ _ => True)
        (start (sampleRequest 2) (networkOf sampleNode))
        [.beginPass, .lookAtNode, .endPass, .finish 0 ⟨[], [['1']]⟩,
          .beginPass, .lookAtNode, .endPass, .finish 1 ⟨[], [['0']]⟩] d ∧
      d.result = some result ∧ result.resultitem = [['1'], ['0']] ∧
      result.resultitem.Perm (handleTestRequest logFirst (sampleRequest 2)).resultitem := by
  let actions : List Action := [.beginPass, .lookAtNode, .endPass, .finish 0 ⟨[], [['1']]⟩,
    .beginPass, .lookAtNode, .endPass, .finish 1 ⟨[], [['0']]⟩]
  let d := (Run.execute (Dispatcher.step · 1) (fun _ _ => True)
    (start (sampleRequest 2) (networkOf sampleNode)) actions).get (by decide +kernel)
  have hrun : Run (Dispatcher.step · 1) (fun _ _ => True)
      (start (sampleRequest 2) (networkOf sampleNode)) actions d :=
    Run.of_execute (Option.some_get _).symm
  have hbatches : d.batches = [⟨['a'], 1, ⟨[], [⟨[(['k'], ['1'])]⟩], []⟩, .finished ⟨[], [['1']]⟩⟩,
      ⟨['a'], 1, ⟨[], [⟨[(['k'], ['0'])]⟩], []⟩, .finished ⟨[], [['0']]⟩⟩] := by decide +kernel
  have hresult : d.result = some ⟨[], [['1'], ['0']]⟩ := by decide +kernel
  have hended : d.Ended := ⟨by decide +kernel, by decide +kernel⟩
  refine ⟨d, _, hrun, hresult, rfl, ?_⟩
  refine (batches_of_ended hrun hended).2.2 logFirst _ hresult fun batch hbatch own hown => ?_
  rw [hbatches] at hbatch
  simp only [List.mem_cons, List.not_mem_nil, or_false] at hbatch
  rcases hbatch with rfl | rfl
  all_goals
    obtain rfl := Work.finished.inj hown
    exact List.Perm.refl _

end BluesTrading.RequestDispatch
