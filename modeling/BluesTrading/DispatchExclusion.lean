import BluesTrading.RequestDispatch

namespace BluesTrading.DispatchExclusion

open BluesTrading.Foundations
open BluesTrading.SourceText
open BluesTrading.RequestDispatch

/-- A batch that has been sent to a node and whose result has not come back. -/
def IsUnfinished (d : Dispatcher) (i : ℕ) (node : Str) : Prop :=
  ∃ batch, d.batches[i]? = some batch ∧ batch.node = node ∧ batch.work.result? = none

def Exclusive (d : Dispatcher) (a : Action) : Prop :=
  a = .endPass → ∀ node, d.nextNode = some node → ∀ i, ¬ IsUnfinished d i node

/-- A pass that has found no node does not end with a working node as its candidate. -/
def FindsFreeNode (d : Dispatcher) (a : Action) : Prop :=
  a = .endPass → ∀ scan node, d.scan = some scan → scan.powerIndex = 0 →
    d.nextNode = some node → node ∉ d.workingNode

/-- Each unfinished batch has its own node, which is working; a candidate that has been found
in the current pass is free. -/
structure OneBatchEach (d : Dispatcher) : Prop where
  working : ∀ node, node ∈ d.workingNode ↔ ∃ i, IsUnfinished d i node
  single : ∀ i j node, IsUnfinished d i node → IsUnfinished d j node → i = j
  scan : ∀ scan, d.scan = some scan → 0 ≤ scan.powerIndex ∧
    (0 < scan.powerIndex → ∃ node, d.nextNode = some node ∧ node ∉ d.workingNode)

section Steps

variable {d d' : Dispatcher} {taskFactor : ℚ} {a : Action} {i : ℕ} {batch : Batch}

theorem IsUnfinished.node_eq {node : Str} (h : IsUnfinished d i node)
    (hbatch : d.batches[i]? = some batch) : node = batch.node := by
  obtain ⟨found, hfound, hnode, -⟩ := h
  rw [← hnode, Option.some.inj (hfound.symm.trans hbatch)]

theorem isUnfinished_setWork (hbatch : d.batches[i]? = some batch)
    (hrunning : batch.work = .running) (work : Work) (j : ℕ) (node : Str) :
    IsUnfinished (d.setWork i batch work) j node ↔
      IsUnfinished d j node ∧ (j = i → work.result? = none) := by
  have hi : i < d.batches.length := (List.getElem?_eq_some_iff.mp hbatch).1
  simp only [IsUnfinished, Dispatcher.setWork, List.getElem?_set, hi, if_true]
  by_cases hij : i = j
  · subst hij
    simp [hbatch, hrunning, Work.result?]
  · simp [hij, Ne.symm hij]

theorem isUnfinished_dispatch (key : Str) (node : NodeStatus) (j : ℕ) (other : Str) :
    IsUnfinished (d.dispatch taskFactor key node) j other ↔
      IsUnfinished d j other ∨ j = d.batches.length ∧ other = key := by
  simp only [IsUnfinished, Dispatcher.dispatch, List.getElem?_append]
  split_ifs with hj
  · simp [hj.ne]
  · have hold : d.batches[j]? = none := List.getElem?_eq_none (not_lt.mp hj)
    rcases Nat.lt_or_eq_of_le (not_lt.mp hj) with hlt | heq
    · have hnew : ([⟨key, requestCores node taskFactor, (splitRequest d.request
          (requestCores node taskFactor)).1, .running⟩] : List Batch)[j - d.batches.length]? =
          none := List.getElem?_eq_none (by simpa using (by omega : 1 ≤ j - d.batches.length))
      simp [hold, hlt.ne', hnew]
    · subst heq
      simp [Work.result?, eq_comm]

theorem OneBatchEach.of_eq (h : OneBatchEach d) (hworking : d'.workingNode = d.workingNode)
    (hbatches : d'.batches = d.batches)
    (hscan : ∀ scan, d'.scan = some scan → 0 ≤ scan.powerIndex ∧
      (0 < scan.powerIndex → ∃ node, d'.nextNode = some node ∧ node ∉ d.workingNode)) :
    OneBatchEach d' where
  working := by simpa only [hworking, IsUnfinished, hbatches] using h.working
  single := by simpa only [IsUnfinished, hbatches] using h.single
  scan := by simpa only [hworking] using hscan

theorem OneBatchEach.dispatch (h : OneBatchEach d) {key : Str} (hfree : key ∉ d.workingNode)
    (node : NodeStatus) : OneBatchEach (d.dispatch taskFactor key node) := by
  have hnone : ∀ i, ¬ IsUnfinished d i key := fun i hi => hfree ((h.working key).mpr ⟨i, hi⟩)
  refine ⟨fun other => ?_, fun i j other hi hj => ?_, fun scan heq => by cases heq⟩
  · have hworking : (d.dispatch taskFactor key node).workingNode = insert key d.workingNode := rfl
    simp only [hworking, isUnfinished_dispatch, Finset.mem_insert, h.working other]
    constructor
    · rintro (rfl | ⟨i, hi⟩)
      · exact ⟨_, .inr ⟨rfl, rfl⟩⟩
      · exact ⟨i, .inl hi⟩
    · rintro ⟨i, hi | ⟨-, rfl⟩⟩
      · exact .inr ⟨i, hi⟩
      · exact .inl rfl
  · rw [isUnfinished_dispatch] at hi hj
    rcases hi with hi | ⟨hi, hother⟩ <;> rcases hj with hj | ⟨hj, hother'⟩
    · exact h.single i j other hi hj
    · exact absurd (hother' ▸ hi) (hnone i)
    · exact absurd (hother ▸ hj) (hnone j)
    · exact hi.trans hj.symm

theorem OneBatchEach.finish (h : OneBatchEach d) (hbatch : d.batches[i]? = some batch)
    (hrunning : batch.work = .running) (result : TestResult) :
    OneBatchEach { d.setWork i batch (.finished result) with
      workingNode := d.workingNode.erase batch.node } := by
  have hunfinished : IsUnfinished d i batch.node :=
    ⟨batch, hbatch, rfl, by rw [hrunning]; rfl⟩
  have hset : ∀ j node, IsUnfinished (d.setWork i batch (.finished result)) j node ↔
      IsUnfinished d j node ∧ j ≠ i := by
    intro j node
    rw [isUnfinished_setWork hbatch hrunning]
    simp [Work.result?]
  refine ⟨fun node => ?_, fun j k node hj hk => ?_, fun scan hscan => ?_⟩
  · change node ∈ d.workingNode.erase batch.node ↔
      ∃ j, IsUnfinished (d.setWork i batch (.finished result)) j node
    simp only [Finset.mem_erase, h.working node, hset]
    constructor
    · rintro ⟨hne, j, hj⟩
      refine ⟨j, hj, ?_⟩
      rintro rfl
      exact hne (hj.node_eq hbatch)
    · rintro ⟨j, hj, hji⟩
      refine ⟨?_, j, hj⟩
      rintro rfl
      exact hji (h.single j i _ hj hunfinished)
  · exact h.single j k node ((hset j node).mp hj).1 ((hset k node).mp hk).1
  · refine (h.scan scan hscan).imp_right fun hfound hpos => ?_
    obtain ⟨node, hnext, hfree⟩ := hfound hpos
    exact ⟨node, hnext, fun hmem => hfree (Finset.mem_of_mem_erase hmem)⟩

theorem OneBatchEach.fail (h : OneBatchEach d) (hbatch : d.batches[i]? = some batch)
    (hrunning : batch.work = .running) : OneBatchEach (d.setWork i batch .failed) := by
  have hset : ∀ j node, IsUnfinished (d.setWork i batch .failed) j node ↔
      IsUnfinished d j node := by
    intro j node
    rw [isUnfinished_setWork hbatch hrunning]
    simp [Work.result?]
  refine ⟨fun node => ?_, by simpa only [hset] using h.single, h.scan⟩
  exact (h.working node).trans (exists_congr fun j => (hset j node).symm)

theorem OneBatchEach.free_of_findsFreeNode (h : OneBatchEach d) (hfinds : FindsFreeNode d .endPass)
    {scan : Scan} {key : Str} (hscan : d.scan = some scan) (hnext : d.nextNode = some key) :
    key ∉ d.workingNode := by
  obtain ⟨hnonneg, hfound⟩ := h.scan scan hscan
  rcases hnonneg.eq_or_lt with hzero | hpos
  · exact hfinds rfl scan key hscan hzero.symm hnext
  · obtain ⟨found, heq, hfound⟩ := hfound hpos
    exact Option.some.inj (heq.symm.trans hnext) ▸ hfound

theorem OneBatchEach.step (h : OneBatchEach d) (hfinds : FindsFreeNode d a)
    (hstep : d.step taskFactor a = some d') : OneBatchEach d' := by
  cases Dispatcher.stepped_of_step hstep with
  | beginPass hscan =>
      refine h.of_eq rfl rfl fun scan heq => ?_
      obtain rfl := Option.some.inj heq
      exact ⟨le_rfl, fun hlt => absurd hlt (lt_irrefl 0)⟩
  | pass scan key hscan =>
      refine h.of_eq rfl rfl fun scan' heq => ?_
      obtain rfl := Option.some.inj heq
      exact h.scan scan hscan
  | choose scan key node hscan hworking hpower =>
      refine h.of_eq rfl rfl fun scan' heq => ?_
      obtain rfl := Option.some.inj heq
      exact ⟨((h.scan scan hscan).1.trans_lt hpower).le, fun _ => ⟨key, rfl, hworking⟩⟩
  | noNode scan hscan hnext => exact h.of_eq rfl rfl fun scan heq => by cases heq
  | dispatch scan key node hscan hnext =>
      exact h.dispatch (h.free_of_findsFreeNode hfinds hscan hnext) node
  | finish i batch result hbatch hrunning => exact h.finish hbatch hrunning result
  | fail i batch hbatch hrunning => exact h.fail hbatch hrunning
  | recvStatus msg => exact h.of_eq rfl rfl h.scan

theorem exclusive_iff_findsFreeNode (h : OneBatchEach d)
    (hstep : d.step taskFactor a = some d') : FindsFreeNode d a ↔ Exclusive d a := by
  constructor
  · rintro hfinds rfl node hnext i hi
    obtain ⟨scan, hscan, -⟩ := Option.bind_eq_some_iff.mp hstep
    exact h.free_of_findsFreeNode hfinds hscan hnext ((h.working node).mpr ⟨i, hi⟩)
  · intro hexclusive ha scan node hscan hzero hnext hworking
    obtain ⟨i, hi⟩ := (h.working node).mp hworking
    exact hexclusive ha node hnext i hi

theorem oneBatchEach_start (request : TestRequest) (status : OrderedMap Str NodeStatus) :
    OneBatchEach (start request status) where
  working := by
    intro node
    simp [start, IsUnfinished]
  single := by
    rintro i j node ⟨batch, hbatch, -⟩
    cases hbatch
  scan := by
    intro scan hscan
    cases hscan

/-- In a run, batches are sent to nodes without an unfinished one exactly as long as no pass
that has found no free node ends with a working node as its candidate. -/
theorem run_exclusive_iff {request : TestRequest} {status : OrderedMap Str NodeStatus}
    {as : List Action} :
    Run (Dispatcher.step · taskFactor) Exclusive (start request status) as d ↔
      Run (Dispatcher.step · taskFactor) FindsFreeNode (start request status) as d := by
  have hiff : ∀ (s : Dispatcher) a t, OneBatchEach s → s.step taskFactor a = some t →
      (FindsFreeNode s a ↔ Exclusive s a) := fun _ _ _ h hstep =>
    exclusive_iff_findsFreeNode h hstep
  have hstep : ∀ (s : Dispatcher) a t, OneBatchEach s → FindsFreeNode s a →
      s.step taskFactor a = some t → OneBatchEach t := fun _ _ _ h hfinds hstep =>
    h.step hfinds hstep
  exact (Run.iff_of_invariant hiff hstep (oneBatchEach_start request status)).symm

end Steps

/-- With one node, the second pass sends a batch to the node that works on the first one. -/
theorem not_exclusive_secondPass :
    ∃ d d', Run (Dispatcher.step · 1) (fun _ _ => True)
        (start (sampleRequest 3) (networkOf sampleNode))
        [.beginPass, .lookAtNode, .endPass, .beginPass, .lookAtNode] d ∧
      d.step 1 .endPass = some d' ∧ ¬ Exclusive d .endPass ∧
      d'.batches.map (fun batch => (batch.node, batch.request.configSpace.length, batch.work)) =
        [(sampleNode.address, 1, .running), (sampleNode.address, 1, .running)] := by
  let actions : List Action := [.beginPass, .lookAtNode, .endPass, .beginPass, .lookAtNode]
  let d := (Run.execute (Dispatcher.step · 1) (fun _ _ => True)
    (start (sampleRequest 3) (networkOf sampleNode)) actions).get (by decide +kernel)
  let d' := (d.step 1 .endPass).get (by decide +kernel)
  have hnext : d.nextNode = some sampleNode.address := by decide +kernel
  have hbatch : (d.batches[0]?.map fun batch => (batch.node, batch.work.result?)) =
      some (sampleNode.address, none) := by decide +kernel
  refine ⟨d, d', Run.of_execute (Option.some_get _).symm, (Option.some_get _).symm,
    fun h => ?_, by decide +kernel⟩
  obtain ⟨batch, hget, heq⟩ := Option.map_eq_some_iff.mp hbatch
  obtain ⟨hnode, hwork⟩ := Prod.mk.inj heq
  exact h rfl sampleNode.address hnext 0 ⟨batch, hget, hnode, hwork⟩

end BluesTrading.DispatchExclusion
