/-
# The sort sorts

A sort that succeeds lists every node that is not behind a cycle, none of them twice, and each
behind its predecessors, whatever the settings and however the tasks of its three phases interleave.
So it lists all nodes exactly if there is no cycle. Self loops are cycles, and parallel
relationships are counted and taken away one by one.

The number of relationships is a 64-bit word like any other size, and that is the one assumption
about it: with more relationships a counter could wrap round to zero too early.
-/

import GraphAnalytics.Proofs.Graph.Built
import GraphAnalytics.Proofs.Partition.Cover
import GraphAnalytics.Proofs.Schedule.Computation
import GraphAnalytics.Proofs.Schedule.Forking
import GraphAnalytics.Proofs.TopologicalOrder.Traversal

namespace GraphAnalytics.TopologicalOrder

open Progress TraversalPoint

variable {g : Graph}

/-! ### The beginning of the traversal -/

/-- What arrives at a node, source by source. -/
theorem count_flatMap_row (p : Nat → Prop) [DecidablePred p] (node : Nat) :
    (((List.range g.nodeCount).filter (p ·)).flatMap g.row).count node =
      ∑ source ∈ (Finset.range g.nodeCount).filter p, (g.row source).count node := by
  have sources : (Finset.range g.nodeCount).filter p =
      ((List.range g.nodeCount).filter (p ·)).toFinset := by
    ext source
    simp
  rw [sources, List.sum_toFinset _ (List.nodup_range.filter _), List.count_flatMap]
  rfl

theorem pending_start {inDegrees : Cells} {seeds : List Nat}
    (sources : seeds.Perm ((List.range g.nodeCount).filter (inDegrees.value · = 0))) (node : Nat) :
    pending g inDegrees ((traversal g).beginnings seeds) node = g.arrivals node := by
  have claimed : load (owes g node) ((traversal g).beginnings seeds) =
      (seeds.flatMap g.row).count node :=
    load_beginnings _ g.row node (fun _ => rfl) seeds
  have all := count_flatMap_row (g := g) (fun _ => True) node
  simp only [decide_true, List.filter_true, Finset.filter_true] at all
  rw [pending, claimed, (sources.flatMap_right g.row).count_eq, count_flatMap_row, Graph.arrivals,
    all, Nat.add_comm, waiting]
  exact Finset.sum_filter_add_sum_filter_not _ _ _

/-- Counted and gathered, the nodes are ready for the traversal. -/
theorem kahn_start {inDegrees : Cells} {seeds : List Nat}
    (capacity : inDegrees.capacity = g.nodeCount)
    (counted : ∀ node < g.nodeCount, inDegrees.value node = Word.wrapSigned (g.arrivals node : Nat))
    (sources : seeds.Perm ((List.range g.nodeCount).filter (inDegrees.value · = 0)))
    (longestPaths : Bool) (cancelAt : Option CancelPoint) :
    Kahn g [] ⟨inDegrees, .empty g.nodeCount longestPaths, cancelAt⟩
      ((traversal g).beginnings seeds) := by
  have isClaim {body : TraversalPoint} (member : body ∈ (traversal g).beginnings seeds) :
      ∃ node, body = .claim node := by
    obtain ⟨node, -, rfl⟩ := Work.mem_beginnings.mp member
    exact ⟨node, rfl⟩
  constructor
  case degrees =>
    refine ⟨capacity, fun body member => ?_, fun node h => ?_, fun node => ?_⟩
    · obtain ⟨node, rfl⟩ := isClaim member
      trivial
    · rw [pending_start sources]
      exact counted node h
    · exact Nat.le_of_eq (pending_start sources node)
  case slots => rfl
  case bits => rfl
  case size => rfl
  case accounted =>
    intro node
    have claimed : load (claims node) ((traversal g).beginnings seeds) = seeds.count node := by
      rw [load_beginnings _ (fun node => [node]) node (fun other => ?_) seeds]
      · simp
      · show claims node (.claim other) = _
        simp [claims, List.count_singleton]
    rw [claimed, sources.count_eq, List.count_nil, Nat.zero_add]
    have once : ((List.range g.nodeCount).filter (inDegrees.value · = 0)).Nodup :=
      List.nodup_range.filter _
    rw [once.count]
    simp
  case marked =>
    intro node
    have none : load (unmarked node) ((traversal g).beginnings seeds) = 0 := by
      refine load_eq_zero fun body member => ?_
      obtain ⟨node, rfl⟩ := isClaim member
      rfl
    rw [none]
    simp [TopologicalOrder.empty]
  case behind =>
    intro place node source here
    cases here
  case written =>
    intro slot node here
    cases here
  case placing =>
    intro node slot member
    obtain ⟨_, same⟩ := isClaim member
    cases same

/-! ### The end of the traversal -/

namespace Kahn

variable {lineup : List Nat} {store : Traversal}

theorem nodes_eq (kahn : Kahn g lineup store 0) : store.result.nodes = lineup := by
  refine List.ext_getElem? fun slot => ?_
  rw [nodes, kahn.size, List.getElem?_map]
  by_cases inside : slot < lineup.length
  · have here : lineup[slot]? = some lineup[slot] := List.getElem?_eq_getElem inside
    rcases kahn.written slot lineup[slot] here with written | placing
    · rw [List.getElem?_range inside, Option.map_some, written, Int.toNat_natCast, here]
    · exact absurd placing (Multiset.notMem_zero _)
  · rw [List.getElem?_eq_none (by simpa using inside), List.getElem?_eq_none (by omega)]
    rfl

theorem mem_lineup_iff (kahn : Kahn g lineup store 0) (node : Nat) :
    node ∈ lineup ↔ Freed g store.inDegrees node := by
  refine ⟨kahn.freed_of_mem_lineup, fun freed => ?_⟩
  have accounted := kahn.accounted node
  rw [if_pos ⟨freed.1, freed.2⟩, load_zero, Nat.add_zero] at accounted
  exact List.count_pos_iff.mp (by omega)

/-- When no task is left a node has been released exactly if all of its predecessors have. -/
theorem sorts (kahn : Kahn g lineup store 0) (wellFormed : g.WellFormed)
    (fits : g.relationshipCount ≤ Word.top) : g.Sorts lineup where
  nodup := kahn.nodup
  mem_iff_predecessors node := by
    constructor
    · intro member
      have freed := kahn.freed_of_mem_lineup member
      exact ⟨freed.1, fun source edge => kahn.mem_lineup_of_edge wellFormed fits freed edge⟩
    · rintro ⟨inside, predecessors⟩
      refine (kahn.mem_lineup_iff node).mpr ⟨inside, ?_⟩
      refine (kahn.degrees.pending_eq_zero_iff wellFormed fits inside).mp ?_
      rw [pending, load_zero, Nat.add_zero]
      refine Finset.sum_eq_zero fun source waits => List.count_eq_zero.mpr fun edge => ?_
      exact (Finset.mem_filter.mp waits).2 (kahn.freed_of_mem_lineup (predecessors source edge)).2
  behind := kahn.behind

theorem contains_eq (kahn : Kahn g lineup store 0) {node : Nat} (h : node < g.nodeCount) :
    store.result.contains node = .ok (decide (node ∈ lineup)) := by
  have marked := kahn.marked node
  rw [load_zero, Nat.add_zero] at marked
  rw [contains, BitSet.contains_of_lt _ (kahn.bits ▸ h)]
  congr 1
  by_cases member : node ∈ lineup
  · have count := List.count_pos_iff.mpr member
    split at marked
    · next test => rw [test, decide_eq_true member]
    · omega
  · rw [List.count_eq_zero.mpr member] at marked
    split at marked
    · cases marked
    · next test => rw [decide_eq_false member, Bool.eq_false_iff.mpr test]

end Kahn

/-! ### The three phases -/

variable {π : Type} [Sink π]

/-- When counting and gathering have succeeded the nodes are ready for the traversal. -/
theorem kahn_of_phases {executor : Executor} (lawful : executor.Lawful) (wellFormed : g.WellFormed)
    {partitions : List Partition}
    (cover : partitions.flatMap Partition.nodes = List.range g.nodeCount)
    {cancelAt : Option CancelPoint} {counted : Counting} {gathered : Gathering}
    {first second third fourth : Context π}
    (counting : (Phase.run executor (counting g) partitions
      ⟨.replicate g.nodeCount 0, cancelAt⟩).perform first = (.ok counted, second))
    (gathering : (Phase.run executor gathering partitions
      { inDegrees := counted.inDegrees }).perform third = (.ok gathered, fourth))
    (longestPaths : Bool) :
    Kahn g [] ⟨gathered.inDegrees, .empty g.nodeCount longestPaths, counted.cancelAt⟩
      ((traversal g).beginnings gathered.sources.mergeSort) := by
  obtain ⟨capacity, arrivals⟩ :=
    arrivals_of_runs wellFormed cover (Phase.runs_of_run lawful counting)
  obtain ⟨unchanged, sources⟩ := sources_of_runs cover (Phase.runs_of_run lawful gathering)
  refine kahn_start ?_ ?_ ?_ longestPaths counted.cancelAt
  · rw [unchanged]
    exact capacity
  · rw [unchanged]
    exact arrivals
  · rw [unchanged]
    exact (List.mergeSort_perm _ _).trans sources

/-- A sort that succeeds is an undisturbed traversal of nodes with counted relationships. -/
theorem traversal_of_compute {executor : Executor} (lawful : executor.Lawful)
    (wellFormed : g.WellFormed) {settings : SortSettings} {cancelAt : Option CancelPoint}
    {context context' : Context π} {result : TopologicalOrder}
    (ok : (compute executor g settings cancelAt).perform context = (.ok result, context')) :
    ∃ (start store : Traversal) (seeds : List Nat),
      Kahn g [] start ((traversal g).beginnings seeds) ∧
      start.result = .empty g.nodeCount settings.longestPaths ∧
      (traversal g).Runs true (start, (traversal g).beginnings seeds) (store, 0) ∧
      store.result = result := by
  unfold compute at ok
  obtain ⟨_, _, -, ok⟩ := Run.perform_bind_ok.mp ok
  obtain ⟨_, _, -, ok⟩ := Run.perform_bind_ok.mp ok
  obtain ⟨_, _, -, ok⟩ := Run.perform_bind_ok.mp ok
  obtain ⟨partitions, _, cut, ok⟩ := Run.perform_bind_ok.mp ok
  obtain ⟨_, _, -, ok⟩ := Run.perform_bind_ok.mp ok
  obtain ⟨counted, _, counting, ok⟩ := Run.perform_bind_ok.mp ok
  obtain ⟨_, _, -, ok⟩ := Run.perform_bind_ok.mp ok
  obtain ⟨_, _, -, ok⟩ := Run.perform_bind_ok.mp ok
  obtain ⟨gathered, _, gathering, ok⟩ := Run.perform_bind_ok.mp ok
  obtain ⟨⟨traversed, stats⟩, _, traversal, ok⟩ := Run.perform_bind_ok.mp ok
  obtain ⟨_, _, -, ok⟩ := Run.perform_bind_ok.mp ok
  obtain ⟨_, _, -, ok⟩ := Run.perform_bind_ok.mp ok
  obtain ⟨_, _, -, ok⟩ := Run.perform_bind_ok.mp ok
  obtain ⟨rfl, -⟩ := Run.perform_pure_ok.mp ok
  have cover := Settings.flatMap_nodes_of_partitions (Run.perform_ofViolation_ok.mp cut).1
  exact ⟨_, traversed, _,
    kahn_of_phases lawful wellFormed cover counting gathering settings.longestPaths, rfl,
    ForkJoin.runs_of_run lawful traversal, rfl⟩

/-- At the end of a sort that succeeds store and lineup belong together, and no task is left. -/
theorem kahn_of_compute {executor : Executor} (lawful : executor.Lawful)
    (wellFormed : g.WellFormed) (fits : g.relationshipCount ≤ Word.top) {settings : SortSettings}
    {cancelAt : Option CancelPoint} {context context' : Context π} {result : TopologicalOrder}
    (ok : (compute executor g settings cancelAt).perform context = (.ok result, context')) :
    ∃ lineup store, Kahn g lineup store 0 ∧ store.result = result := by
  obtain ⟨start, store, seeds, kahn, -, runs, same⟩ := traversal_of_compute lawful wellFormed ok
  have lastly : ∃ lineup, Kahn g lineup store 0 :=
    runs.invariant (fun store bodies => ∃ lineup, Kahn g lineup store bodies)
      (fun _ _ _ _ ⟨_, kahn⟩ goesOn => kahn.step wellFormed fits goesOn) ⟨[], kahn⟩
  obtain ⟨lineup, kahn⟩ := lastly
  exact ⟨lineup, store, kahn, same⟩

/-- A sort that succeeds lists the nodes that are not behind a cycle in topological order. That the
number of relationships fits a word is true of every graph in memory. -/
theorem compute_sorts {executor : Executor} (lawful : executor.Lawful) (built : g.Built)
    (fits : g.relationshipCount ≤ Word.top) {settings : SortSettings}
    {cancelAt : Option CancelPoint} {context context' : Context π} {result : TopologicalOrder}
    (ok : (compute executor g settings cancelAt).perform context = (.ok result, context')) :
    result.nodes.Nodup ∧
    (∀ node, node ∈ result.nodes ↔ node < g.nodeCount ∧ ¬ g.BehindCycle node) ∧
    (∀ place node source : Nat, result.nodes[place]? = some node → g.Edge source node →
      ∃ earlier < place, result.nodes[earlier]? = some source) ∧
    (∀ node < g.nodeCount, result.contains node = .ok (decide (node ∈ result.nodes))) ∧
    result.size = result.nodes.length ∧
    (result.size = g.nodeCount ↔ g.Acyclic) := by
  have wellFormed := built.wellFormed
  obtain ⟨lineup, store, kahn, rfl⟩ := kahn_of_compute lawful wellFormed fits ok
  have sorts := kahn.sorts wellFormed fits
  rw [kahn.nodes_eq, kahn.size]
  exact ⟨sorts.nodup, sorts.mem_iff wellFormed, sorts.behind, fun node h => kahn.contains_eq h, rfl,
    sorts.length_eq_iff wellFormed⟩

theorem exists_compute_sample : ∃ (result : TopologicalOrder) (context : Context Silent),
    (compute (.singleWorker 400) Graph.sample { concurrency := 2, minBatch := 2 } none).perform
      { sink := Silent.silent } = (.ok result, context) ∧ result.nodes = [0, 1, 2] := by
  have sorted : ((compute (.singleWorker 400) Graph.sample { concurrency := 2, minBatch := 2 }
      none).perform ({ sink := .silent } : Context Silent)).1.map nodes = .ok [0, 1, 2] := by
    decide +kernel
  exact Run.exists_of_map_perform sorted

/-- The sort of the sample leaves out the node with the self loop and the node behind it. -/
theorem compute_sorts_sample :
    Graph.sample.relationshipCount ≤ Word.top ∧ ∃ (result : TopologicalOrder)
        (context : Context Silent),
      (compute (.singleWorker 400) Graph.sample { concurrency := 2, minBatch := 2 } none).perform
        { sink := Silent.silent } = (.ok result, context) ∧
      result.nodes = [0, 1, 2] ∧
      (∀ node, node ∈ result.nodes ↔ node < 5 ∧ ¬ Graph.sample.BehindCycle node) ∧
      ¬ Graph.sample.Acyclic := by
  have fits : Graph.sample.relationshipCount ≤ Word.top := by decide
  obtain ⟨result, context, ok, listed⟩ := exists_compute_sample
  obtain ⟨-, exactly, -, -, size, acyclic⟩ :=
    compute_sorts (Executor.singleWorker_lawful 400) Graph.built_sample fits ok
  refine ⟨fits, result, context, ok, listed, exactly, fun none => ?_⟩
  have all : result.nodes.length = 5 := size.symm.trans (acyclic.mpr none)
  rw [listed] at all
  cases all

end GraphAnalytics.TopologicalOrder
