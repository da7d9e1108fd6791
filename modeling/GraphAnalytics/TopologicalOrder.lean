/-
# Topological order

Every node is put behind all nodes that have a relationship to it. The sort counts the relationships
that arrive at each node, starts from the nodes without any, and lets a task per node take that
node's relationships away again; whoever takes the last one away from a target starts the target's
task. Nodes on a cycle, and all nodes that can be reached from one, never lose their last incoming
relationship, so a result smaller than the graph means that there is a cycle.

If longest distances are wanted, a task raises the distance of a target above that of its own node
before it takes the relationship away. When a target's task starts, every predecessor has done so.

The three phases are `counting`, `gathering` and `traversal`, each described by the single accesses
of its tasks; `compute` runs them one after the other.
-/

import GraphAnalytics.BitSet
import GraphAnalytics.Paged.Cells
import GraphAnalytics.Schedule.CancelPoint
import GraphAnalytics.Schedule.Executor
import GraphAnalytics.Settings

namespace GraphAnalytics

open Progress

/-- Nodes in topological order. The first `size` cells of `order` hold them, `sorted` has them as a
set, and `distances` holds the longest distance of every node from a source, if it was wanted. -/
structure TopologicalOrder where
  order : Cells
  size : Nat := 0
  sorted : BitSet
  distances : Option Cells

namespace TopologicalOrder

def empty (nodeCount : Nat) (longestPaths : Bool) : TopologicalOrder where
  order := .replicate nodeCount 0
  sorted := .empty nodeCount
  distances := if longestPaths then some (.replicate nodeCount 0) else none

def nodes (result : TopologicalOrder) : List Nat :=
  (List.range result.size).map fun slot => (result.order.value slot).toNat

def contains (result : TopologicalOrder) (node : Nat) : Except Violation Bool :=
  result.sorted.contains node

/-- The longest distance of a sorted node from a source, if distances were wanted. -/
def longestDistance (result : TopologicalOrder) (node : Nat) : Except Violation (Option Int) :=
  match result.distances with
  | none => .ok none
  | some distances => do
      if ← result.contains node then
        return some (← distances.read .indexOutOfBounds node)
      else return none

/-- Whether a list of nodes repeats none of them and puts each behind its predecessors within the
list. -/
def respects (g : Graph) (nodes : List Nat) : Bool :=
  let unplaced : Array (Option Nat) := Array.replicate g.nodeCount none
  let place := nodes.zipIdx.foldl (fun place (node, slot) => place.setIfInBounds node (some slot))
    unplaced
  let slotOf (node : Nat) : Option Nat := (place[node]?).getD none
  let unrepeated := nodes.zipIdx.all fun (node, slot) => slotOf node == some slot
  let forward := nodes.zipIdx.all fun (node, slot) =>
    (g.row node).all fun target => match slotOf target with
      | some later => decide (slot < later)
      | none => true
  unrepeated && forward

/-! ### Counting incoming relationships -/

/-- The store of the counting phase: the relationships counted so far, per target, and when to
request cancellation. -/
structure Counting where
  inDegrees : Cells
  cancelAt : Option CancelPoint

/-- A point of a counting task, which asks before every node whether to go on, and then goes along
the row of the node. -/
inductive CountingPoint where
  | node (partition : Partition) (node : Nat)
  | stopped
  | scan (partition : Partition) (node : Nat)
  | row (partition : Partition) (node position stop : Nat)

/-- Count the relationships of the nodes of a partition at their targets. -/
def counting (g : Graph) : Work Counting Partition CountingPoint where
  start partition := .node partition partition.start
  step := fun ⟨inDegrees, cancelAt⟩ point =>
    match point with
    | .node partition node =>
        (⟨inDegrees, cancelAt⟩,
          if node < partition.stop then
            .poll fun running => if running then .scan partition node else .stopped
          else .finish (.ok partition.count))
    | .stopped => (⟨inDegrees, cancelAt⟩, .finish (.error .terminated))
    | .scan partition node =>
        let (cancelAt, now) := CancelPoint.arrive node cancelAt
        let next := .row partition node (g.rowStart node) (g.rowStop node)
        (⟨inDegrees, cancelAt⟩, if now then .terminate next else .proceed next)
    | .row partition node position stop =>
        if position < stop then
          let (_, inDegrees) := inDegrees.fetchAdd (g.target position) 1
          (⟨inDegrees, cancelAt⟩, .proceed (.row partition node (position + 1) stop))
        else (⟨inDegrees, cancelAt⟩, .proceed (.node partition (node + 1)))

/-! ### Gathering the sources -/

/-- The store of the gathering phase: the relationships that arrive at each node, and the sources
found by the tasks that are through. -/
structure Gathering where
  inDegrees : Cells
  sources : List Nat := []

/-- A point of a gathering task, with the sources that it has found, last first. -/
inductive GatheringPoint where
  | node (partition : Partition) (node : Nat) (found : List Nat)

/-- Find the nodes of a partition at which no relationship arrives. -/
def gathering : Work Gathering Partition GatheringPoint where
  start partition := .node partition partition.start []
  step := fun ⟨inDegrees, sources⟩ point =>
    match point with
    | .node partition node found =>
        if node < partition.stop then
          let found := if inDegrees.value node = 0 then node :: found else found
          (⟨inDegrees, sources⟩, .proceed (.node partition (node + 1) found))
        else (⟨inDegrees, found.reverse ++ sources⟩, .finish (.ok 0))

/-! ### Traversal -/

/-- The store of the traversal: the relationships that still arrive at each node, what has been
sorted, and when to request cancellation. -/
structure Traversal where
  inDegrees : Cells
  result : TopologicalOrder
  cancelAt : Option CancelPoint

/-- A point of the task of a node. The task takes the next slot of the order, writes the node into
it and puts the node into the set of sorted nodes. Then it goes along the row of the node. If
distances are wanted it reads the distance of the node and raises that of the target to one more; it
takes the relationship away from the target, and asks whether to go on. It leaves when it is through
with the row or was told to stop. -/
inductive TraversalPoint where
  | claim (node : Nat)
  | place (node slot : Nat)
  | mark (node : Nat)
  | scan (node : Nat)
  | row (node position stop : Nat)
  | relax (node position stop : Nat)
  | raise (node position stop : Nat) (candidate : Int) (point : Raising)
  | release (node position stop : Nat)
  | released (node position stop : Nat)
  | leave

/-- Sort a node and take its relationships away. -/
def traversal (g : Graph) : Work Traversal Nat TraversalPoint where
  start := .claim
  step := fun ⟨inDegrees, ⟨order, size, sorted, distances⟩, cancelAt⟩ point =>
    match point with
    | .claim node =>
        (⟨inDegrees, ⟨order, size + 1, sorted, distances⟩, cancelAt⟩, .proceed (.place node size))
    | .place node slot =>
        let order := order.set slot node
        (⟨inDegrees, ⟨order, size, sorted, distances⟩, cancelAt⟩, .proceed (.mark node))
    | .mark node =>
        let sorted := sorted.insert node
        (⟨inDegrees, ⟨order, size, sorted, distances⟩, cancelAt⟩, .proceed (.scan node))
    | .scan node =>
        let (cancelAt, now) := CancelPoint.arrive node cancelAt
        let next := .row node (g.rowStart node) (g.rowStop node)
        (⟨inDegrees, ⟨order, size, sorted, distances⟩, cancelAt⟩,
          if now then .terminate next else .proceed next)
    | .row node position stop =>
        let action :=
          if position < stop then
            if distances.isSome then .proceed (.relax node position stop)
            else .proceed (.release node position stop)
          else .proceed .leave
        (⟨inDegrees, ⟨order, size, sorted, distances⟩, cancelAt⟩, action)
    | .relax node position stop =>
        let next := match distances with
          | some distances =>
              .raise node position stop (distances.value node + 1) .observe
          | none => .release node position stop
        (⟨inDegrees, ⟨order, size, sorted, distances⟩, cancelAt⟩, .proceed next)
    | .raise node position stop candidate point =>
        match distances with
        | some distances =>
            match (Cells.raising (g.target position) candidate).step () distances point with
            | (distances, .more point) =>
                (⟨inDegrees, ⟨order, size, sorted, some distances⟩, cancelAt⟩,
                  .proceed (.raise node position stop candidate point))
            | (distances, .done _) =>
                (⟨inDegrees, ⟨order, size, sorted, some distances⟩, cancelAt⟩,
                  .proceed (.release node position stop))
        | none =>
            (⟨inDegrees, ⟨order, size, sorted, none⟩, cancelAt⟩,
              .proceed (.release node position stop))
    | .release node position stop =>
        let target := g.target position
        let (before, inDegrees) := inDegrees.fetchAdd target (-1)
        (⟨inDegrees, ⟨order, size, sorted, distances⟩, cancelAt⟩,
          if before = 1 then .fork target fun _ => .released node position stop
          else .proceed (.released node position stop))
    | .released node position stop =>
        (⟨inDegrees, ⟨order, size, sorted, distances⟩, cancelAt⟩,
          .poll fun running => if running then .row node (position + 1) stop else .leave)
    | .leave => (⟨inDegrees, ⟨order, size, sorted, distances⟩, cancelAt⟩, .finish (.ok 1))

/-! ### The sort -/

variable {π : Type} [Sink π]

def compute (executor : Executor) (g : Graph) (settings : SortSettings)
    (cancelAt : Option CancelPoint) : Run π TopologicalOrder := do
  Run.ofFault settings.validate
  let nodeCount := g.nodeCount
  Run.record (.sortStarted nodeCount settings.longestPaths)
  Run.enter "TopologicalSort"
  let partitions ← Run.ofViolation (settings.partitions g)
  Run.enterSized "Initialization" nodeCount
  let counted ← Phase.run executor (counting g) partitions ⟨.replicate nodeCount 0, cancelAt⟩
  Run.leave "Initialization"
  Run.enterSized "Traversal" nodeCount
  let ⟨inDegrees, cancelAt⟩ := counted
  let gathered ← Phase.run executor gathering partitions { inDegrees }
  let ⟨inDegrees, sources⟩ := gathered
  let seeds := sources.mergeSort
  let (traversed, stats) ← ForkJoin.run executor (traversal g) seeds
    ⟨inDegrees, .empty nodeCount settings.longestPaths, cancelAt⟩
  Run.leave "Traversal"
  Run.leave "TopologicalSort"
  Run.record (.sortFinished traversed.result.size nodeCount stats.roots)
  return traversed.result

/-- A number of moves that a single worker does not exceed in any phase of the sort. -/
def moveBudget (g : Graph) : Nat := 64 * (g.nodeCount + g.relationshipCount + 4)

end TopologicalOrder

end GraphAnalytics
