/-
# Weakly connected components

Two nodes are in one component if relationships lead from one to the other, taken in either
direction. The search merges the sets of the two ends of every relationship, one task per partition
of the sources. It starts from singletons, or from the sets of nodes with a common label.
-/

import GraphAnalytics.Schedule.CancelPoint
import GraphAnalytics.Schedule.Executor
import GraphAnalytics.Sets.Disjoint
import GraphAnalytics.Settings

namespace GraphAnalytics.Components

open Progress

/-- The store of the search: the forest of the sets, the relationships whose tasks are through, and
when to request cancellation. -/
structure Merging where
  parents : Forest
  merged : Nat := 0
  cancelAt : Option CancelPoint

/-- A point of a task, with the number of relationships that the task has merged. A task asks before
every node whether to go on. It then goes along the row of the node and merges the ends of one
relationship after the other. When it is through, or was told to stop, it reports. -/
inductive MergingPoint where
  | node (partition : Partition) (node merged : Nat)
  | stopped
  | scan (partition : Partition) (node merged : Nat)
  | row (partition : Partition) (node merged position stop : Nat)
  | merge (partition : Partition) (node merged position stop : Nat) (point : Linking)
  | leave (merged : Nat)

/-- Merge the ends of the relationships that leave the nodes of a partition. -/
def merging (g : Graph) : Work Merging Partition MergingPoint where
  start partition := .node partition partition.start 0
  step := fun ⟨parents, total, cancelAt⟩ point =>
    match point with
    | .node partition node merged =>
        (⟨parents, total, cancelAt⟩,
          if node < partition.stop then
            .poll fun running => if running then .scan partition node merged else .stopped
          else .proceed (.leave merged))
    | .stopped => (⟨parents, total, cancelAt⟩, .finish (.error .terminated))
    | .scan partition node merged =>
        let (cancelAt, now) := CancelPoint.arrive node cancelAt
        let next := .row partition node merged (g.rowStart node) (g.rowStop node)
        (⟨parents, total, cancelAt⟩, if now then .terminate next else .proceed next)
    | .row partition node merged position stop =>
        (⟨parents, total, cancelAt⟩,
          if position < stop then
            .proceed (.merge partition node merged position stop
              (.first node (g.target position) node))
          else .proceed (.node partition (node + 1) merged))
    | .merge partition node merged position stop point =>
        match Forest.link.step () parents point with
        | (parents, .more point) =>
            (⟨parents, total, cancelAt⟩,
              .proceed (.merge partition node merged position stop point))
        | (parents, .done _) =>
            (⟨parents, total, cancelAt⟩,
              .proceed (.row partition node (merged + 1) (position + 1) stop))
    | .leave merged => (⟨parents, total + merged, cancelAt⟩, .finish (.ok merged))

variable {π : Type} [Sink π]

/-- Find the components of a graph, starting from the given sets of its nodes. -/
def computeFrom (executor : Executor) (g : Graph) (settings : Settings) (sets : DisjointSets)
    (cancelAt : Option CancelPoint) : Run π DisjointSets := do
  Run.ofFault settings.validate
  let partitions ← Run.ofViolation (settings.partitions g)
  Run.record (.componentsStarted g.nodeCount partitions.length)
  Run.enterSized "Wcc" g.relationshipCount
  let ⟨parents, names, labels⟩ := sets
  let ⟨parents, merged, _⟩ ← Phase.run executor (merging g) partitions { parents, cancelAt }
  Run.leave "Wcc"
  Run.record (.componentsFinished merged)
  return ⟨parents, names, labels⟩

def compute (executor : Executor) (g : Graph) (settings : Settings)
    (cancelAt : Option CancelPoint) : Run π DisjointSets :=
  computeFrom executor g settings (.singletons g.nodeCount) cancelAt

/-- Find the components of a graph whose nodes with a common label are connected beforehand. -/
def computeSeeded (executor : Executor) (g : Graph) (settings : Settings) (labels : Labelling)
    (cancelAt : Option CancelPoint) : Run π DisjointSets :=
  computeFrom executor g settings (.ofLabels g.nodeCount labels) cancelAt

def moveBudget (g : Graph) : Nat :=
  8 * (g.nodeCount + 4) * (g.nodeCount + g.relationshipCount + 4)

end GraphAnalytics.Components
