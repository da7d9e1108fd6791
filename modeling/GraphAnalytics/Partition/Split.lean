/-
# Splitting the node ids

Both policies cut the ids below a node count into consecutive partitions, first to last, and cut
nothing into no partitions.

*Batches* have equal length, and the last takes what remains. The batch length that spreads the
nodes over `concurrency` workers is rounded up, but never drops below a minimum and never exceeds
what a partition may hold.

*Degree-balanced* partitions are closed as soon as their degrees add up to a fair share of the
total, which keeps a few nodes with many relationships from ending up with one worker. A partition
is also closed when one more node would make it too long to be dispatched with those before it.
-/

import GraphAnalytics.Memory.Geometry
import GraphAnalytics.Partition

namespace GraphAnalytics.Partition

open Word

def entryBytes : Nat := 16

/-- The batch length that gives about `concurrency` batches. -/
def batchSize (nodeCount concurrency minBatch : Nat) : Except Violation Nat :=
  if concurrency = 0 then .error .noConcurrency
  else .ok (min (max (max (ceilDiv nodeCount concurrency) minBatch) 1) maxNodeCount)

/-- Batches of `size` nodes; the last takes what remains. -/
def batches (nodeCount size : Nat) : Except Violation (List Partition) :=
  if size = 0 then .error .emptyBatch
  else if maxNodeCount < size then .error (.oversizedBatch size)
  else if ¬ Memory.Addressable (ceilDiv nodeCount size) entryBytes then .error .capacityOverflow
  else .ok ((List.range (ceilDiv nodeCount size)).map fun number =>
    ⟨number * size, min size (nodeCount - number * size)⟩)

def evenly (nodeCount concurrency minBatch : Nat) : Except Violation (List Partition) := do
  batches nodeCount (← batchSize nodeCount concurrency minBatch)

/-- How far a pass over the nodes has come: where the open partition starts, the sum of the degrees
in it, and the partitions that are closed, in order. -/
structure Cut where
  start : Nat := 0
  sum : Nat := 0
  closed : Array Partition := #[]

namespace Cut

def close (cut : Cut) (stop : Nat) : Cut where
  start := stop
  closed := cut.closed.push ⟨cut.start, stop - cut.start⟩

/-- The open partition has to be closed before `node` can go on: it holds nodes already, and one
more would be too many. -/
def Full (cut : Cut) (node : Nat) : Prop :=
  cut.start < node ∧ ¬ Fits ⟨cut.start, node - cut.start + 1⟩ cut.closed.size

instance (cut : Cut) (node : Nat) : Decidable (cut.Full node) :=
  inferInstanceAs (Decidable (_ ∧ _))

/-- Put `node` into the open partition, closing that before if it is full and after if it has its
share of the degrees. -/
def place (degree : Nat → Nat) (threshold : Nat) (cut : Cut) (node : Nat) : Cut :=
  let cut := if cut.Full node then cut.close node else cut
  let cut := { cut with sum := satAdd cut.sum (degree node) }
  if threshold ≤ cut.sum then cut.close (node + 1) else cut

def finish (cut : Cut) (nodeCount : Nat) : List Partition :=
  (if cut.start < nodeCount then cut.close nodeCount else cut).closed.toList

end Cut

def totalDegree (nodeCount : Nat) (degree : Nat → Nat) : Nat :=
  (List.range nodeCount).foldl (fun total node => satAdd total (degree node)) 0

def degreeShare (nodeCount concurrency : Nat) (degree : Nat → Nat) : Nat :=
  max (ceilDiv (totalDegree nodeCount degree) concurrency) 1

/-- Partitions of roughly equal total degree, for `concurrency` workers. -/
def byDegree (nodeCount concurrency : Nat) (degree : Nat → Nat) :
    Except Violation (List Partition) :=
  if concurrency = 0 then .error .noConcurrency
  else if nodeCount = 0 then .ok []
  else if ¬ Memory.Addressable concurrency entryBytes then .error .capacityOverflow
  else
    let cut := (List.range nodeCount).foldl
      (Cut.place degree (degreeShare nodeCount concurrency degree)) {}
    .ok (cut.finish nodeCount)

end GraphAnalytics.Partition
