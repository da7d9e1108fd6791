/-
# Partitions

A partition is a span of consecutive node ids that one task works through. A valid span is not
empty, is no longer than `maxNodeCount`, and ends at or before the last 64-bit id.
-/

import GraphAnalytics.Fault
import GraphAnalytics.Word

namespace GraphAnalytics

/-- The node ids from `start` on, `count` of them. -/
structure Partition where
  start : Nat
  count : Nat
  deriving DecidableEq, Repr

namespace Partition

/-- The span is one that a task can be given. -/
def Valid (p : Partition) : Prop :=
  0 < p.count ∧ p.count ≤ maxNodeCount ∧ p.start + p.count ≤ Word.top

instance (p : Partition) : Decidable p.Valid := inferInstanceAs (Decidable (_ ∧ _ ∧ _))

/-- The partition with the given start and length, if it is valid. -/
def ofSpan (start count : Nat) : Except Fault Partition :=
  if Valid ⟨start, count⟩ then .ok ⟨start, count⟩ else .error (.invalidPartition start count)

def stop (p : Partition) : Nat := p.start + p.count

def nodes (p : Partition) : List Nat := List.range' p.start p.count

/-- The partition can be dispatched together with `others` other partitions. -/
def Fits (p : Partition) (others : Nat) : Prop :=
  others ≤ maxNodeCount ∧ p.count ≤ maxNodeCount - others

instance (p : Partition) (others : Nat) : Decidable (p.Fits others) :=
  inferInstanceAs (Decidable (_ ∧ _))

def text (p : Partition) : String :=
  s!"Partition\x7bstartNode={p.start}, nodeCount={p.count}\x7d"

def document (p : Partition) : String :=
  "\x7b\"startNode\":" ++ toString p.start ++ ",\"nodeCount\":" ++ toString p.count ++ "\x7d"

end Partition

end GraphAnalytics
