/-
# Disjoint sets with public ids

Every set has a public id. For sets that started as singletons it is the smallest member. Sets can
also start from labels: nodes that share a label begin in one set, rooted at the first of them, and
that root carries the label as its public id. A merged set goes by the id of its smallest member:
its label if it brought one into the structure, and the node itself otherwise.

Sets without labels are the sets of a labelling that labels nothing, so there is one structure and
one set of operations.
-/

import GraphAnalytics.Sets.Forest
import Std.Data.HashMap

namespace GraphAnalytics

/-- A partial labelling of node ids. -/
abbrev Labelling := Nat → Option Nat

/-- Disjoint sets of the ids below `parents.capacity`, with the labels of the nodes that were the
first to carry one, and the labelling that the sets start from. -/
structure DisjointSets where
  parents : Forest
  names : Std.HashMap Nat Nat
  labels : Labelling

namespace DisjointSets

/-- What seeding has met so far: the first node of every label, and the label of every first
node. -/
structure Seeding where
  firsts : Std.HashMap Nat Nat := ∅
  names : Std.HashMap Nat Nat := ∅

/-- The cell that a node starts with: a root if it has no label or is the first with its label, and
a child of the first node with its label otherwise. -/
def Seeding.visit (labels : Labelling) (seen : Seeding) (node : Nat) : Int × Seeding :=
  match labels node with
  | none => (rootMark, seen)
  | some label =>
      match seen.firsts[label]? with
      | some first => (first, seen)
      | none =>
          (rootMark, ⟨seen.firsts.insert label node, seen.names.insert node label⟩)

/-- Start over: every cell is set from the labelling, in node order. -/
def seed (parents : Forest) (labels : Labelling) : DisjointSets :=
  let (parents, seen) := parents.setAll (Seeding.visit labels) {}
  { parents, names := seen.names, labels }

/-- The sets of nodes with a common label, and singletons for the others. -/
def ofLabels (capacity : Nat) (labels : Labelling) : DisjointSets :=
  seed (.replicate capacity rootMark) labels

def singletons (capacity : Nat) : DisjointSets := ofLabels capacity fun _ => none

def capacity (sets : DisjointSets) : Nat := sets.parents.capacity

def reset (sets : DisjointSets) : DisjointSets := seed sets.parents sets.labels

def onForest {α : Type} (action : Guarded Violation Forest α) : Guarded Violation DisjointSets α :=
  .ofFunction fun ⟨parents, names, labels⟩ =>
    let (answer, parents) := action.perform parents
    (answer, ⟨parents, names, labels⟩)

/-- The smallest member of a node's set, walking without writing. -/
def root (node : Nat) (sets : DisjointSets) : Except Violation Nat := Forest.root node sets.parents

/-- The public id of a set, given its smallest member. -/
def nameOf (sets : DisjointSets) (root : Nat) : Nat := (sets.names[root]?).getD root

def setId (node : Nat) (sets : DisjointSets) : Except Violation Nat :=
  (sets.root node).map sets.nameOf

def setIds (sets : DisjointSets) : Except Violation (List Nat) :=
  (List.range sets.capacity).mapM fun node => sets.setId node

/-- The number of sets: the nodes that are their own root. -/
def count (sets : DisjointSets) : Except Violation Nat := do
  let roots ← (List.range sets.capacity).mapM fun node => sets.root node
  return ((List.range sets.capacity).zip roots).countP fun (node, root) => root == node

/-- The smallest member of a node's set, shortening the path to it. -/
def find (node : Nat) : Guarded Violation DisjointSets Nat := onForest (Forest.find node)

def union (p q : Nat) : Guarded Violation DisjointSets Unit := onForest (Forest.union p q)

def check (node : Nat) : Fallible DisjointSets Unit :=
  .ofGuarded (.inspect fun sets =>
    if node < sets.capacity then .ok () else .error (.indexOutOfBounds node sets.capacity))

/-- Merge the sets of two nodes, failing on an id that is not a node. -/
def tryUnion (p q : Nat) : Fallible DisjointSets Unit := do
  check p
  check q
  ExceptT.lift (union p q)

/-- The public id of a node's set, failing on an id that is not a node. -/
def trySetId (node : Nat) : Fallible DisjointSets Nat := do
  check node
  ExceptT.lift (Guarded.inspect (setId node))

def sameSet (p q : Nat) : Guarded Violation DisjointSets Bool := onForest (Forest.sameSet p q)

def unionAll : List (Nat × Nat) → Guarded Violation DisjointSets Unit
  | [] => pure ()
  | (p, q) :: pairs => do union p q; unionAll pairs

def setParent (node : Nat) (cell : Int) : Guarded Violation DisjointSets Unit :=
  onForest (PagedArray.write .indexOutOfBounds node cell)

end DisjointSets

end GraphAnalytics
