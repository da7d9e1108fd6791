/-
# The parent forest

Disjoint sets of node ids are kept as a forest. A cell holds the parent of its node, or `rootMark`
if the node is a root. Merging always points the larger root at the smaller one, so the root of a
set is its smallest member.

Three calls walk the forest, and many workers may run them at once without locks. Each is a machine
of single accesses to single cells:

* `seekRoot` follows parents and writes nothing;
* `compress` follows parents two at a time and points every visited node at its grandparent;
* `link` seeks both roots and points the larger at the smaller if it still is a root, and starts
  over if it is not.

`agree` asks for two roots one after the other and compares them. A `Call` is any of these, for
pools in which all kinds run together. The sequential operations are the machines left alone. A walk
visits no node twice unless the cells lead round in a circle, so a budget of as many accesses as the
forest has nodes is enough for it, and exceeding the budget is reported as `endlessWalk`.
-/

import GraphAnalytics.Paged.Cells

namespace GraphAnalytics

/-- The cell of a root. -/
def rootMark : Int := -1

/-- Parent cells, one per node. -/
abbrev Forest := Cells

/-- A point of a compressing walk, named after the access that is next: the cell of `node` is read,
then the cell of the parent that it names, and then the cell of `node` is exchanged, to point at the
grandparent. -/
inductive Compressing where
  | atNode (node : Nat)
  | atParent (node : Nat) (cell : Int)
  | shortcut (node : Nat) (cell above : Int)
  deriving DecidableEq

/-- A point of a merge of the sets of `p` and `q`: the root of `p` is sought, at `node`; then that
of `q`; and then the larger of the two roots is about to be pointed at the smaller. -/
inductive Linking where
  | first (p q node : Nat)
  | second (p q root node : Nat)
  | join (p q low high : Nat)
  deriving DecidableEq

/-- A point of a comparison of the roots of two nodes: the root of the first is sought, and then,
with that remembered, the root of the second. -/
inductive Agreeing where
  | first (q : Nat) (walk : Compressing)
  | second (root : Nat) (walk : Compressing)
  deriving DecidableEq

namespace Forest

/-- The parent that a cell names, if it is not the cell of a root. A negative cell names an id that
no node has. -/
@[inline] def parentOf (cell : Int) : Option Nat :=
  if cell = rootMark then none else some (Word.ofSigned cell)

/-- Forget the store's answer to an access and keep where the walk goes. -/
@[inline] def readCell {ℓ α : Type} (forest : Forest) (node : Nat)
    (next : Int → Turn ℓ (Except Violation α)) : Turn ℓ (Except Violation α) :=
  match forest.read .indexOutOfBounds node with
  | .ok cell => next cell
  | .error violation => .done (.error violation)

/-- Seeking the root above a node. -/
@[inline] def seekRoot : Machine Unit Forest Nat (Except Violation Nat) where
  step _ forest node :=
    let turn := forest.readCell node fun cell =>
      match parentOf cell with
      | none => .done (.ok node)
      | some parent => .more parent
    (forest, turn)

/-- Seeking the root above a node while pointing the visited nodes at their grandparents. -/
def compress : Machine Unit Forest Compressing (Except Violation Nat) where
  step _ forest
    | .atNode node =>
        let turn := forest.readCell node fun cell =>
          if cell = rootMark then .done (.ok node) else .more (.atParent node cell)
        (forest, turn)
    | .atParent node cell =>
        let parent := Word.ofSigned cell
        let turn := forest.readCell parent fun above =>
          if above = rootMark then .done (.ok parent) else .more (.shortcut node cell above)
        (forest, turn)
    | .shortcut node cell above =>
        let (_, forest) := forest.compareExchange node cell above
        (forest, .more (.atNode (Word.ofSigned above)))

/-- Merging the sets of two nodes. -/
def link : Machine Unit Forest Linking (Except Violation Unit) where
  step _ forest
    | .first p q node =>
        let turn := forest.readCell node fun cell =>
          match parentOf cell with
          | none => .more (.second p q node q)
          | some parent => .more (.first p q parent)
        (forest, turn)
    | .second p q root node =>
        let turn := forest.readCell node fun cell =>
          match parentOf cell with
          | none =>
              if root = node then .done (.ok ())
              else .more (.join p q (min root node) (max root node))
          | some parent => .more (.second p q root parent)
        (forest, turn)
    | .join p q low high =>
        let (seen, forest) := forest.compareExchange high rootMark low
        (forest, if seen = rootMark then .done (.ok ()) else .more (.first p q p))

def agree : Machine Unit Forest Agreeing (Except Violation Bool) where
  step _ forest
    | .first q walk =>
        match compress.step () forest walk with
        | (forest, .more walk) => (forest, .more (.first q walk))
        | (forest, .done (.ok root)) => (forest, .more (.second root (.atNode q)))
        | (forest, .done (.error violation)) => (forest, .done (.error violation))
    | .second root walk =>
        match compress.step () forest walk with
        | (forest, .more walk) => (forest, .more (.second root walk))
        | (forest, .done (.ok other)) => (forest, .done (.ok (root == other)))
        | (forest, .done (.error violation)) => (forest, .done (.error violation))

inductive Call where
  | seekRoot (node : Nat)
  | compress (walk : Compressing)
  | link (point : Linking)
  | agree (point : Agreeing)
  deriving DecidableEq

inductive Answer where
  | root (node : Nat)
  | linked
  | agreed (same : Bool)
  deriving DecidableEq

def lift {ℓ α : Type} (point : ℓ → Call) (answer : α → Answer) :
    Forest × Turn ℓ (Except Violation α) → Forest × Turn Call (Except Violation Answer)
  | (forest, .more next) => (forest, .more (point next))
  | (forest, .done result) => (forest, .done (result.map answer))

/-- Calls of all kinds on one forest. -/
def calls : Machine Unit Forest Call (Except Violation Answer) where
  step _ forest
    | .seekRoot node => lift .seekRoot .root (seekRoot.step () forest node)
    | .compress walk => lift .compress .root (compress.step () forest walk)
    | .link point => lift .link (fun _ => .linked) (link.step () forest point)
    | .agree point => lift .agree .agreed (agree.step () forest point)

/-- Run a call alone within a budget of accesses. -/
def runAlone {ℓ α : Type} (m : Machine Unit Forest ℓ (Except Violation α)) (budget : Nat)
    (point : ℓ) : Guarded Violation Forest α :=
  .ofFunction fun forest =>
    match m.alone () budget forest point with
    | (forest, some result) => (result, forest)
    | (forest, none) => (.error .endlessWalk, forest)

/-- The accesses that the longest walk through `capacity` nodes can take. -/
def walkBudget (capacity : Nat) : Nat := capacity + 1

def root (node : Nat) (forest : Forest) : Except Violation Nat :=
  ((runAlone seekRoot (walkBudget forest.capacity) node).perform forest).1

def find (node : Nat) : Guarded Violation Forest Nat := do
  let forest ← get
  runAlone compress (3 * walkBudget forest.capacity) (.atNode node)

/-- Refuse an id that is not a node. -/
def require (node : Nat) : Guarded Violation Forest Unit :=
  .inspect fun forest =>
    if node < forest.capacity then .ok () else .error (.indexOutOfBounds node forest.capacity)

/-- Merge the sets of two nodes. Both ids are checked before anything is walked. -/
def union (p q : Nat) : Guarded Violation Forest Unit := do
  require p
  require q
  let forest ← get
  runAlone link (2 * walkBudget forest.capacity + 1) (.first p q p)

def sameSet (p q : Nat) : Guarded Violation Forest Bool := do
  let forest ← get
  runAlone agree (6 * walkBudget forest.capacity) (.first q (.atNode p))

end Forest

end GraphAnalytics
