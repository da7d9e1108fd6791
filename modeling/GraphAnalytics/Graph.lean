/-
# Directed graphs in compressed rows

The relationships of all nodes lie in one array of targets, row after row. The row of a node is the
part of the targets between two neighbouring offsets, so there is one more offset than there are
nodes. The first offset need not be zero; targets before it belong to no row.

Three constructors build this form and refuse what does not describe a graph: `ofRows` from the list
of each node's targets, `ofEdges` from pairs by counting sort, and `ofParts` from offsets and
targets as they are. A row keeps the order in which its relationships were given.
-/

import GraphAnalytics.Paged.Array

namespace GraphAnalytics

/-- An immutable directed graph: where every row begins and where the last one ends, the targets row
after row, and the ids of the nodes in the database they came from, if they have any. -/
structure Graph where
  offsets : PagedArray 8 Nat
  targets : PagedArray 8 Nat
  externalIds : Option (PagedArray 8 Nat) := none

namespace Graph

/-- Word `index`, or zero where there is none. -/
def wordAt (words : PagedArray 8 Nat) (index : Nat) : Nat := (words.get? index).getD 0

def nodeCount (g : Graph) : Nat := g.offsets.capacity - 1

def relationshipCount (g : Graph) : Nat := g.targets.capacity

def rowStart (g : Graph) (node : Nat) : Nat := wordAt g.offsets node

def rowStop (g : Graph) (node : Nat) : Nat := wordAt g.offsets (node + 1)

def target (g : Graph) (position : Nat) : Nat := wordAt g.targets position

/-- The targets of a node, in row order. -/
def row (g : Graph) (node : Nat) : List Nat :=
  (List.range' (g.rowStart node) (g.rowStop node - g.rowStart node)).map g.target

/-- What every constructor establishes: there is an offset for the end of the last row, rows do not
run backwards, the last one ends with the targets, every target is a node, and every node has an
external id if any has. -/
structure WellFormed (g : Graph) : Prop where
  offsets_pos : 0 < g.offsets.capacity
  rows_forward : ∀ node < g.nodeCount, g.rowStart node ≤ g.rowStop node
  last_row : g.rowStart g.nodeCount = g.relationshipCount
  target_lt : ∀ position < g.relationshipCount, g.target position < g.nodeCount
  ids_complete : ∀ ids ∈ g.externalIds, ids.capacity = g.nodeCount

/-- Read a word of the graph; an index beyond the array is a broken promise of the caller. -/
def fetch (words : PagedArray 8 Nat) (index : Nat) : Except Violation Nat :=
  words.read .indexOutOfBounds index

def degree (g : Graph) (node : Nat) : Except Violation Nat := do
  let stop ← fetch g.offsets (node + 1)
  let start ← fetch g.offsets node
  return stop - start

/-- Hand the relationships of a node to a visitor until it declines. The visitor gets its own state,
the node and the target, and answers its next state and whether it wants more. -/
def visit {σ : Type} (g : Graph) (node : Nat) (visitor : σ → Nat → Nat → σ × Bool) (state : σ) :
    Except Violation σ := do
  let start ← fetch g.offsets node
  let stop ← fetch g.offsets (node + 1)
  go (stop - start) start state
where
  go : Nat → Nat → σ → Except Violation σ
    | 0, _, state => return state
    | remaining + 1, position, state => do
        let target ← fetch g.targets position
        match visitor state node target with
        | (state, true) => go remaining (position + 1) state
        | (state, false) => return state

/-- The targets of a node, in row order, for a caller that may name a node that does not exist. -/
def neighbors (g : Graph) (node : Nat) : Except Violation (List Nat) := do
  let _ ← g.degree node
  let found ← g.visit node (fun (found : Array Nat) _ target => (found.push target, true)) #[]
  return found.toList

/-- For every node, how many of the stored targets it is. -/
def inDegrees (g : Graph) : Array Nat :=
  g.targets.pages.foldl (fun counts page =>
    page.foldl (fun counts target => counts.modify target (· + 1)) counts)
    (Array.replicate g.nodeCount 0)

/-- The id of a node in the database it came from: its own if there is no such database. -/
def externalId (g : Graph) (node : Nat) : Except Violation Nat :=
  match g.externalIds with
  | some ids => fetch ids node
  | none => .ok node

def packed (words : Array Nat) : PagedArray 8 Nat :=
  .ofFn words.size fun index h => words[index]

def withExternalIds (g : Graph) (ids : Array Nat) : Except Violation Graph :=
  if ids.size = g.nodeCount then .ok { g with externalIds := some (packed ids) }
  else .error .externalIdsMismatch

/-- The arrays of a graph while its rows are being written, and the next free position. -/
structure Draft where
  offsets : PagedArray 8 Nat
  targets : PagedArray 8 Nat
  next : Nat := 0

def Draft.append (nodeCount source : Nat) (draft : Draft) (target : Nat) :
    Except Violation Draft :=
  if target < nodeCount then
    let ⟨offsets, targets, next⟩ := draft
    .ok ⟨offsets, targets.set next target, next + 1⟩
  else .error (.danglingRelationship source target nodeCount)

def Draft.writeRow (nodeCount : Nat) (draft : Draft) (row : List Nat × Nat) :
    Except Violation Draft :=
  let ⟨offsets, targets, next⟩ := draft
  row.1.foldlM (Draft.append nodeCount row.2) ⟨offsets.set row.2 next, targets, next⟩

/-- The graph in which node `k` has the `k`-th list of targets. -/
def ofRows (rows : List (List Nat)) : Except Violation Graph := do
  let nodeCount := rows.length
  let draft ← rows.zipIdx.foldlM (Draft.writeRow nodeCount)
    { offsets := .replicate (nodeCount + 1) 0
      targets := .replicate rows.flatten.length 0 }
  let ⟨offsets, targets, next⟩ := draft
  return { offsets := offsets.set nodeCount next, targets }

/-- Add to a word; an index beyond the array is a broken promise of the caller. -/
def addAt (words : PagedArray 8 Nat) (index amount : Nat) : Except Violation (PagedArray 8 Nat) :=
  if index < words.capacity then .ok (words.modify index (· + amount))
  else .error (.indexOutOfBounds index words.capacity)

/-- Count a pair at the offset behind its source. -/
def countEdge (nodeCount : Nat) (offsets : PagedArray 8 Nat) (edge : Nat × Nat) :
    Except Violation (PagedArray 8 Nat) :=
  if edge.1 < nodeCount ∧ edge.2 < nodeCount then addAt offsets (edge.1 + 1) 1
  else .error (.danglingRelationship edge.1 edge.2 nodeCount)

/-- Add to each of so many words, from the one behind `node` on, the word before it: counts become
offsets. -/
def accumulate : Nat → Nat → PagedArray 8 Nat → Except Violation (PagedArray 8 Nat)
  | 0, _, offsets => return offsets
  | remaining + 1, node, offsets => do
      let before ← fetch offsets node
      let offsets ← addAt offsets (node + 1) before
      accumulate remaining (node + 1) offsets

/-- Put a pair's target at the next free position of its source's row. -/
def placeEdge (arrays : PagedArray 8 Nat × PagedArray 8 Nat) (edge : Nat × Nat) :
    PagedArray 8 Nat × PagedArray 8 Nat :=
  let (cursors, targets) := arrays
  let slot := wordAt cursors edge.1
  (cursors.set edge.1 (slot + 1), targets.set slot edge.2)

/-- The graph on `nodeCount` nodes with the given pairs of source and target: a counting sort by
source that keeps the order of the pairs within a row.

The number of offsets is a word. With as many nodes as the largest word says there would have to be
one offset more than that. The sum wraps to zero, so there is none, and the first access to an
offset is refused. -/
def ofEdges (nodeCount : Nat) (edges : List (Nat × Nat)) : Except Violation Graph := do
  let counts ← edges.foldlM (countEdge nodeCount) (.replicate (Word.wrap (nodeCount + 1)) 0)
  let offsets ← accumulate nodeCount 0 counts
  let cursors : PagedArray 8 Nat := .ofFn nodeCount fun node _ => wordAt offsets node
  let (_, targets) := edges.foldl placeEdge (cursors, .replicate edges.length 0)
  return { offsets, targets }

def danglingTarget? (nodeCount : Nat) (targets : Array Nat) : Option Nat :=
  targets.find? (nodeCount ≤ ·)

def Ascending (words : Array Nat) : Prop :=
  ∀ index < words.size - 1, (words[index]?).getD 0 ≤ (words[index + 1]?).getD 0

instance (words : Array Nat) : Decidable (Ascending words) :=
  inferInstanceAs (Decidable (∀ index < _, _))

/-- The graph with the given offsets and targets. -/
def ofParts (offsets targets : Array Nat) : Except Violation Graph :=
  if offsets.size = 0 then .error .missingOffsets
  else if ¬ Ascending offsets then .error .decreasingOffsets
  else if offsets.back? ≠ some targets.size then .error .offsetsTargetsMismatch
  else
    match danglingTarget? (offsets.size - 1) targets with
    | some target => .error (.danglingTarget target (offsets.size - 1))
    | none => .ok { offsets := packed offsets, targets := packed targets }

end Graph

end GraphAnalytics
