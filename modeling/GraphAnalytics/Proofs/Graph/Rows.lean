/-
# Rows and relationships

A task reads a row from its first position to its last. `ahead` is what it still has to read, so a
row is what is ahead of its first position, and reading one target takes the head off. The rows of a
well-formed graph lie behind one another without gaps; together they are what is ahead of the first
offset, and so there are no more relationships than stored targets.
-/

import GraphAnalytics.Graph
import Mathlib.Algebra.GroupWithZero.Nat
import Mathlib.Data.List.Range

namespace GraphAnalytics.Graph

/-- There is a relationship from one node to the other. -/
def Edge (g : Graph) (source target : Nat) : Prop := target ∈ g.row source

/-- A task that has come to a position of a row has come to a relationship. -/
theorem edge_of_position {g : Graph} {node position : Nat} (le : g.rowStart node ≤ position)
    (lt : position < g.rowStop node) : g.Edge node (g.target position) :=
  List.mem_map_of_mem (List.mem_range'_1.mpr (by omega))

def ahead (g : Graph) (position stop : Nat) : List Nat :=
  (List.range' position (stop - position)).map g.target

theorem row_eq_ahead (g : Graph) (node : Nat) :
    g.row node = g.ahead (g.rowStart node) (g.rowStop node) := rfl

theorem ahead_of_lt (g : Graph) {position stop : Nat} (h : position < stop) :
    g.ahead position stop = g.target position :: g.ahead (position + 1) stop := by
  have more : stop - position = stop - (position + 1) + 1 := by omega
  rw [ahead, more, List.range'_succ, List.map_cons, ahead]

theorem ahead_of_le (g : Graph) {position stop : Nat} (h : stop ≤ position) :
    g.ahead position stop = [] := by
  rw [ahead, Nat.sub_eq_zero_of_le h]
  rfl

/-- What it takes to go through the rows of the nodes from `node` to `stop` if a relationship takes
`price` steps and a node five more. -/
def effort (g : Graph) (price stop node : Nat) : Nat :=
  ((List.range' node (stop - node)).map fun node =>
    price * (g.rowStop node - g.rowStart node) + 5).sum

theorem effort_of_lt (g : Graph) {price stop node : Nat} (h : node < stop) :
    g.effort price stop node =
      price * (g.rowStop node - g.rowStart node) + 5 + g.effort price stop (node + 1) := by
  have more : stop - node = stop - (node + 1) + 1 := by omega
  rw [effort, more, List.range'_succ, List.map_cons, List.sum_cons, effort]

theorem length_ahead (g : Graph) (position stop : Nat) :
    (g.ahead position stop).length = stop - position := by
  rw [ahead, List.length_map, List.length_range']

theorem ahead_append (g : Graph) {first second third : Nat} (le : first ≤ second)
    (le' : second ≤ third) :
    g.ahead first second ++ g.ahead second third = g.ahead first third := by
  have all : third - first = (second - first) + (third - second) := by omega
  have from' : second = first + (second - first) := by omega
  rw [ahead, ahead, ahead, all, ← List.map_append]
  congr 1
  rw [← List.range'_append_1, ← from']

namespace WellFormed

variable {g : Graph} (wellFormed : g.WellFormed)

include wellFormed

theorem rowStart_mono {first second : Nat} (le : first ≤ second) (h : second ≤ g.nodeCount) :
    g.rowStart first ≤ g.rowStart second := by
  induction second with
  | zero => rw [Nat.le_zero.mp le]
  | succ second ih =>
      rcases Nat.lt_or_eq_of_le le with earlier | rfl
      · exact Nat.le_trans (ih (Nat.le_of_lt_succ earlier) (Nat.le_of_succ_le h))
          (wellFormed.rows_forward second h)
      · exact Nat.le_refl _

theorem rowStop_le {node : Nat} (h : node < g.nodeCount) :
    g.rowStop node ≤ g.relationshipCount := by
  rw [← wellFormed.last_row]
  exact wellFormed.rowStart_mono (Nat.succ_le_of_lt h) (Nat.le_refl _)

/-- There is an offset for the beginning of every row, and one for the end of the last. -/
theorem capacity_offsets : g.offsets.capacity = g.nodeCount + 1 := by
  have positive := wellFormed.offsets_pos
  rw [nodeCount]
  omega

theorem row_of_le {node : Nat} (h : g.nodeCount ≤ node) : g.row node = [] := by
  have offsets := wellFormed.capacity_offsets
  have stop : g.rowStop node = 0 := by
    rw [rowStop, wordAt, PagedArray.get?, dif_neg (by omega), Option.getD_none]
  rw [row_eq_ahead]
  exact g.ahead_of_le (stop ▸ Nat.zero_le _)

theorem source_lt {source target : Nat} (edge : g.Edge source target) : source < g.nodeCount := by
  refine Nat.lt_of_not_le fun beyond => ?_
  rw [Edge, wellFormed.row_of_le beyond] at edge
  exact List.not_mem_nil edge

theorem target_lt_of_mem_ahead {position stop target : Nat} (h : stop ≤ g.relationshipCount)
    (member : target ∈ g.ahead position stop) : target < g.nodeCount := by
  obtain ⟨place, inside, rfl⟩ := List.mem_map.mp member
  exact wellFormed.target_lt place (by have := List.mem_range'_1.mp inside; omega)

theorem edge_target_lt {source target : Nat} (edge : g.Edge source target) : target < g.nodeCount :=
  wellFormed.target_lt_of_mem_ahead (wellFormed.rowStop_le (wellFormed.source_lt edge)) edge

/-- The rows of the first nodes lie behind one another. -/
theorem flatMap_row {node : Nat} (h : node ≤ g.nodeCount) :
    (List.range node).flatMap g.row = g.ahead (g.rowStart 0) (g.rowStart node) := by
  induction node with
  | zero => rw [ahead_of_le g (Nat.le_refl _)]; rfl
  | succ node ih =>
      rw [List.range_succ, List.flatMap_append, ih (Nat.le_of_succ_le h), List.flatMap_singleton,
        row_eq_ahead]
      exact g.ahead_append (wellFormed.rowStart_mono (Nat.zero_le _) (Nat.le_of_succ_le h))
        (wellFormed.rows_forward node h)

theorem rowStart_eq_add {node : Nat} (h : node ≤ g.nodeCount) :
    g.rowStart node = g.rowStart 0 + ((List.range node).flatMap g.row).length := by
  have behind := wellFormed.rowStart_mono (Nat.zero_le node) h
  rw [wellFormed.flatMap_row h, length_ahead]
  omega

theorem length_flatMap_row_le :
    ((List.range g.nodeCount).flatMap g.row).length ≤ g.relationshipCount := by
  rw [wellFormed.flatMap_row (Nat.le_refl _), length_ahead, wellFormed.last_row]
  exact Nat.sub_le _ _

end WellFormed

end GraphAnalytics.Graph
