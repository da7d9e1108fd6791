/-
# What a graph answers

Reading a well-formed graph never fails at a node: the degree is the length of the row, and whoever
visits a node is handed its row, target by target, until they decline. A node that does not exist is
refused by every one of the readers.
-/

import GraphAnalytics.Proofs.Graph.Rows
import GraphAnalytics.Proofs.Paged.Access

namespace GraphAnalytics.Graph

theorem fetch_of_lt (words : PagedArray 8 Nat) {index : Nat} (h : index < words.capacity) :
    fetch words index = .ok (wordAt words index) := by
  rw [fetch, PagedArray.read, dif_pos h, wordAt, words.get?_of_lt h, Option.getD_some]

theorem fetch_of_le (words : PagedArray 8 Nat) {index : Nat} (h : words.capacity ≤ index) :
    fetch words index = .error (.indexOutOfBounds index words.capacity) := by
  rw [fetch, PagedArray.read, dif_neg (Nat.not_lt.mpr h)]

/-- Hand out targets one by one until the visitor declines. -/
def handOut {σ : Type} (visitor : σ → Nat → Nat → σ × Bool) (node : Nat) : List Nat → σ → σ
  | [], state => state
  | target :: rest, state =>
      match visitor state node target with
      | (state, true) => handOut visitor node rest state
      | (state, false) => state

theorem handOut_eq_foldl {σ : Type} (next : σ → Nat → σ) (node : Nat) (targets : List Nat)
    (state : σ) :
    handOut (fun state _ target => (next state target, true)) node targets state =
      targets.foldl next state := by
  induction targets generalizing state with
  | nil => rfl
  | cons target targets ih => exact ih (next state target)

theorem length_row (g : Graph) (node : Nat) :
    (g.row node).length = g.rowStop node - g.rowStart node := by
  rw [row_eq_ahead, length_ahead]

/-- From any position of a row on, the visitor is handed what is ahead. -/
theorem visit_go {σ : Type} (g : Graph) (node : Nat) (visitor : σ → Nat → Nat → σ × Bool)
    (remaining : Nat) {position : Nat} (h : position + remaining ≤ g.relationshipCount)
    (state : σ) :
    visit.go g node visitor remaining position state =
      .ok (handOut visitor node (g.ahead position (position + remaining)) state) := by
  induction remaining generalizing position state with
  | zero =>
      rw [Nat.add_zero, g.ahead_of_le (Nat.le_refl _)]
      rfl
  | succ remaining ih =>
      have inside : position < g.targets.capacity := by
        rw [relationshipCount] at h
        omega
      rw [visit.go, fetch_of_lt _ inside, g.ahead_of_lt (by omega)]
      show (match visitor state node (g.target position) with
        | (state, true) => visit.go g node visitor remaining (position + 1) state
        | (state, false) => .ok state) = .ok (match visitor state node (g.target position) with
        | (state, true) => handOut visitor node (g.ahead (position + 1) _) state
        | (state, false) => state)
      split
      · rw [ih (by omega), Nat.add_right_comm, Nat.add_assoc]
      · rfl

namespace WellFormed

variable {g : Graph} (wellFormed : g.WellFormed)

include wellFormed

theorem degree_eq {node : Nat} (h : node < g.nodeCount) :
    g.degree node = .ok (g.row node).length := by
  have room := wellFormed.capacity_offsets
  rw [degree, fetch_of_lt _ (by omega), fetch_of_lt _ (by omega), length_row]
  rfl

theorem visit_eq {σ : Type} {node : Nat} (h : node < g.nodeCount)
    (visitor : σ → Nat → Nat → σ × Bool) (state : σ) :
    g.visit node visitor state = .ok (handOut visitor node (g.row node) state) := by
  have room := wellFormed.capacity_offsets
  have forward := wellFormed.rows_forward node h
  have whole : g.rowStart node + (g.rowStop node - g.rowStart node) = g.rowStop node := by omega
  rw [visit, fetch_of_lt _ (by omega), fetch_of_lt _ (by omega), row_eq_ahead, ← whole]
  exact g.visit_go node visitor _ (whole ▸ wellFormed.rowStop_le h) state

theorem neighbors_eq {node : Nat} (h : node < g.nodeCount) :
    g.neighbors node = .ok (g.row node) := by
  rw [neighbors, wellFormed.degree_eq h, wellFormed.visit_eq h]
  show Except.ok (handOut _ node (g.row node) #[]).toList = _
  rw [handOut_eq_foldl Array.push, List.foldl_push_eq_append', Array.toList_append, List.nil_append]

theorem degree_of_le {node : Nat} (h : g.nodeCount ≤ node) :
    g.degree node = .error (.indexOutOfBounds (node + 1) (g.nodeCount + 1)) := by
  have room := wellFormed.capacity_offsets
  rw [degree, fetch_of_le _ (by omega), room]
  rfl

theorem neighbors_of_le {node : Nat} (h : g.nodeCount ≤ node) :
    g.neighbors node = .error (.indexOutOfBounds (node + 1) (g.nodeCount + 1)) := by
  rw [neighbors, wellFormed.degree_of_le h]
  rfl

theorem neighbors_eq_ok_iff {node : Nat} {targets : List Nat} :
    g.neighbors node = .ok targets ↔ node < g.nodeCount ∧ g.row node = targets := by
  by_cases h : node < g.nodeCount
  · rw [wellFormed.neighbors_eq h]
    simp [h]
  · rw [wellFormed.neighbors_of_le (Nat.le_of_not_lt h)]
    simp [h]

end WellFormed

end GraphAnalytics.Graph
