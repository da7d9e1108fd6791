/-
# The constructors agree

A graph whose first row begins with the first target is determined by its rows. So the constructors
need not be compared array by array: each of them is shown to give the rows it was asked for, and
where these are the same the graphs are the same, offsets and targets included.

The counting sort is the one with an argument in it. While pairs are placed the cursor of a source
stands behind those of its pairs that have been placed already, and they stand in front of it in
their order. Rows of different sources do not get into each other's way because a row has room for
exactly the pairs of its source.

A constructor refuses with the first item that it cannot accept, whatever it has written by then.
The counting sort also refuses, whatever the pairs are, if there are as many nodes as the largest
word says: it would need one offset more than can be counted, so it gets none.
-/

import GraphAnalytics.Proofs.Graph.Built
import GraphAnalytics.Proofs.Graph.Reading
import GraphAnalytics.Proofs.Paged.Elements
import GraphAnalytics.Proofs.Refusals
import Mathlib.Data.List.Flatten

namespace GraphAnalytics.Graph

/-! ### Graphs are determined by their rows -/

theorem ext_wordAt {first second : PagedArray 8 Nat} (capacity : first.capacity = second.capacity)
    (words : ∀ index < first.capacity, wordAt first index = wordAt second index) :
    first = second := by
  refine PagedArray.ext_get? capacity fun index => ?_
  by_cases inside : index < first.capacity
  · have word := words index inside
    rw [wordAt, wordAt, first.get?_of_lt inside, second.get?_of_lt (capacity ▸ inside)] at word
    rw [first.get?_of_lt inside, second.get?_of_lt (capacity ▸ inside)]
    exact congrArg some word
  · rw [first.get?_of_le (Nat.le_of_not_lt inside),
      second.get?_of_le (capacity ▸ Nat.le_of_not_lt inside)]

def Draft.blank (rows : List (List Nat)) : Draft where
  offsets := .replicate (rows.length + 1) 0
  targets := .replicate rows.flatten.length 0

structure Draft.Holds (draft : Draft) (written : List Nat) : Prop where
  next : draft.next = written.length
  words : ∀ position < written.length,
    written[position]? = some (wordAt draft.targets position)

theorem Draft.Holds.append {nodeCount source : Nat} {row written : List Nat} {before after : Draft}
    (holds : before.Holds written)
    (ok : row.foldlM (Draft.append nodeCount source) before = .ok after)
    (room : written.length + row.length ≤ before.targets.capacity) :
    after.Holds (written ++ row) := by
  induction row generalizing before written with
  | nil =>
      obtain rfl := Except.ok.inj ok
      rwa [List.append_nil]
  | cons target row ih =>
      rw [List.foldlM_cons] at ok
      rw [List.length_cons] at room
      by_cases inside : target < nodeCount
      · rw [Draft.append, if_pos inside] at ok
        have held : Draft.Holds ⟨before.offsets, before.targets.set before.next target,
            before.next + 1⟩ (written ++ [target]) := by
          refine ⟨by simp [holds.next], fun position h => ?_⟩
          rw [wordAt_set, holds.next]
          rcases Nat.lt_or_eq_of_le (Nat.le_of_lt_succ (by simpa using h)) with earlier | rfl
          · rw [if_neg (by omega), List.getElem?_append_left earlier, holds.words position earlier]
          · rw [if_pos ⟨rfl, by omega⟩]
            simp
        have all := ih held ok (by
          rw [List.length_append, List.length_singleton]
          show _ ≤ before.targets.capacity
          omega)
        rwa [List.append_assoc, List.singleton_append] at all
      · rw [Draft.append, if_neg inside] at ok
        cases ok

def RefusesEdge (nodeCount : Nat) (edge : Nat × Nat) (violation : Violation) : Prop :=
  ¬ (edge.1 < nodeCount ∧ edge.2 < nodeCount) ∧
    violation = .danglingRelationship edge.1 edge.2 nodeCount

theorem countEdge_eq_error_iff {nodeCount : Nat} (counts : PagedArray 8 Nat) (edge : Nat × Nat)
    (violation : Violation) (room : counts.capacity = nodeCount + 1) :
    countEdge nodeCount counts edge = .error violation ↔ RefusesEdge nodeCount edge violation := by
  unfold countEdge RefusesEdge
  split
  · next inside =>
      rw [addAt_of_lt counts (by omega)]
      exact iff_of_false nofun fun refused => refused.1 inside
  · next outside => simp [outside, eq_comm]

/-- Pairs are refused for the first pair that is refused, if there are offsets for all nodes. -/
theorem ofEdges_eq_error_iff {nodeCount : Nat} {edges : List (Nat × Nat)} {violation : Violation}
    (fits : nodeCount < Word.top) : ofEdges nodeCount edges = .error violation ↔
      FirstRefused (RefusesEdge nodeCount) edges violation := by
  have first : edges.foldlM (countEdge nodeCount) (.replicate (nodeCount + 1) 0) =
      .error violation ↔ FirstRefused (RefusesEdge nodeCount) edges violation := by
    refine foldlM_eq_error_iff (fun counts => counts.capacity = nodeCount + 1) ?_
      countEdge_eq_error_iff rfl
    intro before edge after room counted
    obtain ⟨-, -, rfl⟩ := countEdge_eq_ok_iff.mp counted
    rw [PagedArray.capacity_modify, room]
  rw [ofEdges, Word.wrap_eq_self_iff.mpr fits, ← first]
  refine bind_eq_error_iff.trans (or_iff_left ?_)
  rintro ⟨counts, counted, refused⟩
  obtain ⟨offsets, added, -⟩ := exists_offsets counted
  rw [added] at refused
  cases refused

/-- The targets of a source, in the order of the pairs. -/
def rowOf (edges : List (Nat × Nat)) (source : Nat) : List Nat :=
  (edges.filter (·.1 = source)).map Prod.snd

theorem length_rowOf (edges : List (Nat × Nat)) (source : Nat) :
    (rowOf edges source).length = edges.countP (·.1 = source) := by
  rw [rowOf, List.length_map, List.countP_eq_length_filter]

theorem rowOf_append (first second : List (Nat × Nat)) (source : Nat) :
    rowOf (first ++ second) source = rowOf first source ++ rowOf second source := by
  rw [rowOf, List.filter_append, List.map_append, rowOf, rowOf]

def rowBegin (edges : List (Nat × Nat)) (source : Nat) : Nat := edges.countP (·.1 < source)

theorem rowBegin_succ (edges : List (Nat × Nat)) (source : Nat) :
    rowBegin edges (source + 1) = rowBegin edges source + (rowOf edges source).length := by
  rw [rowBegin, countP_lt_succ, length_rowOf, rowBegin]
  simp only [Nat.add_right_cancel_iff]

/-- Places in the row of a smaller source are in front of the row of a larger one. -/
theorem rowBegin_add_lt {edges : List (Nat × Nat)} {first second place : Nat}
    (less : first < second) (short : place < (rowOf edges first).length) :
    rowBegin edges first + place < rowBegin edges second := by
  have step := rowBegin_succ edges first
  have mono : rowBegin edges (first + 1) ≤ rowBegin edges second :=
    List.countP_mono_left fun edge _ h => decide_eq_true (by have := of_decide_eq_true h; omega)
  omega

/-- So many of the pairs have been placed: each cursor stands behind the placed pairs of its source,
and these are in its row from the beginning on. -/
structure Placed (nodeCount : Nat) (edges placed : List (Nat × Nat))
    (arrays : PagedArray 8 Nat × PagedArray 8 Nat) : Prop where
  sources : arrays.1.capacity = nodeCount
  room : arrays.2.capacity = edges.length
  cursors : ∀ source < nodeCount,
    wordAt arrays.1 source = rowBegin edges source + (rowOf placed source).length
  words : ∀ source < nodeCount, ∀ place < (rowOf placed source).length,
    (rowOf placed source)[place]? = some (wordAt arrays.2 (rowBegin edges source + place))

/-- The next pair goes behind those of its source and touches no other row. -/
theorem Placed.step {nodeCount : Nat} {edges before after : List (Nat × Nat)} {edge : Nat × Nat}
    {arrays : PagedArray 8 Nat × PagedArray 8 Nat} (placed : Placed nodeCount edges before arrays)
    (split : edges = before ++ edge :: after) (inside : edge.1 < nodeCount) :
    Placed nodeCount edges (before ++ [edge]) (placeEdge arrays edge) := by
  obtain ⟨cursors, targets⟩ := arrays
  have row (source : Nat) : rowOf (before ++ [edge]) source =
      rowOf before source ++ if edge.1 = source then [edge.2] else [] := by
    rw [rowOf_append]
    congr 1
    by_cases here : edge.1 = source <;> simp [rowOf, here]
  have slot : wordAt cursors edge.1 = rowBegin edges edge.1 + (rowOf before edge.1).length :=
    placed.cursors edge.1 inside
  have fits (source : Nat) :
      (rowOf (before ++ [edge]) source).length ≤ (rowOf edges source).length := by
    have more : edges = before ++ [edge] ++ after := by
      rw [split, List.append_assoc, List.singleton_append]
    rw [more, rowOf_append _ after, List.length_append]
    exact Nat.le_add_right _ _
  have free : (rowOf before edge.1).length < (rowOf edges edge.1).length := by
    have fits := fits edge.1
    rw [row, if_pos rfl, List.length_append, List.length_singleton] at fits
    exact fits
  refine ⟨placed.sources, placed.room, fun source h => ?_, fun source h place short => ?_⟩
  · show wordAt (cursors.set edge.1 _) source = _
    rw [wordAt_set, row, slot]
    by_cases here : edge.1 = source
    · subst here
      rw [if_pos ⟨rfl, placed.sources ▸ h⟩, if_pos rfl, List.length_append, List.length_singleton,
        Nat.add_assoc]
    · rw [if_neg fun both => here both.1, if_neg here, List.append_nil]
      exact placed.cursors source h
  · show _ = some (wordAt (targets.set (wordAt cursors edge.1) edge.2) _)
    rw [wordAt_set, slot]
    rw [row] at short ⊢
    by_cases here : edge.1 = source
    · subst here
      rw [if_pos rfl] at short ⊢
      rw [List.length_append, List.length_singleton] at short
      rcases Nat.lt_or_eq_of_le (Nat.le_of_lt_succ short) with earlier | rfl
      · rw [if_neg (by omega), List.getElem?_append_left earlier]
        exact placed.words edge.1 h place earlier
      · have inRoom : rowBegin edges edge.1 + (rowOf before edge.1).length < targets.capacity := by
          have room : targets.capacity = edges.length := placed.room
          exact room ▸ Nat.lt_of_lt_of_le (rowBegin_add_lt (Nat.lt_succ_self _) free)
            List.countP_le_length
        rw [if_pos ⟨rfl, inRoom⟩]
        simp
    · rw [if_neg here, List.append_nil] at short ⊢
      have elsewhere : rowBegin edges edge.1 + (rowOf before edge.1).length ≠
          rowBegin edges source + place := by
        have short' : place < (rowOf edges source).length := by
          have fits := fits source
          rw [row, if_neg here, List.append_nil] at fits
          omega
        rcases Nat.lt_or_gt_of_ne here with less | greater
        · have := rowBegin_add_lt less free
          omega
        · have := rowBegin_add_lt greater short'
          omega
      rw [if_neg fun both => elsewhere both.1]
      exact placed.words source h place short

theorem Placed.run {nodeCount : Nat} {edges before after : List (Nat × Nat)}
    {arrays : PagedArray 8 Nat × PagedArray 8 Nat} (placed : Placed nodeCount edges before arrays)
    (split : edges = before ++ after) (inside : ∀ edge ∈ edges, edge.1 < nodeCount) :
    Placed nodeCount edges edges (after.foldl placeEdge arrays) := by
  induction after generalizing before arrays with
  | nil =>
      rw [List.append_nil] at split
      exact split ▸ placed
  | cons edge after ih =>
      have member : edge ∈ edges := split ▸ List.mem_append_right _ List.mem_cons_self
      exact ih (placed.step split (inside edge member))
        (by rw [split, List.append_assoc, List.singleton_append])

/-- Pairs are accepted if their ends are nodes and there are offsets for all nodes. -/
theorem exists_ofEdges_iff {nodeCount : Nat} {edges : List (Nat × Nat)} :
    (∃ g, ofEdges nodeCount edges = .ok g) ↔
      nodeCount < Word.top ∧ ∀ edge ∈ edges, edge.1 < nodeCount ∧ edge.2 < nodeCount := by
  constructor
  · rintro ⟨g, ok⟩
    obtain ⟨fits, counts, offsets, counted, -⟩ := ofEdges_eq_ok ok
    exact ⟨fits, (of_countEdges counted).1⟩
  · rintro ⟨fits, inside⟩
    refine exists_ok_of_forall_ne_error fun violation refused => ?_
    obtain ⟨before, edge, after, rfl, -, outside, -⟩ := (ofEdges_eq_error_iff fits).mp refused
    exact outside (inside edge (List.mem_append_right _ List.mem_cons_self))

end GraphAnalytics.Graph
