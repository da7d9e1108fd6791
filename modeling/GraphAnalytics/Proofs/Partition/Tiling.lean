/-
# Partitions lie one behind the other

Both policies append partitions at the end, each of which begins where the one before it stops and
holds a node, but no more nodes than a partition may. `Tiles` says so of a list of partitions between
two nodes, and is what each policy keeps while it goes over the nodes: batches tile the nodes in
front of the next batch, and closed partitions tile the nodes in front of the open one.
-/

import GraphAnalytics.Partition.Split
import GraphAnalytics.Proofs.Word
import Mathlib.Data.List.Chain

namespace GraphAnalytics.Partition

/-- The partitions lie one behind the other between two nodes, and none is empty or too long. -/
inductive Tiles : Nat → List Partition → Nat → Prop
  | nil (start : Nat) : Tiles start [] start
  | cons {start stop : Nat} {p : Partition} {partitions : List Partition} (begins : p.start = start)
      (positive : 0 < p.count) (short : p.count ≤ maxNodeCount)
      (rest : Tiles p.stop partitions stop) : Tiles start (p :: partitions) stop

namespace Tiles

variable {start middle stop : Nat} {partitions : List Partition}

theorem le (tiles : Tiles start partitions stop) : start ≤ stop := by
  induction tiles with
  | nil => exact Nat.le_refl _
  | cons begins positive short rest ih => exact begins ▸ Nat.le_trans (Nat.le_add_right _ _) ih

theorem concat (tiles : Tiles start partitions middle) (less : middle < stop)
    (few : stop - middle ≤ maxNodeCount) :
    Tiles start (partitions ++ [⟨middle, stop - middle⟩]) stop := by
  induction tiles with
  | nil middle =>
      refine .cons rfl (Nat.sub_pos_of_lt less) few ?_
      rw [Partition.stop, Nat.add_sub_cancel' (Nat.le_of_lt less)]
      exact .nil stop
  | cons begins positive short rest ih => exact .cons begins positive short (ih less few)

theorem flatMap_nodes (tiles : Tiles start partitions stop) :
    partitions.flatMap nodes = List.range' start (stop - start) := by
  induction tiles with
  | nil start => rw [Nat.sub_self]; rfl
  | @cons start stop p partitions begins positive short rest ih =>
      have le : p.start + p.count ≤ stop := rest.le
      rw [List.flatMap_cons, ih, nodes, Partition.stop, List.range'_append_1, begins]
      congr 1
      omega

/-- There are no partitions exactly if there is no node between the two. -/
theorem eq_nil_iff (tiles : Tiles start partitions stop) : partitions = [] ↔ start = stop := by
  cases tiles with
  | nil => exact iff_of_true rfl rfl
  | @cons _ _ p partitions begins positive short rest =>
      have le : p.start + p.count ≤ stop := rest.le
      exact iff_of_false (List.cons_ne_nil _ _) (by omega)

theorem head_start (tiles : Tiles start partitions stop) :
    ∀ p ∈ partitions.head?, p.start = start := by
  cases tiles with
  | nil => nofun
  | cons begins positive short rest =>
      rintro _ ⟨⟩
      exact begins

theorem getLast_stop (tiles : Tiles start partitions stop) :
    ∀ p ∈ partitions.getLast?, p.stop = stop := by
  induction tiles with
  | nil => nofun
  | cons begins positive short rest ih =>
      cases rest with
      | nil =>
          rintro _ ⟨⟩
          rfl
      | cons => rwa [List.getLast?_cons_cons]

theorem isChain (tiles : Tiles start partitions stop) :
    partitions.IsChain fun p q => q.start = p.stop := by
  induction tiles with
  | nil => exact .nil
  | cons begins positive short rest ih => exact List.isChain_cons.mpr ⟨rest.head_start, ih⟩

/-- Every partition holds a node, not too many of them, and none beyond the last. -/
theorem of_mem (tiles : Tiles start partitions stop) {p : Partition} (member : p ∈ partitions) :
    0 < p.count ∧ p.count ≤ maxNodeCount ∧ p.stop ≤ stop := by
  induction tiles with
  | nil => cases member
  | cons begins positive short rest ih =>
      rcases List.mem_cons.mp member with rfl | later
      · exact ⟨positive, short, rest.le⟩
      · exact ih later

end Tiles

/-! ### Batches -/

def batch (nodeCount size number : Nat) : Partition :=
  ⟨number * size, min size (nodeCount - number * size)⟩

theorem tiles_batch {nodeCount size : Nat} (positive : 0 < size) (small : size ≤ maxNodeCount)
    {number : Nat} (few : number ≤ Word.ceilDiv nodeCount size) :
    Tiles 0 ((List.range number).map (batch nodeCount size)) (min (number * size) nodeCount) := by
  induction number with
  | zero =>
      rw [Nat.zero_mul, Nat.zero_min]
      exact .nil 0
  | succ number ih =>
      have less := Word.mul_lt_of_lt_ceilDiv positive few
      have before := ih (Nat.le_of_lt few)
      rw [Nat.min_eq_left (Nat.le_of_lt less)] at before
      have next : min ((number + 1) * size) nodeCount - number * size =
          min size (nodeCount - number * size) := by
        rw [Nat.succ_mul]
        omega
      rw [List.range_succ, List.map_append, List.map_singleton, batch, ← next]
      refine before.concat ?_ (next ▸ Nat.le_trans (Nat.min_le_left _ _) small)
      rw [Nat.succ_mul]
      omega

/-- Batches of a size that a partition may have are cut, if their list can be addressed. -/
theorem batches_eq {nodeCount size : Nat} (positive : 0 < size) (small : size ≤ maxNodeCount) :
    batches nodeCount size =
      if Memory.Addressable (Word.ceilDiv nodeCount size) entryBytes then
        .ok ((List.range (Word.ceilDiv nodeCount size)).map (batch nodeCount size))
      else .error .capacityOverflow := by
  rw [batches, if_neg (Nat.ne_of_gt positive), if_neg (Nat.not_lt.mpr small), ite_not]
  rfl

theorem tiles_batches {nodeCount size : Nat} (positive : 0 < size) (small : size ≤ maxNodeCount) :
    Tiles 0 ((List.range (Word.ceilDiv nodeCount size)).map (batch nodeCount size)) nodeCount := by
  have all := tiles_batch positive small (Nat.le_refl (Word.ceilDiv nodeCount size))
  rwa [Nat.min_eq_right (Word.le_ceilDiv_mul positive)] at all

theorem tiles_of_batches {nodeCount size : Nat} {partitions : List Partition}
    (ok : batches nodeCount size = .ok partitions) : Tiles 0 partitions nodeCount := by
  unfold batches at ok
  split at ok
  · cases ok
  split at ok
  · cases ok
  split at ok
  · cases ok
  next notZero notLarge _ =>
  exact Except.ok.inj ok ▸ tiles_batches (Nat.pos_of_ne_zero notZero) (Nat.le_of_not_lt notLarge)

/-! ### Balanced partitions -/

/-- The closed partitions tile what is in front of the open one, and that is not too long. -/
structure Cut.Tiled (cut : Cut) (node : Nat) : Prop where
  start_le : cut.start ≤ node
  open_le : node - cut.start ≤ maxNodeCount
  tiles : Tiles 0 cut.closed.toList cut.start

namespace Cut

variable {cut : Cut} {node : Nat}

theorem Tiled.close (tiled : cut.Tiled node) (less : cut.start < node) :
    (cut.close node).Tiled node where
  start_le := Nat.le_refl node
  open_le := by
    rw [Cut.close, Nat.sub_self]
    exact Nat.zero_le _
  tiles := by
    rw [Cut.close, Array.toList_push]
    exact tiled.tiles.concat less tiled.open_le

/-- A partition that is not full has room for one more node. -/
theorem Tiled.extend (tiled : cut.Tiled node) (room : ¬ cut.Full node) (sum : Nat) :
    Tiled { cut with sum } (node + 1) where
  start_le := Nat.le_succ_of_le tiled.start_le
  open_le := by
    have bound : 1 ≤ maxNodeCount := by decide
    show node + 1 - cut.start ≤ maxNodeCount
    by_cases begun : cut.start < node
    · have fits : Fits ⟨cut.start, node - cut.start + 1⟩ cut.closed.size :=
        not_not.mp fun full => room ⟨begun, full⟩
      have few : node - cut.start + 1 ≤ maxNodeCount - cut.closed.size := fits.2
      omega
    · omega
  tiles := tiled.tiles

theorem not_full_close (cut : Cut) (node : Nat) : ¬ (cut.close node).Full node :=
  fun full => Nat.lt_irrefl node full.1

/-- A node is put into the open partition, whether that is closed before, after, or not at all. -/
theorem Tiled.place (tiled : cut.Tiled node) (degree : Nat → Nat) (threshold : Nat) :
    (cut.place degree threshold node).Tiled (node + 1) := by
  have put : ∀ cut : Cut, cut.Tiled node → ¬ cut.Full node → ∀ sum,
      Tiled (if threshold ≤ sum then Cut.close { cut with sum } (node + 1) else { cut with sum })
        (node + 1) := by
    intro cut tiled room sum
    have extended := tiled.extend room sum
    split
    · exact extended.close (Nat.lt_succ_of_le tiled.start_le)
    · exact extended
  unfold Cut.place
  simp only
  split
  · next full => exact put _ (tiled.close full.1) (not_full_close cut node) _
  · next room => exact put _ tiled room _

theorem Tiled.foldl_place (degree : Nat → Nat) (threshold nodeCount : Nat) :
    ((List.range nodeCount).foldl (Cut.place degree threshold) {}).Tiled nodeCount := by
  induction nodeCount with
  | zero => exact ⟨Nat.le_refl 0, Nat.zero_le _, .nil 0⟩
  | succ node ih =>
      rw [List.range_succ, List.foldl_append]
      exact ih.place degree threshold

theorem Tiled.finish (tiled : cut.Tiled node) : Tiles 0 (cut.finish node) node := by
  unfold Cut.finish
  split
  · next less => exact (tiled.close less).tiles
  · next started =>
      have through : cut.start = node :=
        Nat.le_antisymm tiled.start_le (Nat.le_of_not_lt started)
      exact through ▸ tiled.tiles

end Cut

/-- Balanced partitions are cut, if the list that is set aside for them can be addressed. -/
theorem byDegree_eq {concurrency : Nat} (positive : 0 < concurrency) (nodeCount : Nat)
    (degree : Nat → Nat) :
    byDegree nodeCount concurrency degree =
      if nodeCount = 0 ∨ Memory.Addressable concurrency entryBytes then
        .ok (((List.range nodeCount).foldl
          (Cut.place degree (degreeShare nodeCount concurrency degree)) {}).finish nodeCount)
      else .error .capacityOverflow := by
  rw [byDegree, if_neg (Nat.ne_of_gt positive)]
  by_cases none : nodeCount = 0
  · rw [if_pos none, if_pos (.inl none), none]
    rfl
  · simp only [none, false_or, ite_not, if_false]

theorem tiles_of_byDegree {nodeCount concurrency : Nat} {degree : Nat → Nat}
    {partitions : List Partition} (ok : byDegree nodeCount concurrency degree = .ok partitions) :
    Tiles 0 partitions nodeCount := by
  have positive : 0 < concurrency := by
    refine Nat.pos_of_ne_zero fun none => ?_
    rw [byDegree, if_pos none] at ok
    cases ok
  rw [byDegree_eq positive] at ok
  split at ok
  · exact Except.ok.inj ok ▸ (Cut.Tiled.foldl_place degree _ nodeCount).finish
  · cases ok

end GraphAnalytics.Partition
