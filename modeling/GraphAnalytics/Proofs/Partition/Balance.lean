/-
# Degree-balanced partitions have their share and no more

A pass over the nodes closes a partition as soon as its degrees add up to the fair share of the
total. The sum that it keeps is clipped to a word, but so is the total of which it is a share, and
whether the share is reached can be told from the clipped sum. No partition gets so long that it has
to be closed for its length: every closed partition has a node, so there are never more of them than
nodes in front of the open one.

With that every partition but the last reaches its share with its last node, and as each of them
takes a share of the total there are no more of them than workers.
-/

import GraphAnalytics.Proofs.Partition.Tiling
import Mathlib.Algebra.GroupWithZero.Nat

namespace GraphAnalytics.Partition

open Word

/-- The degrees of the nodes of a partition, added up. -/
def degreeSum (degree : Nat → Nat) (p : Partition) : Nat := (p.nodes.map degree).sum

/-- The share of each worker in the degrees of the first nodes, of which no more count than a word
can hold. -/
def fairShare (nodeCount concurrency : Nat) (degree : Nat → Nat) : Nat :=
  max 1 (ceilDiv (min ((List.range nodeCount).map degree).sum top) concurrency)

/-- The partition has a share of the degrees with its last node, and had not without it. -/
structure Reaches (degree : Nat → Nat) (share : Nat) (p : Partition) : Prop where
  reached : share ≤ p.degreeSum degree
  before : degreeSum degree ⟨p.start, p.count - 1⟩ < share

/-- Every partition but the last has its share, none has more than its last node brings on top, and
there is at most one partition more than workers, which has no relationships then. -/
structure Balanced (nodeCount concurrency : Nat) (degree : Nat → Nat)
    (partitions : List Partition) : Prop where
  reaches : ∀ p ∈ partitions.dropLast, p.Reaches degree (fairShare nodeCount concurrency degree)
  degreeSum_le : ∀ p ∈ partitions,
    p.degreeSum degree ≤ fairShare nodeCount concurrency degree - 1 + degree (p.stop - 1)
  length_le : ((List.range nodeCount).map degree).sum ≤ top →
    partitions.length ≤ concurrency + 1
  degreeSum_getLast : ((List.range nodeCount).map degree).sum ≤ top →
    partitions.length = concurrency + 1 → ∀ p ∈ partitions.getLast?, p.degreeSum degree = 0

variable {degree : Nat → Nat} {nodeCount concurrency share : Nat}

/-! ### Sums -/

theorem degreeSum_concat (degree : Nat → Nat) {start node : Nat} (le : start ≤ node) :
    degreeSum degree ⟨start, node + 1 - start⟩ =
      degreeSum degree ⟨start, node - start⟩ + degree node := by
  have last : start + (node - start) = node := Nat.add_sub_cancel' le
  unfold degreeSum nodes
  simp only
  rw [Nat.succ_sub le, List.range'_1_concat, List.map_append, List.sum_append, last]
  rfl

/-- Clipping every partial sum clips the sum. -/
theorem totalDegree_eq (nodeCount : Nat) (degree : Nat → Nat) :
    totalDegree nodeCount degree = clip ((List.range nodeCount).map degree).sum := by
  unfold totalDegree
  induction nodeCount with
  | zero => rfl
  | succ node ih =>
      rw [List.range_succ, List.foldl_append, ih, List.map_append, List.sum_append]
      simp only [List.foldl_cons, List.foldl_nil, List.map_cons, List.map_nil, List.sum_cons,
        List.sum_nil, satAdd, clip]
      omega

theorem degreeShare_eq (nodeCount concurrency : Nat) (degree : Nat → Nat) :
    degreeShare nodeCount concurrency degree = fairShare nodeCount concurrency degree := by
  rw [degreeShare, totalDegree_eq, Nat.max_comm]
  rfl

theorem fairShare_pos : 0 < fairShare nodeCount concurrency degree :=
  Nat.lt_of_lt_of_le Nat.one_pos (Nat.le_max_left _ _)

theorem fairShare_le_top (workers : 0 < concurrency) :
    fairShare nodeCount concurrency degree ≤ top := by
  have le : ceilDiv (min ((List.range nodeCount).map degree).sum top) concurrency ≤ top :=
    ceilDiv_le_top workers (Nat.min_le_right _ _)
  exact Nat.max_le.mpr ⟨by decide, le⟩

theorem sum_le_mul_fairShare (workers : 0 < concurrency)
    (word : ((List.range nodeCount).map degree).sum ≤ top) :
    ((List.range nodeCount).map degree).sum ≤
      concurrency * fairShare nodeCount concurrency degree := by
  have whole := le_ceilDiv_mul (n := ((List.range nodeCount).map degree).sum) workers
  rw [Nat.mul_comm] at whole
  refine Nat.le_trans whole (Nat.mul_le_mul_left _ ?_)
  rw [fairShare, Nat.min_eq_left word]
  exact Nat.le_max_right _ _

/-! ### The pass over the nodes -/

theorem Tiles.length_le {start stop : Nat} {partitions : List Partition}
    (tiles : Tiles start partitions stop) : start + partitions.length ≤ stop := by
  induction tiles with
  | nil start => exact Nat.le_refl start
  | @cons start stop p partitions begins positive short rest ih =>
      rw [Partition.stop] at ih
      rw [List.length_cons]
      omega

/-- The closed partitions reach the share, and the open one does not, as its sum tells. -/
structure Cut.Weighed (degree : Nat → Nat) (share : Nat) (cut : Cut) (node : Nat) : Prop
    extends cut.Tiled node where
  sum_eq : cut.sum = clip (degreeSum degree ⟨cut.start, node - cut.start⟩)
  open_lt : degreeSum degree ⟨cut.start, node - cut.start⟩ < share
  reaches : ∀ p ∈ cut.closed.toList, p.Reaches degree share

namespace Cut

variable {cut : Cut} {node : Nat}

/-- As long as all nodes fit one partition, no partition gets too long. -/
theorem Weighed.not_full (weighed : cut.Weighed degree share node) (few : node < maxNodeCount) :
    ¬ cut.Full node := by
  rintro ⟨begun, full⟩
  have closed := weighed.tiles.length_le
  rw [Array.length_toList] at closed
  have short : node - cut.start + 1 ≤ maxNodeCount - cut.closed.size := by omega
  exact full ⟨by omega, short⟩

/-- A node is put into the open partition, and closes it if that has its share now. -/
theorem Weighed.place (weighed : cut.Weighed degree share node) (few : node < maxNodeCount)
    (positive : 0 < share) (word : share ≤ top) :
    (cut.place degree share node).Weighed degree share (node + 1) := by
  have room := weighed.not_full few
  have tiled := weighed.toTiled.place degree share
  have more := degreeSum_concat degree weighed.start_le
  have sum : satAdd cut.sum (degree node) =
      clip (degreeSum degree ⟨cut.start, node + 1 - cut.start⟩) := by
    rw [weighed.sum_eq, more, satAdd]
    simp only [clip]
    omega
  unfold Cut.place at tiled ⊢
  simp only [room, if_false, sum] at tiled ⊢
  have told : share ≤ clip (degreeSum degree ⟨cut.start, node + 1 - cut.start⟩) ↔
      share ≤ degreeSum degree ⟨cut.start, node + 1 - cut.start⟩ := by
    simp only [clip]
    omega
  split at tiled
  · next reached =>
      rw [if_pos reached]
      refine ⟨tiled, ?_, ?_, fun p member => ?_⟩
      · simp only [Cut.close, Nat.sub_self]
        rfl
      · simp only [Cut.close, Nat.sub_self]
        exact positive
      · rw [Cut.close, Array.toList_push, List.mem_append, List.mem_singleton] at member
        rcases member with old | rfl
        · exact weighed.reaches p old
        · have without : node + 1 - cut.start - 1 = node - cut.start := by omega
          exact ⟨told.mp reached, without ▸ weighed.open_lt⟩
  · next short =>
      rw [if_neg short]
      exact ⟨tiled, rfl, Nat.lt_of_not_le (mt told.mpr short), weighed.reaches⟩

theorem Weighed.foldl_place (degree : Nat → Nat) (positive : 0 < share) (word : share ≤ top)
    (few : nodeCount ≤ maxNodeCount) :
    ((List.range nodeCount).foldl (Cut.place degree share) {}).Weighed degree share
      nodeCount := by
  induction nodeCount with
  | zero => exact ⟨⟨Nat.le_refl 0, Nat.zero_le _, .nil 0⟩, rfl, positive, nofun⟩
  | succ node ih =>
      rw [List.range_succ, List.foldl_append]
      exact (ih (Nat.le_of_succ_le few)).place few positive word

/-- The answer is the closed partitions and, if nodes are left, one that has less than its share. -/
theorem Weighed.finish (weighed : cut.Weighed degree share nodeCount) :
    ∃ rest, cut.finish nodeCount = cut.closed.toList ++ rest ∧
      (rest = [] ∨ ∃ p, rest = [p] ∧ p.degreeSum degree < share) := by
  unfold Cut.finish
  split
  · exact ⟨_, Array.toList_push, .inr ⟨_, rfl, weighed.open_lt⟩⟩
  · exact ⟨[], (List.append_nil _).symm, .inl rfl⟩

end Cut

/-! ### Counting the shares -/

theorem length_mul_le_sum {partitions : List Partition}
    (reaches : ∀ p ∈ partitions, p.Reaches degree share) :
    partitions.length * share ≤ (partitions.map (degreeSum degree)).sum := by
  induction partitions with
  | nil => simp
  | cons p partitions ih =>
      have first := (reaches p List.mem_cons_self).reached
      have others := ih fun q member => reaches q (List.mem_cons_of_mem p member)
      rw [List.length_cons, Nat.succ_mul, List.map_cons, List.sum_cons]
      omega

theorem Tiles.sum_degreeSum (degree : Nat → Nat) {partitions : List Partition}
    (tiles : Tiles 0 partitions nodeCount) :
    (partitions.map (degreeSum degree)).sum = ((List.range nodeCount).map degree).sum := by
  have cover := tiles.flatMap_nodes
  rw [Nat.sub_zero, ← List.range_eq_range'] at cover
  rw [← cover, List.map_flatMap, List.flatMap_def, List.sum_flatten, List.map_map]
  rfl

/-- What the last node brings is all that a partition has beyond a share. -/
theorem Reaches.degreeSum_le {p : Partition} (reaches : p.Reaches degree share)
    (positive : 0 < p.count) : p.degreeSum degree ≤ share - 1 + degree (p.stop - 1) := by
  obtain ⟨start, count⟩ := p
  dsimp only at positive
  have last : start + count - 1 + 1 - start = count := by omega
  have others : start + count - 1 - start = count - 1 := by omega
  have more := degreeSum_concat degree (show start ≤ start + count - 1 by omega)
  have before := reaches.before
  rw [last, others] at more
  rw [more]
  dsimp only [Partition.stop] at before ⊢
  omega

/-- Closed partitions that reach the fair share, followed by at most one that does not, are
balanced. -/
theorem balanced_append {closed rest : List Partition} (workers : 0 < concurrency)
    (tiles : Tiles 0 (closed ++ rest) nodeCount)
    (reaches : ∀ p ∈ closed, p.Reaches degree (fairShare nodeCount concurrency degree))
    (last : rest = [] ∨
      ∃ p, rest = [p] ∧ p.degreeSum degree < fairShare nodeCount concurrency degree) :
    Balanced nodeCount concurrency degree (closed ++ rest) := by
  have taken := length_mul_le_sum reaches
  have total := tiles.sum_degreeSum degree
  have counted (word : ((List.range nodeCount).map degree).sum ≤ top) :
      closed.length ≤ concurrency ∧
        (closed.length = concurrency → (rest.map (degreeSum degree)).sum = 0) := by
    have shares := sum_le_mul_fairShare workers word
    rw [List.map_append, List.sum_append] at total
    refine ⟨Nat.le_of_mul_le_mul_right (c := fairShare nodeCount concurrency degree)
      (by omega) fairShare_pos, fun all => ?_⟩
    rw [all] at taken
    omega
  constructor
  case reaches =>
    intro p member
    rcases last with rfl | ⟨left, rfl, -⟩
    · rw [List.append_nil] at member
      exact reaches p (List.dropLast_subset _ member)
    · rw [List.dropLast_concat] at member
      exact reaches p member
  case degreeSum_le =>
    intro p member
    obtain inside | late := List.mem_append.mp member
    · exact (reaches p inside).degreeSum_le (tiles.of_mem member).1
    · rcases last with rfl | ⟨left, rfl, less⟩
      · cases late
      · obtain rfl := List.mem_singleton.mp late
        omega
  case length_le =>
    intro word
    have few := (counted word).1
    rcases last with rfl | ⟨left, rfl, -⟩ <;> simp only [List.length_append, List.length_nil,
      List.length_singleton] <;> omega
  case degreeSum_getLast =>
    intro word all p ended
    obtain ⟨few, idle⟩ := counted word
    rcases last with rfl | ⟨left, rfl, -⟩
    · rw [List.append_nil] at all
      omega
    · rw [List.length_append, List.length_singleton] at all
      rw [List.getLast?_concat] at ended
      obtain rfl := Option.some.inj ended
      simpa using idle (by omega)

/-- Nodes that would fit one partition are cut into balanced partitions, whatever their degrees, if
the list that is set aside for them can be addressed; otherwise nothing is cut. -/
theorem byDegree_balanced (few : nodeCount ≤ maxNodeCount) (workers : 0 < concurrency)
    (degree : Nat → Nat) :
    if nodeCount = 0 ∨ Memory.Addressable concurrency entryBytes then
      ∃ partitions, byDegree nodeCount concurrency degree = .ok partitions ∧
        Balanced nodeCount concurrency degree partitions
    else byDegree nodeCount concurrency degree = .error .capacityOverflow := by
  have cut := byDegree_eq workers nodeCount degree
  split
  · next room =>
      rw [if_pos room] at cut
      refine ⟨_, cut, ?_⟩
      have tiles := tiles_of_byDegree cut
      rw [degreeShare_eq] at tiles ⊢
      have word : fairShare nodeCount concurrency degree ≤ top := fairShare_le_top workers
      have weighed := Cut.Weighed.foldl_place degree fairShare_pos word few
      obtain ⟨rest, same, last⟩ := weighed.finish
      rw [same] at tiles ⊢
      exact balanced_append workers tiles weighed.reaches last
  · next full => rwa [if_neg full] at cut

/-- Two workers have their shares with the first two of three nodes, and the third, which has no
relationships, is left over. -/
theorem byDegree_balanced_leftover :
    3 ≤ maxNodeCount ∧ 0 < 2 ∧ Memory.Addressable 2 entryBytes ∧
    Balanced 3 2 (fun node => if node = 2 then 0 else 5) [⟨0, 1⟩, ⟨1, 1⟩, ⟨2, 1⟩] := by
  have few : 3 ≤ maxNodeCount := by decide
  have room : Memory.Addressable 2 entryBytes := by decide
  have balanced := byDegree_balanced few (show 0 < 2 by decide) fun node =>
    if node = 2 then 0 else 5
  rw [if_pos (.inr room)] at balanced
  obtain ⟨partitions, answered, balanced⟩ := balanced
  have cut : byDegree 3 2 (fun node => if node = 2 then 0 else 5) =
      .ok [⟨0, 1⟩, ⟨1, 1⟩, ⟨2, 1⟩] := by decide
  rw [cut] at answered
  exact ⟨few, by decide, room, Except.ok.inj answered ▸ balanced⟩

end GraphAnalytics.Partition
