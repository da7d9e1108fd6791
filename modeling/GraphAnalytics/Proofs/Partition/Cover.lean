/-
# Partitions cover the nodes

Whichever policy is used and whatever its settings, the partitions lie one behind the other from the
first node to the last, so reading them first to last gives every node once and in ascending order.
A list is refused only if the room that is set aside for it cannot be addressed, and none of its
partitions is longer than a partition may be.
-/

import GraphAnalytics.Proofs.Partition.Tiling
import GraphAnalytics.Settings

namespace GraphAnalytics.Partition

/-- The partitions are an exact cover of the first nodes, in order: they begin at the first node,
lie one behind the other and stop behind the last node, and none is empty. So there are partitions
if there are nodes; read first to last they hold every node once, in ascending order; and each can
be made from its span. -/
structure Covers (nodeCount : Nat) (partitions : List Partition) : Prop where
  head_start : ∀ p ∈ partitions.head?, p.start = 0
  isChain : partitions.IsChain fun p q => q.start = p.stop
  getLast_stop : ∀ p ∈ partitions.getLast?, p.stop = nodeCount
  count_pos : ∀ p ∈ partitions, 0 < p.count
  eq_nil_iff : partitions = [] ↔ nodeCount = 0
  nodes_eq : partitions.flatMap nodes = List.range nodeCount
  ofSpan_eq : ∀ p ∈ partitions, ofSpan p.start p.count = .ok p

/-- If there is room for it the answer is a list that covers the nodes, and otherwise the room is
refused. -/
def Listed (room : Prop) (nodeCount : Nat) (outcome : Except Violation (List Partition)) : Prop :=
  (room ∧ ∃ partitions, outcome = .ok partitions ∧ Covers nodeCount partitions) ∨
    ¬ room ∧ outcome = .error .capacityOverflow

variable {nodeCount : Nat} {partitions : List Partition}

theorem Tiles.nodes_eq (tiles : Tiles 0 partitions nodeCount) :
    partitions.flatMap nodes = List.range nodeCount := by
  rw [tiles.flatMap_nodes, Nat.sub_zero, List.range_eq_range']

theorem Tiles.covers (tiles : Tiles 0 partitions nodeCount) (word : nodeCount ≤ Word.top) :
    Covers nodeCount partitions where
  head_start := tiles.head_start
  isChain := tiles.isChain
  getLast_stop := tiles.getLast_stop
  count_pos _ member := (tiles.of_mem member).1
  eq_nil_iff := tiles.eq_nil_iff.trans eq_comm
  nodes_eq := tiles.nodes_eq
  ofSpan_eq p member := by
    obtain ⟨positive, short, within⟩ := tiles.of_mem member
    exact if_pos ⟨positive, short, Nat.le_trans within word⟩

theorem listed_ite {room : Prop} [Decidable room] (covers : Covers nodeCount partitions) :
    Listed room nodeCount (if room then .ok partitions else .error .capacityOverflow) := by
  split
  · next fits => exact .inl ⟨fits, _, rfl, covers⟩
  · next full => exact .inr ⟨full, rfl⟩

theorem Listed.covers_of_ok {room : Prop} (listed : Listed room nodeCount (.ok partitions)) :
    Covers nodeCount partitions := by
  rcases listed with ⟨-, answered, same, covers⟩ | ⟨-, refused⟩
  · exact Except.ok.inj same ▸ covers
  · cases refused

theorem lt_of_cover (cover : partitions.flatMap nodes = List.range nodeCount) {partition : Partition}
    (member : partition ∈ partitions) {node : Nat} (le : partition.start ≤ node)
    (lt : node < partition.stop) : node < nodeCount := by
  have covered : node ∈ partitions.flatMap nodes :=
    List.mem_flatMap.mpr ⟨partition, member, List.mem_range'_1.mpr ⟨le, lt⟩⟩
  rw [cover] at covered
  exact List.mem_range.mp covered

/-! ### Batches -/

theorem listed_batches {size : Nat} (positive : 0 < size) (small : size ≤ maxNodeCount)
    (word : nodeCount ≤ Word.top) :
    Listed (Memory.Addressable (Word.ceilDiv nodeCount size) entryBytes) nodeCount
      (batches nodeCount size) := by
  rw [batches_eq positive small]
  exact listed_ite ((tiles_batches positive small).covers word)

theorem evenly_eq {concurrency minBatch size : Nat}
    (known : batchSize nodeCount concurrency minBatch = .ok size) :
    evenly nodeCount concurrency minBatch = batches nodeCount size := by
  rw [evenly, known]
  rfl

theorem exists_batchSize {concurrency : Nat} (workers : 0 < concurrency) (nodeCount minBatch : Nat) :
    ∃ size, batchSize nodeCount concurrency minBatch = .ok size ∧ 0 < size ∧ size ≤ maxNodeCount ∧
      evenly nodeCount concurrency minBatch = batches nodeCount size := by
  have known : batchSize nodeCount concurrency minBatch =
      .ok (min (max (max (Word.ceilDiv nodeCount concurrency) minBatch) 1) maxNodeCount) :=
    if_neg (Nat.ne_of_gt workers)
  refine ⟨_, known, ?_, Nat.min_le_right _ _, evenly_eq known⟩
  exact Nat.lt_min.mpr ⟨Nat.lt_of_lt_of_le Nat.one_pos (Nat.le_max_right _ _), by decide⟩

theorem listed_evenly {concurrency : Nat} (workers : 0 < concurrency) (minBatch : Nat)
    (word : nodeCount ≤ Word.top) :
    ∃ size, batchSize nodeCount concurrency minBatch = .ok size ∧
      Listed (Memory.Addressable (Word.ceilDiv nodeCount size) entryBytes) nodeCount
        (evenly nodeCount concurrency minBatch) := by
  obtain ⟨size, known, positive, small, cut⟩ := exists_batchSize workers nodeCount minBatch
  exact ⟨size, known, cut ▸ listed_batches positive small word⟩

/-- With as many workers as nodes and no larger batches asked for, every node is a partition. -/
theorem length_of_evenly_nodeCount {nodeCount : Nat} (positive : 0 < nodeCount)
    (addressable : Memory.Addressable nodeCount entryBytes) :
    ∃ partitions, evenly nodeCount nodeCount 1 = .ok partitions ∧
      partitions.length = nodeCount := by
  have one : Word.ceilDiv nodeCount nodeCount = 1 :=
    Nat.div_eq_of_lt_le (by omega) (by omega)
  have all : Word.ceilDiv nodeCount 1 = nodeCount := by simp [Word.ceilDiv]
  have size : batchSize nodeCount nodeCount 1 = .ok 1 := by
    rw [batchSize, if_neg (Nat.ne_of_gt positive), one]
    rfl
  rw [evenly_eq size, batches_eq Nat.one_pos (by decide), all, if_pos addressable]
  exact ⟨_, rfl, by rw [List.length_map, List.length_range]⟩

/-! ### Balanced partitions -/

theorem listed_byDegree {concurrency : Nat} (workers : 0 < concurrency) (degree : Nat → Nat)
    (word : nodeCount ≤ Word.top) :
    Listed (nodeCount = 0 ∨ Memory.Addressable concurrency entryBytes) nodeCount
      (byDegree nodeCount concurrency degree) := by
  rw [byDegree_eq workers]
  exact listed_ite ((Cut.Tiled.foldl_place degree _ nodeCount).finish.covers word)

end GraphAnalytics.Partition

namespace GraphAnalytics.Settings

open GraphAnalytics.Partition

variable {settings : Settings} {nodeCount : Nat} {degree : Nat → Nat} {partitions : List Partition}

theorem tiles_of_split (ok : settings.split nodeCount degree = .ok partitions) :
    Tiles 0 partitions nodeCount := by
  unfold split at ok
  split at ok
  · cases size : batchSize nodeCount settings.concurrency settings.minBatch with
    | error violation =>
        rw [evenly, size] at ok
        cases ok
    | ok size => exact tiles_of_batches (evenly_eq size ▸ ok)
  · exact tiles_of_byDegree ok

/-- Under all settings the partitions of a graph hold every node once, in ascending order. -/
theorem flatMap_nodes_of_partitions {g : Graph} (ok : settings.partitions g = .ok partitions) :
    partitions.flatMap Partition.nodes = List.range g.nodeCount :=
  (tiles_of_split ok).nodes_eq

end GraphAnalytics.Settings

namespace GraphAnalytics.Partition

/-- For nodes with 64-bit ids, whatever their degrees, every way of splitting them answers an exact
cover in order, each partition of which is accepted, unless its list cannot be addressed. -/
theorem splits_cover {nodeCount : Nat} (word : nodeCount ≤ Word.top) (degree : Nat → Nat) :
    (∀ size, 0 < size → size ≤ maxNodeCount →
      Listed (Memory.Addressable (Word.ceilDiv nodeCount size) entryBytes) nodeCount
        (batches nodeCount size)) ∧
    (∀ concurrency minBatch, 0 < concurrency →
      ∃ size, batchSize nodeCount concurrency minBatch = .ok size ∧
        Listed (Memory.Addressable (Word.ceilDiv nodeCount size) entryBytes) nodeCount
          (evenly nodeCount concurrency minBatch)) ∧
    (∀ concurrency, 0 < concurrency →
      Listed (nodeCount = 0 ∨ Memory.Addressable concurrency entryBytes) nodeCount
        (byDegree nodeCount concurrency degree)) ∧
    ∀ settings : Settings, 0 < settings.concurrency →
      match settings.policy with
      | .range =>
          ∃ size, batchSize nodeCount settings.concurrency settings.minBatch = .ok size ∧
            Listed (Memory.Addressable (Word.ceilDiv nodeCount size) entryBytes) nodeCount
              (settings.split nodeCount degree)
      | .degree =>
          Listed (nodeCount = 0 ∨ Memory.Addressable settings.concurrency entryBytes) nodeCount
            (settings.split nodeCount degree) := by
  refine ⟨fun size positive small => listed_batches positive small word,
    fun concurrency minBatch workers => listed_evenly workers minBatch word,
    fun concurrency workers => listed_byDegree workers degree word, fun settings workers => ?_⟩
  obtain ⟨concurrency, minBatch, policy⟩ := settings
  cases policy with
  | range => exact listed_evenly workers minBatch word
  | degree => exact listed_byDegree workers degree word

/-- Ten nodes in batches of four, and a node with a hundred relationships among nodes with one each
for two workers. -/
theorem splits_cover_sample :
    10 ≤ Word.top ∧ 101 ≤ Word.top ∧ 4 ≤ maxNodeCount ∧
    Covers 10 [⟨0, 4⟩, ⟨4, 4⟩, ⟨8, 2⟩] ∧ Covers 101 [⟨0, 1⟩, ⟨1, 100⟩] := by
  have few : 10 ≤ Word.top := by decide
  have more : 101 ≤ Word.top := by decide
  have small : 4 ≤ maxNodeCount := by decide
  have batched := (splits_cover few fun _ => 0).1 4 (by decide) small
  have balanced := (splits_cover more fun node => if node = 0 then 100 else 1).2.2.2
    { concurrency := 2, policy := .degree } (by decide)
  have cut : batches 10 4 = .ok [⟨0, 4⟩, ⟨4, 4⟩, ⟨8, 2⟩] := by decide
  have split : Settings.split { concurrency := 2, policy := .degree } 101
      (fun node => if node = 0 then 100 else 1) = .ok [⟨0, 1⟩, ⟨1, 100⟩] := by decide +kernel
  rw [cut] at batched
  simp only [split] at balanced
  exact ⟨few, more, small, batched.covers_of_ok, balanced.covers_of_ok⟩

end GraphAnalytics.Partition
