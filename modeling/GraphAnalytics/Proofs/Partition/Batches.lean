/-
# Batches are uniform

All batches but the last have the same length, and the last has what remains. The length is a
worker's share of the nodes, raised to the minimum that was asked for and then lowered to what a
partition may hold. Only the last of these steps can make it less than the share, so there are more
batches than workers only if the nodes are too many for as many of the longest partitions.

The batches are known in closed form. `Cuts` is the loop that cuts them off, in steps that stay in a
word: it comes to its end, and with the same batches, so it neither overflows nor underflows, and
nor do the numbers that are found before it. What can fail is to set room aside for the list, when
there are so many batches that it could not be addressed (`evenly_unaddressable`).
-/

import GraphAnalytics.Proofs.Partition.Cover

namespace GraphAnalytics.Partition

open Word

/-- The batch length for workers, found in steps that stay in a word. -/
def batchSize? (nodeCount concurrency minBatch : Nat) : Option Nat :=
  (ceilDiv? nodeCount concurrency).map fun share => min (max (max share minBatch) 1) maxNodeCount

/-- Batches that are cut off one after the other from a node on, in steps that stay in a word. -/
inductive Cuts (nodeCount size : Nat) : Nat → List Partition → Prop
  | stop {start : Nat} (through : ¬ start < nodeCount) : Cuts nodeCount size start []
  | turn {start left next : Nat} {partitions : List Partition} (more : start < nodeCount)
      (remain : sub? nodeCount start = some left) (go : add? start (min size left) = some next)
      (rest : Cuts nodeCount size next partitions) :
      Cuts nodeCount size start (⟨start, min size left⟩ :: partitions)

/-- What there is to say of the lengths and of the number of batches. There are as many as it takes.
All but the last have the length that was asked for, which is no less than the minimum unless that
is too much for a partition; the last has a node and is no longer. There are no more batches than
workers if the workers can take so many nodes. The loop that cuts them off in words has this result
and no other. -/
structure Uniform (nodeCount concurrency minBatch size : Nat) (partitions : List Partition) :
    Prop where
  length_eq : partitions.length = ceilDiv nodeCount size
  count_dropLast : ∀ p ∈ partitions.dropLast, p.count = size
  count_getLast : ∀ p ∈ partitions.getLast?, 1 ≤ p.count ∧ p.count ≤ size
  minBatch_le : ∀ p ∈ partitions.dropLast, min minBatch maxNodeCount ≤ p.count
  length_le : nodeCount ≤ concurrency * maxNodeCount → partitions.length ≤ concurrency
  cuts_iff : ∀ answer, Cuts nodeCount size 0 answer ↔ answer = partitions

variable {nodeCount concurrency minBatch size : Nat} {partitions : List Partition}

/-! ### The length of a batch -/

theorem batchSize?_eq (workers : 0 < concurrency) (word : nodeCount ≤ top)
    (known : batchSize nodeCount concurrency minBatch = .ok size) :
    batchSize? nodeCount concurrency minBatch = some size := by
  rw [batchSize, if_neg (Nat.ne_of_gt workers)] at known
  rw [batchSize?, ceilDiv?_eq workers word]
  exact congrArg some (Except.ok.inj known)

/-- A batch is at least a worker's share and at least the minimum, if a partition may hold these. -/
theorem min_le_size (known : batchSize nodeCount concurrency minBatch = .ok size) :
    min (ceilDiv nodeCount concurrency) maxNodeCount ≤ size ∧
      min minBatch maxNodeCount ≤ size := by
  unfold batchSize at known
  split at known
  · cases known
  · obtain rfl := Except.ok.inj known
    omega

theorem ceilDiv_size_le (workers : 0 < concurrency) (positive : 0 < size)
    (known : batchSize nodeCount concurrency minBatch = .ok size)
    (few : nodeCount ≤ concurrency * maxNodeCount) : ceilDiv nodeCount size ≤ concurrency := by
  rw [ceilDiv_le_iff positive]
  have shares : nodeCount ≤ concurrency * ceilDiv nodeCount concurrency := by
    rw [Nat.mul_comm]
    exact le_ceilDiv_mul workers
  calc nodeCount
      ≤ min (concurrency * ceilDiv nodeCount concurrency) (concurrency * maxNodeCount) :=
        Nat.le_min.mpr ⟨shares, few⟩
    _ = concurrency * min (ceilDiv nodeCount concurrency) maxNodeCount :=
        Nat.mul_min_mul_left _ _ _
    _ ≤ concurrency * size := Nat.mul_le_mul_left _ (min_le_size known).1

/-! ### The lengths of all batches -/

theorem count_batch {number : Nat} (positive : 0 < size)
    (followed : number + 1 < ceilDiv nodeCount size) :
    (batch nodeCount size number).count = size := by
  have less := mul_lt_of_lt_ceilDiv positive followed
  rw [Nat.succ_mul] at less
  exact Nat.min_eq_left (by omega)

theorem mem_dropLast_map_range {f : Nat → Partition} {total : Nat} {p : Partition}
    (member : p ∈ ((List.range total).map f).dropLast) :
    ∃ number, number + 1 < total ∧ f number = p := by
  cases total with
  | zero => cases member
  | succ total =>
      rw [List.range_succ, List.map_append, List.map_singleton, List.dropLast_concat] at member
      obtain ⟨number, less, rfl⟩ := List.mem_map.mp member
      exact ⟨number, Nat.succ_lt_succ (List.mem_range.mp less), rfl⟩

/-! ### The loop -/

/-- Partitions that tile the nodes, each as long as a batch may be there, are what the loop cuts
off. -/
theorem Tiles.cuts {start : Nat} (tiles : Tiles start partitions nodeCount) (word : nodeCount ≤ top)
    (counts : ∀ p ∈ partitions, p.count = min size (nodeCount - p.start)) :
    Cuts nodeCount size start partitions := by
  induction tiles with
  | nil start => exact .stop (Nat.lt_irrefl start)
  | @cons start stop p partitions begins positive short rest ih =>
      have within : p.start + p.count ≤ stop := rest.le
      have count : p.count = min size (stop - start) := begins ▸ counts p List.mem_cons_self
      have same : p = ⟨start, min size (stop - start)⟩ := by rw [← count, ← begins]
      rw [same, Partition.stop] at rest ih
      rw [same]
      refine .turn (by omega) (if_pos (by omega)) (if_pos (by omega)) (ih word ?_)
      exact fun q member => counts q (List.mem_cons_of_mem p member)

theorem Cuts.unique {start : Nat} {answer : List Partition}
    (cuts : Cuts nodeCount size start partitions) (others : Cuts nodeCount size start answer) :
    answer = partitions := by
  induction cuts generalizing answer with
  | stop through =>
      cases others with
      | stop => rfl
      | turn more => exact absurd more through
  | turn more remain go rest ih =>
      cases others with
      | stop through => exact absurd more through
      | turn _ remains goes others =>
          obtain rfl := Option.some.inj (remain.symm.trans remains)
          obtain rfl := Option.some.inj (go.symm.trans goes)
          rw [ih others]

/-! ### All batches -/

theorem uniform_batches (workers : 0 < concurrency) (word : nodeCount ≤ top)
    (positive : 0 < size) (small : size ≤ maxNodeCount)
    (known : batchSize nodeCount concurrency minBatch = .ok size) :
    Uniform nodeCount concurrency minBatch size
      ((List.range (ceilDiv nodeCount size)).map (batch nodeCount size)) := by
  have tiles : Tiles 0 ((List.range (ceilDiv nodeCount size)).map (batch nodeCount size))
      nodeCount := tiles_batches positive small
  have counts : ∀ p ∈ (List.range (ceilDiv nodeCount size)).map (batch nodeCount size),
      p.count = min size (nodeCount - p.start) := by
    intro p member
    obtain ⟨number, -, rfl⟩ := List.mem_map.mp member
    rfl
  have whole : ∀ p ∈ ((List.range (ceilDiv nodeCount size)).map (batch nodeCount size)).dropLast,
      p.count = size := by
    intro p member
    obtain ⟨number, followed, rfl⟩ := mem_dropLast_map_range member
    exact count_batch positive followed
  constructor
  case length_eq => rw [List.length_map, List.length_range]
  case count_dropLast => exact whole
  case count_getLast =>
    intro p last
    have member := List.mem_of_getLast? last
    exact ⟨(tiles.of_mem member).1, counts p member ▸ Nat.min_le_left _ _⟩
  case minBatch_le =>
    intro p member
    rw [whole p member]
    exact (min_le_size known).2
  case length_le =>
    intro few
    rw [List.length_map, List.length_range]
    exact ceilDiv_size_le workers positive known few
  case cuts_iff =>
    have cuts := tiles.cuts word counts
    exact fun answer => ⟨cuts.unique, fun same => same ▸ cuts⟩

/-- For nodes with 64-bit ids and any number of workers the batch length and the number of batches
are found without leaving a word. If the list can be addressed there is a uniform list of batches,
and otherwise the room is refused. -/
theorem evenly_uniform (word : nodeCount ≤ top) (workers : 0 < concurrency) (minBatch : Nat) :
    ∃ size, batchSize nodeCount concurrency minBatch = .ok size ∧
      batchSize? nodeCount concurrency minBatch = some size ∧
      ceilDiv? nodeCount size = some (ceilDiv nodeCount size) ∧
      if Memory.Addressable (ceilDiv nodeCount size) entryBytes then
        ∃ partitions, evenly nodeCount concurrency minBatch = .ok partitions ∧
          Uniform nodeCount concurrency minBatch size partitions
      else evenly nodeCount concurrency minBatch = .error .capacityOverflow := by
  obtain ⟨size, known, positive, small, cut⟩ := exists_batchSize workers nodeCount minBatch
  refine ⟨size, known, batchSize?_eq workers word known, ceilDiv?_eq positive word, ?_⟩
  rw [cut, batches_eq positive small]
  split
  · exact ⟨_, rfl, uniform_batches workers word positive small known⟩
  · rfl

/-- Three workers for ten nodes, none of whom is to have fewer than three: all but the last have
four. -/
theorem evenly_uniform_remainder :
    10 ≤ top ∧ 0 < 3 ∧ batchSize 10 3 3 = .ok 4 ∧ Memory.Addressable (ceilDiv 10 4) entryBytes ∧
      evenly 10 3 3 = .ok [⟨0, 4⟩, ⟨4, 4⟩, ⟨8, 2⟩] ∧
      Uniform 10 3 3 4 [⟨0, 4⟩, ⟨4, 4⟩, ⟨8, 2⟩] := by
  have word : 10 ≤ top := by decide
  have length : batchSize 10 3 3 = .ok 4 := by decide
  have room : Memory.Addressable (ceilDiv 10 4) entryBytes := by decide
  have answer : evenly 10 3 3 = .ok [⟨0, 4⟩, ⟨4, 4⟩, ⟨8, 2⟩] := by decide
  obtain ⟨size, known, -, -, listed⟩ := evenly_uniform word (by decide : 0 < 3) 3
  obtain rfl := Except.ok.inj (length.symm.trans known)
  rw [if_pos room] at listed
  obtain ⟨partitions, cut, uniform⟩ := listed
  exact ⟨word, by decide, length, room, answer,
    Except.ok.inj (cut.symm.trans answer) ▸ uniform⟩

/-- As many workers as nodes, each of whom has one: the batches are so many that no room can be set
aside for their list. -/
theorem evenly_unaddressable :
    0x800000000000000 ≤ top ∧ batchSize 0x800000000000000 0x800000000000000 1 = .ok 1 ∧
      ceilDiv 0x800000000000000 1 = 0x800000000000000 ∧
      ¬ ∃ partitions, evenly 0x800000000000000 0x800000000000000 1 = .ok partitions ∧
        partitions.length = 0x800000000000000 := by
  have refused : evenly 0x800000000000000 0x800000000000000 1 = .error .capacityOverflow := rfl
  refine ⟨by decide, rfl, by decide, ?_⟩
  rintro ⟨partitions, cut, -⟩
  rw [refused] at cut
  cases cut

end GraphAnalytics.Partition
