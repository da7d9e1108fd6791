/-
# Counters over the whole graph

The number of relationships and the incoming relationships of every node are read off the targets as
they are stored, the degrees and the neighbors off the rows. Targets before the first row are stored
and belong to no row, so the two views differ by what is in front of the first offset: they agree
exactly if the first row begins with the first target. Rows and pairs always give such a graph;
offsets and targets give one only if the first offset is zero, and nobody checks that it is.

The sort counts row by row. Its counters are therefore the incoming relationships that the rows
show, and not the stored ones.
-/

import GraphAnalytics.Proofs.Graph.Reading
import GraphAnalytics.Proofs.Paged.Elements
import GraphAnalytics.Proofs.Refusals
import GraphAnalytics.Proofs.TopologicalOrder.Sorted
import Mathlib.Data.Set.Card

namespace GraphAnalytics.Graph

/-! ### The stored targets -/

/-- The targets as they are stored are what is ahead of the first of them. -/
theorem toList_targets (g : Graph) : g.targets.toList = g.ahead 0 g.relationshipCount := by
  have words : (List.range g.relationshipCount).map g.targets.get? =
      ((List.range g.relationshipCount).map g.target).map some := by
    rw [List.map_map]
    refine List.map_congr_left fun position member => ?_
    show _ = some (wordAt g.targets position)
    rw [wordAt, g.targets.get?_of_lt (List.mem_range.mp member), Option.getD_some]
  refine List.map_injective_iff.mpr (Option.some_injective Nat) ?_
  rw [PagedArray.map_some_toList, ahead, Nat.sub_zero, ← List.range_eq_range']
  exact words

theorem getElem?_foldl_modify (targets : List Nat) (counts : Array Nat) (node : Nat) :
    (targets.foldl (fun counts target => counts.modify target (· + 1)) counts)[node]? =
      counts[node]?.map (· + targets.count node) := by
  induction targets generalizing counts with
  | nil => simp
  | cons target targets ih =>
      rw [List.foldl_cons, ih, Array.getElem?_modify, List.count_cons]
      by_cases here : target = node
      · subst here
        rw [if_pos rfl, Option.map_map]
        simp only [beq_self_eq_true, if_true]
        congr 1
        funext counted
        show counted + 1 + targets.count target = _
        omega
      · simp [here]

/-- The incoming relationships of a node are the stored targets that it is. -/
theorem getElem?_inDegrees (g : Graph) {node : Nat} (h : node < g.nodeCount) :
    g.inDegrees[node]? = some ((g.ahead 0 g.relationshipCount).count node) := by
  have stored : g.inDegrees = (g.ahead 0 g.relationshipCount).foldl
      (fun counts target => counts.modify target (· + 1)) (Array.replicate g.nodeCount 0) := by
    rw [← toList_targets, PagedArray.toList, List.foldl_flatMap]
    simp only [Array.foldl_toList]
    rfl
  rw [stored, getElem?_foldl_modify, Array.getElem?_replicate, if_pos h]
  simp

/-! ### The relationships that the rows show -/

/-- Where the neighbors show a node: sources and positions in the lists of their neighbors. -/
def incoming (g : Graph) (node : Nat) : Set (Nat × Nat) :=
  {place | ∃ targets, g.neighbors place.1 = .ok targets ∧ targets[place.2]? = some node}

def places (g : Graph) (node : Nat) : List (Nat × Nat) :=
  (List.range g.nodeCount).flatMap fun source => ((g.row source).idxsOf node).map (source, ·)

theorem length_places (g : Graph) (node : Nat) : (g.places node).length = g.arrivals node := by
  rw [places, arrivals, List.length_flatMap, List.count_flatMap]
  congr 1
  refine List.map_congr_left fun source _ => ?_
  rw [List.length_map, List.length_idxsOf]
  rfl

theorem nodup_places (g : Graph) (node : Nat) : (g.places node).Nodup := by
  refine List.nodup_flatMap.mpr ⟨fun source _ => ?_, List.nodup_range.imp fun ne => ?_⟩
  · exact List.nodup_idxsOf.map (Prod.mk_right_injective source)
  · rintro place left right
    obtain ⟨_, -, rfl⟩ := List.mem_map.mp left
    obtain ⟨_, -, same⟩ := List.mem_map.mp right
    exact ne (congrArg Prod.fst same).symm

namespace WellFormed

variable {g : Graph} (wellFormed : g.WellFormed)

include wellFormed

theorem mem_places {node : Nat} {place : Nat × Nat} :
    place ∈ g.places node ↔ place ∈ g.incoming node := by
  obtain ⟨source, position⟩ := place
  simp only [places, incoming, wellFormed.neighbors_eq_ok_iff, List.mem_flatMap, List.mem_range,
    List.mem_map, Set.mem_ofPred_eq, List.mem_idxsOf_iff_exists_getElem_pos, Prod.mk.injEq,
    beq_iff_eq]
  constructor
  · rintro ⟨_, inside, _, ⟨short, here⟩, rfl, rfl⟩
    exact ⟨_, ⟨inside, rfl⟩, List.getElem?_eq_some_iff.mpr ⟨short, here⟩⟩
  · rintro ⟨_, ⟨inside, rfl⟩, here⟩
    exact ⟨source, inside, position, List.getElem?_eq_some_iff.mp here, rfl, rfl⟩

theorem ncard_incoming (node : Nat) : (g.incoming node).ncard = g.arrivals node := by
  have same : g.incoming node = ((g.places node).toFinset : Set (Nat × Nat)) := by
    ext place
    rw [List.coe_toFinset, Set.mem_ofPred_eq, wellFormed.mem_places]
  rw [same, Set.ncard_coe_finset, List.toFinset_card_of_nodup (g.nodup_places node),
    length_places]

theorem arrivals_eq (node : Nat) :
    g.arrivals node = (g.ahead (g.rowStart 0) g.relationshipCount).count node := by
  rw [arrivals, wellFormed.flatMap_row (Nat.le_refl _), wellFormed.last_row]

theorem rowStart_zero_le : g.rowStart 0 ≤ g.relationshipCount := by
  rw [← wellFormed.last_row]
  exact wellFormed.rowStart_mono (Nat.zero_le _) (Nat.le_refl _)

/-- The degrees add up to the targets that belong to a row. -/
theorem degrees_eq : ∃ degrees, (List.range g.nodeCount).mapM g.degree = .ok degrees ∧
    g.relationshipCount = g.rowStart 0 + degrees.sum := by
  refine ⟨_, mapM_eq_ok fun node member => wellFormed.degree_eq (List.mem_range.mp member), ?_⟩
  rw [← List.length_flatMap, ← wellFormed.last_row]
  exact wellFormed.rowStart_eq_add (Nat.le_refl _)

/-- The incoming relationships that are stored are those that the rows show and those in front of
the first row. -/
theorem inDegrees_eq {node : Nat} (h : node < g.nodeCount) : g.inDegrees[node]? =
    some ((g.ahead 0 (g.rowStart 0)).count node + (g.incoming node).ncard) := by
  rw [getElem?_inDegrees g h, wellFormed.ncard_incoming, wellFormed.arrivals_eq,
    ← List.count_append, ahead_append g (Nat.zero_le _) wellFormed.rowStart_zero_le]

end WellFormed

/-- The counters over the whole graph agree with what the nodes answer one by one. -/
structure Tallied (g : Graph) : Prop where
  relationships : ∃ degrees, (List.range g.nodeCount).mapM g.degree = .ok degrees ∧
    g.relationshipCount = degrees.sum
  incoming : ∀ node < g.nodeCount, g.inDegrees[node]? = some (g.incoming node).ncard

/-- The counters agree with the nodes exactly if no target is in front of the first row. -/
theorem WellFormed.tallied_iff {g : Graph} (wellFormed : g.WellFormed) :
    g.Tallied ↔ g.rowStart 0 = 0 := by
  obtain ⟨degrees, answered, total⟩ := wellFormed.degrees_eq
  constructor
  · rintro ⟨⟨degrees', answered', total'⟩, -⟩
    obtain rfl := Except.ok.inj (answered.symm.trans answered')
    omega
  · intro first
    refine ⟨⟨degrees, answered, by omega⟩, fun node h => ?_⟩
    rw [wellFormed.inDegrees_eq h, first, g.ahead_of_le (Nat.le_refl 0), List.count_nil,
      Nat.zero_add]

/-- The counting phase of a sort that succeeds counts the incoming relationships that the rows show.
-/
theorem WellFormed.counted_eq {π : Type} [Progress.Sink π] {g : Graph} (wellFormed : g.WellFormed)
    {executor : Executor} (lawful : executor.Lawful) {settings : Settings}
    {partitions : List Partition} (cut : settings.partitions g = .ok partitions)
    {cancelAt : Option CancelPoint} {counted : TopologicalOrder.Counting} {before after : Context π}
    (ok : (Phase.run executor (TopologicalOrder.counting g) partitions
      ⟨.replicate g.nodeCount 0, cancelAt⟩).perform before = (.ok counted, after))
    {node : Nat} (h : node < g.nodeCount) :
    counted.inDegrees.value node = Word.wrapSigned (g.incoming node).ncard := by
  obtain ⟨-, arrivals⟩ := TopologicalOrder.arrivals_of_runs wellFormed
    (Settings.flatMap_nodes_of_partitions cut) (Phase.runs_of_run lawful ok)
  rw [arrivals node h, wellFormed.ncard_incoming]

/-! ### Agreement -/

/-- Counters over the whole graph exceed what the nodes answer by the targets in front of the first
row, and so they agree exactly if there are none. Rows and pairs put none there. The counters of a
sort never include them. -/
theorem Built.counters_agree_iff {g : Graph} (built : g.Built) :
    (g.Tallied ↔ g.rowStart 0 = 0) ∧
    ((∃ rows, ofRows rows = .ok g) ∨ (∃ nodeCount edges, ofEdges nodeCount edges = .ok g) →
      g.Tallied) ∧
    (∃ degrees, (List.range g.nodeCount).mapM g.degree = .ok degrees ∧
      g.relationshipCount = g.rowStart 0 + degrees.sum) ∧
    (∀ node < g.nodeCount, g.inDegrees[node]? =
      some ((g.ahead 0 (g.rowStart 0)).count node + (g.incoming node).ncard)) ∧
    ∀ (π : Type) [Progress.Sink π] (executor : Executor) (settings : Settings)
      (partitions : List Partition) (cancelAt : Option CancelPoint)
      (counted : TopologicalOrder.Counting) (before after : Context π),
      executor.Lawful → settings.partitions g = .ok partitions →
      (Phase.run executor (TopologicalOrder.counting g) partitions
        ⟨.replicate g.nodeCount 0, cancelAt⟩).perform before = (.ok counted, after) →
      ∀ node < g.nodeCount,
        counted.inDegrees.value node = Word.wrapSigned (g.incoming node).ncard ∧
        (g.Tallied → ∃ stored : Nat, g.inDegrees[node]? = some stored ∧
          counted.inDegrees.value node = Word.wrapSigned stored) := by
  have wellFormed := built.wellFormed
  refine ⟨wellFormed.tallied_iff, fun made => wellFormed.tallied_iff.mpr ?_, wellFormed.degrees_eq,
    fun node h => wellFormed.inDegrees_eq h, ?_⟩
  · rcases made with ⟨rows, ok⟩ | ⟨nodeCount, edges, ok⟩
    · exact (begins_of_ofRows ok).begins 0 (Nat.zero_le _)
    · rw [(begins_of_ofEdges ok).begins 0 (Nat.zero_le _)]
      simp
  · intro π _ executor settings partitions cancelAt counted before after lawful cut ok node h
    have value := wellFormed.counted_eq lawful cut ok h
    exact ⟨value, fun tallied => ⟨_, tallied.incoming node h, value⟩⟩

/-- A target in front of the only row is a relationship that no node has. -/
theorem exists_not_tallied : ∃ g, ofParts #[1, 1] #[0] = .ok g ∧ g.relationshipCount = 1 ∧
    g.degree 0 = .ok 0 ∧ g.inDegrees = #[1] ∧ g.neighbors 0 = .ok [] ∧ ¬ g.Tallied := by
  have ok : ofParts #[1, 1] #[0] = .ok { offsets := packed #[1, 1], targets := packed #[0] } := rfl
  refine ⟨_, ok, rfl, rfl, rfl, rfl, fun tallied => ?_⟩
  have first := (wellFormed_of_ofParts ok).tallied_iff.mp tallied
  cases first

/-- The sample has a target in front of its first row. Node `4` is stored twice and shown once, and
a sort counts it once. -/
theorem counters_agree_iff_sample : sample.Built ∧ ¬ sample.Tallied ∧
    sample.inDegrees[4]? = some 2 ∧ (sample.incoming 4).ncard = 1 ∧
    ∃ (counted : TopologicalOrder.Counting) (after : Context Progress.Silent),
      (Phase.run (.singleWorker 400) (TopologicalOrder.counting sample) [⟨0, 5⟩]
        ⟨.replicate 5 0, none⟩).perform { sink := .silent } = (.ok counted, after) ∧
      counted.inDegrees.value 4 = 1 := by
  obtain ⟨tallied, -, -, stored, counts⟩ := Built.counters_agree_iff built_sample
  have twice : sample.inDegrees[4]? = some 2 := by decide +kernel
  have front : (sample.ahead 0 (sample.rowStart 0)).count 4 = 1 := by decide +kernel
  have once : (sample.incoming 4).ncard = 1 := by
    have total := Option.some.inj (twice.symm.trans (stored 4 (by decide)))
    omega
  have runs : ((Phase.run (.singleWorker 400) (TopologicalOrder.counting sample) [⟨0, 5⟩]
      ⟨.replicate 5 0, none⟩).perform
        ({ sink := .silent } : Context Progress.Silent)).1.map (fun _ => ()) = .ok () := by
    decide +kernel
  obtain ⟨counted, after, ok, -⟩ := Run.exists_of_map_perform runs
  refine ⟨built_sample, fun agree => ?_, twice, once, counted, after, ok, ?_⟩
  · have first := tallied.mp agree
    revert first
    decide +kernel
  · have cut : Settings.partitions { concurrency := 1, minBatch := 5 } sample = .ok [⟨0, 5⟩] := by
      decide +kernel
    rw [(counts _ _ _ _ _ _ _ _ (Executor.singleWorker_lawful 400) cut ok 4 (by decide)).1, once]
    rfl

end GraphAnalytics.Graph
