/-
# Cancelled or complete

Cancellation may be requested before a computation, while any of its tasks makes any of its steps,
or not at all. A computation that answers nevertheless has the answer of one that was left alone,
and one that does not answer was cancelled (`cancelled_or_complete`). Nothing that a task leaves out
because it was told to stop is passed off as done.

There is one more way to stop, which has nothing to do with cancellation: a phase refuses more
partitions than it can number. Nothing is said where the list of partitions cannot be made.
-/

import GraphAnalytics.Proofs.Graph.Constructions
import GraphAnalytics.Proofs.Components.Stopping
import GraphAnalytics.Proofs.TopologicalOrder.Stopping

namespace GraphAnalytics

open Progress

variable {π α : Type} [Sink π]

/-- A computation over the given partitions has stopped with a reason, or its answer is right. -/
def Run.Settles (parts : List Partition) (Right : α → Prop) : Except Stop α × Context π → Prop
  | (.error stop, context) => stop.Justified parts context.raised
  | (.ok answer, _) => Right answer

omit [Sink π] in
theorem Run.Settles.imp {parts : List Partition} {Right Weaker : α → Prop}
    {outcome : Except Stop α × Context π} (settles : Settles parts Right outcome)
    (weaken : ∀ answer, Right answer → Weaker answer) : Settles parts Weaker outcome := by
  rcases outcome with ⟨stop | answer, context⟩
  · exact settles
  · exact weaken answer settles

/-- Whoever else runs the computation, in whatever context and whenever cancelled, gets an answer
that agrees if any. -/
def Run.Undisputed (computation : Executor → Option CancelPoint → Run π α)
    (Agrees : α → α → Prop) (answer : α) : Prop :=
  ∀ (executor : Executor) (cancelAt : Option CancelPoint) (context context' : Context π)
    (other : α), executor.Lawful →
      (computation executor cancelAt).perform context = (.ok other, context') → Agrees answer other

/-- A sort or a search stops because it was cancelled, or because it is cut into too many
partitions, or its answer is complete and that of every other run. -/
theorem cancelled_or_complete {executor : Executor} (lawful : executor.Lawful)
    (diligent : executor.Diligent) {g : Graph} (built : g.Built)
    (fits : g.relationshipCount ≤ Word.top) (cancelAt : Option CancelPoint) (context : Context π) :
    (∀ (settings : SortSettings) (parts : List Partition), settings.validate = .ok () →
      settings.partitions g = .ok parts →
        Run.Settles parts
          (fun result => result.Complete g settings.longestPaths ∧
            Run.Undisputed (π := π) (TopologicalOrder.compute · g settings)
              (TopologicalOrder.Agrees g) result)
          ((TopologicalOrder.compute executor g settings cancelAt).perform context)) ∧
    ∀ (settings : Settings) (parts : List Partition), settings.validate = .ok () →
      settings.partitions g = .ok parts →
        Run.Settles parts
          (fun sets => Components.Complete g (fun _ => none) sets ∧
            Run.Undisputed (π := π) (Components.compute · g settings) (Components.Agrees g) sets)
          ((Components.compute executor g settings cancelAt).perform context) ∧
        ∀ labels : Labelling, Run.Settles parts
          (fun sets => Components.Complete g labels sets ∧
            Run.Undisputed (π := π) (Components.computeSeeded · g settings labels)
              (Components.Agrees g) sets)
          ((Components.computeSeeded executor g settings labels cancelAt).perform context) := by
  have wellFormed := built.wellFormed
  have searches (settings : Settings) (parts : List Partition) (valid : settings.validate = .ok ())
      (cut : settings.partitions g = .ok parts) (labels : Labelling) : Run.Settles parts
        (fun sets => Components.Complete g labels sets ∧
          Run.Undisputed (π := π) (Components.computeSeeded · g settings labels)
            (Components.Agrees g) sets)
        ((Components.computeSeeded executor g settings labels cancelAt).perform context) := by
    rcases performed :
      (Components.computeSeeded executor g settings labels cancelAt).perform context
      with ⟨stop | sets, context'⟩
    · exact Components.stop_of_computeFrom lawful diligent wellFormed valid cut
        (DisjointSets.ordered_seed _ labels) (DisjointSets.capacity_seed _ labels) performed
    · have complete := Components.complete_of_computeSeeded lawful wellFormed performed
      exact ⟨complete, fun _ _ _ _ _ others ok =>
        complete.agrees (Components.complete_of_computeSeeded others wellFormed ok)⟩
  refine ⟨fun settings parts valid cut => ?_, fun settings parts valid cut =>
    ⟨searches settings parts valid cut _, searches settings parts valid cut⟩⟩
  rcases performed : (TopologicalOrder.compute executor g settings cancelAt).perform context
    with ⟨stop | result, context'⟩
  · exact TopologicalOrder.stop_of_compute lawful diligent wellFormed fits valid cut performed
  · have complete := TopologicalOrder.complete_of_compute lawful wellFormed fits performed
    exact ⟨complete, fun _ _ _ _ _ others ok =>
      complete.agrees (TopologicalOrder.complete_of_compute others wellFormed fits ok)⟩

/-- In the sample three nodes can be sorted and there are two components, so that is what a sort and
a search answer that are not cancelled. A single worker that is told to stop at the first node
stops. -/
theorem cancelled_or_complete_sample :
    Executor.untiring.Lawful ∧ Executor.untiring.Diligent ∧
    Graph.sample.relationshipCount ≤ Word.top ∧
    Settings.partitions { concurrency := 2, minBatch := 2 } Graph.sample = .ok [⟨0, 3⟩, ⟨3, 2⟩] ∧
    Run.Settles [⟨0, 3⟩, ⟨3, 2⟩] (fun result => result.nodes.Perm [0, 1, 2])
      ((TopologicalOrder.compute .untiring Graph.sample { concurrency := 2, minBatch := 2 }
        none).perform { sink := Silent.silent }) ∧
    Run.Settles [⟨0, 3⟩, ⟨3, 2⟩] (fun sets => sets.count = .ok 2)
      ((Components.compute .untiring Graph.sample { concurrency := 2, minBatch := 2 }
        none).perform { sink := Silent.silent }) ∧
    ((TopologicalOrder.compute (.singleWorker 400) Graph.sample { concurrency := 2, minBatch := 2 }
      (some ⟨0, 1⟩)).perform { sink := Silent.silent }).1.map TopologicalOrder.nodes =
        .error (.fault .terminated) := by
  have fits : Graph.sample.relationshipCount ≤ Word.top := by decide
  have cut : Settings.partitions { concurrency := 2, minBatch := 2 } Graph.sample =
      .ok [⟨0, 3⟩, ⟨3, 2⟩] := by decide +kernel
  have worker := Executor.singleWorker_lawful 400
  obtain ⟨sorts, searches⟩ := cancelled_or_complete Executor.untiring_lawful
    Executor.untiring_diligent Graph.built_sample fits none { sink := Silent.silent }
  refine ⟨Executor.untiring_lawful, Executor.untiring_diligent, fits, cut, ?_, ?_,
    by decide +kernel⟩
  · obtain ⟨alone, context, ok, listed⟩ := TopologicalOrder.exists_compute_sample
    refine (sorts { concurrency := 2, minBatch := 2 } _ rfl cut).imp fun result right => ?_
    rw [← listed]
    exact (right.2 _ _ _ _ _ worker ok).perm
  · have found : ((Components.compute (.singleWorker 400) Graph.sample
        { concurrency := 2, minBatch := 2 } none).perform
          ({ sink := .silent } : Context Silent)).1.map DisjointSets.count = .ok (.ok 2) := by
      decide +kernel
    obtain ⟨alone, context, ok, counted⟩ := Run.exists_of_map_perform found
    refine (searches { concurrency := 2, minBatch := 2 } _ rfl cut).1.imp fun sets right => ?_
    rw [← counted]
    exact (right.2 _ _ _ _ _ worker ok).count_eq

/-! ### Other ways to stop -/

def Graph.edgeless (count : Nat) : Graph where
  offsets := .replicate (count + 1) 0
  targets := .replicate 0 0

theorem Graph.ofEdges_nil {count : Nat} (fits : count < Word.top) :
    ofEdges count [] = .ok (edgeless count) := by
  obtain ⟨g, ok⟩ := exists_ofEdges_iff.mpr ⟨fits, List.forall_mem_nil _⟩
  have begins := begins_of_ofEdges ok
  obtain ⟨-, counts, offsets, -, -, rfl⟩ := ofEdges_eq_ok ok
  have zeros : offsets = .replicate (count + 1) 0 := by
    refine ext_wordAt begins.capacity fun index h => ?_
    have inside : index < count + 1 := begins.capacity ▸ h
    rw [wordAt_replicate _ _ inside]
    exact begins.begins index (Nat.le_of_lt_succ inside)
  rw [ok, zeros]
  rfl

theorem Graph.nodeCount_edgeless (count : Nat) : (edgeless count).nodeCount = count := rfl

/-- With valid settings and without cancellation a sort of one node stops if the list of partitions
that it reserves room for cannot be addressed, and a sort of `2 ^ 30` nodes in as many partitions
stops because a phase does not accept them. -/
theorem stops_uncancelled :
    (Graph.ofEdges 1 [] = .ok (.edgeless 1) ∧
      Settings.validate { concurrency := Word.top, minBatch := 1, policy := .degree } = .ok () ∧
      ((TopologicalOrder.compute .untiring (.edgeless 1)
        { concurrency := Word.top, minBatch := 1, policy := .degree } none).perform
          { sink := Silent.silent }).1 = .error (.violation .capacityOverflow)) ∧
    (Graph.ofEdges (2 ^ 30) [] = .ok (.edgeless (2 ^ 30)) ∧
      Settings.validate { concurrency := 2 ^ 30, minBatch := 1 } = .ok () ∧
      ((TopologicalOrder.compute .untiring (.edgeless (2 ^ 30))
        { concurrency := 2 ^ 30, minBatch := 1 } none).perform { sink := Silent.silent }).1 =
          .error (.fault (.tooManyPartitions (2 ^ 30) maxNodeCount))) := by
  refine ⟨⟨Graph.ofEdges_nil (by decide), rfl, ?_⟩, Graph.ofEdges_nil (by decide), rfl, ?_⟩
  · exact TopologicalOrder.compute_of_violation _ rfl (by decide +kernel) none _
  · obtain ⟨parts, cut, count⟩ := Partition.length_of_evenly_nodeCount
      (show 0 < 2 ^ 30 by decide) (by decide)
    have refused := @TopologicalOrder.compute_of_many (.edgeless (2 ^ 30)) Silent _ .untiring
      { concurrency := 2 ^ 30, minBatch := 1 } rfl parts
      (by rw [Settings.partitions, Graph.nodeCount_edgeless]; exact cut)
      (by rw [count]; decide) none { sink := Silent.silent }
    rwa [count] at refused

end GraphAnalytics
