/-
# Components are connected components

A search that succeeds has the sets that connectivity has, whatever the settings and however the
workers interleave. Without labels these are the weakly connected components, each called by its
smallest node. With labels two nodes are in one set if relationships, in either direction, and
common labels lead from one to the other, and a set is called by the label of its smallest node if
that has one.

A search without labels is a search with labels that no node carries, so there is one argument for
both. That the answers do not depend on the interleaving is part of the statement: connectivity
does not mention any.
-/

import GraphAnalytics.Proofs.Components.Merging
import GraphAnalytics.Proofs.Graph.Built
import GraphAnalytics.Proofs.Partition.Cover
import GraphAnalytics.Proofs.Schedule.Computation
import GraphAnalytics.Proofs.Sets.Classes
import Mathlib.Tactic.IntervalCases

namespace GraphAnalytics

open Progress

namespace Graph

/-- Relationships, taken in either direction, lead from one node to the other. -/
def Connected (g : Graph) : Nat → Nat → Prop := Relation.EqvGen g.Edge

/-- Relationships, taken in either direction, and pairs of nodes with a common label lead from one
node to the other. -/
def Linked (g : Graph) (labels : Labelling) : Nat → Nat → Prop :=
  Relation.EqvGen fun p q =>
    g.Edge p q ∨ p < g.nodeCount ∧ q < g.nodeCount ∧ labels.Shared p q

noncomputable def componentCount (g : Graph) : Nat :=
  Nat.card (Quot fun p q : Fin g.nodeCount => g.Edge p q)

variable {g : Graph} {labels : Labelling}

theorem linked_unlabelled {p q : Nat} : g.Linked (fun _ => none) p q ↔ g.Connected p q :=
  DisjointSets.related_unlabelled

theorem WellFormed.inside (wellFormed : g.WellFormed) : DisjointSets.Inside g.nodeCount g.Edge :=
  fun _ _ edge => ⟨wellFormed.source_lt edge, wellFormed.edge_target_lt edge⟩

theorem Linked.inside (wellFormed : g.WellFormed) {p q : Nat} (linked : g.Linked labels p q) :
    p = q ∨ p < g.nodeCount ∧ q < g.nodeCount :=
  DisjointSets.Related.inside wellFormed.inside linked

/-- Connected nodes are in one class of the quotient by relationships. -/
theorem Connected.sound (wellFormed : g.WellFormed) {p q : Nat} (connected : g.Connected p q)
    (hp : p < g.nodeCount) (hq : q < g.nodeCount) :
    Quot.mk (fun p q : Fin g.nodeCount => g.Edge p q) ⟨p, hp⟩ = Quot.mk _ ⟨q, hq⟩ := by
  induction connected with
  | rel p q edge => exact Quot.sound edge
  | refl p => rfl
  | symm p q _ ih => exact (ih hq hp).symm
  | trans p q r first _ ih ih' =>
      have middle : q < g.nodeCount := by
        rcases (linked_unlabelled.mpr first).inside wellFormed with rfl | ⟨-, hq⟩
        · exact hp
        · exact hq
      exact (ih hp middle).trans (ih' middle hq)

end Graph

namespace Components

variable {g : Graph} {labels : Labelling} {sets : DisjointSets}

/-- The sets are those of the nodes of a graph with labels, with the names that they started with.
-/
structure Describes (g : Graph) (labels : Labelling) (sets : DisjointSets) : Prop where
  capacity : sets.capacity = g.nodeCount
  ordered : sets.parents.Ordered
  leader_eq_iff : ∀ p < g.nodeCount, ∀ q < g.nodeCount,
    sets.parents.leader p = sets.parents.leader q ↔ g.Linked labels p q
  nameOf_eq : ∀ node < g.nodeCount, (∀ earlier < node, ¬ labels.Shared earlier node) →
    sets.nameOf node = (labels node).getD node

namespace Describes

variable (describes : Describes g labels sets)

include describes

/-- The sets of a graph with labels represent its relationships and the labels. -/
theorem represents : DisjointSets.Represents g.nodeCount labels g.Edge sets where
  capacity_eq := describes.capacity
  ordered := describes.ordered
  leader_eq_iff := describes.leader_eq_iff
  nameOf_eq := describes.nameOf_eq

theorem joined_iff {p q : Nat} (hp : p < g.nodeCount) (hq : q < g.nodeCount) :
    sets.parents.Joined p q ↔ g.Linked labels p q :=
  describes.represents.joined_iff hp hq

theorem setId_eq (wellFormed : g.WellFormed) {node : Nat} (h : node < g.nodeCount) :
    ∃ smallest, IsLeast {other | g.Linked labels other node} smallest ∧
      sets.setId node = .ok ((labels smallest).getD smallest) :=
  describes.represents.setId_eq wellFormed.inside h

end Describes

/-- Every class of nodes that relationships connect has one leader. -/
theorem Describes.count_eq (wellFormed : g.WellFormed)
    (describes : Describes g (fun _ => none) sets) : sets.count = .ok g.componentCount := by
  refine DisjointSets.count_eq_card describes.capacity describes.ordered (fun p q edge => ?_)
    fun node inside => ?_
  · exact (describes.leader_eq_iff p p.isLt q q.isLt).mpr (.rel _ _ (.inl edge))
  · have linked := describes.represents.related_leader node.isLt
    exact (Graph.linked_unlabelled.mp linked).sound wellFormed inside node.isLt

/-- Seeded sets together with relationships generate what labels and relationships link. -/
theorem generated_seed_iff {p q : Nat} :
    (DisjointSets.ofLabels g.nodeCount labels).parents.Generated g.Edge p q ↔
      g.Linked labels p q :=
  DisjointSets.generated_seed_iff_related

variable {π : Type} [Sink π]

theorem describes_of_computeSeeded {executor : Executor} (lawful : executor.Lawful)
    (wellFormed : g.WellFormed) {settings : Settings} {cancelAt : Option CancelPoint}
    {context context' : Context π}
    (ok : (computeSeeded executor g settings labels cancelAt).perform context =
      (.ok sets, context')) : Describes g labels sets := by
  unfold computeSeeded computeFrom at ok
  obtain ⟨_, _, -, ok⟩ := Run.perform_bind_ok.mp ok
  obtain ⟨partitions, _, cut, ok⟩ := Run.perform_bind_ok.mp ok
  obtain ⟨_, _, -, ok⟩ := Run.perform_bind_ok.mp ok
  obtain ⟨_, _, -, ok⟩ := Run.perform_bind_ok.mp ok
  obtain ⟨store, _, merged, ok⟩ := Run.perform_bind_ok.mp ok
  obtain ⟨_, _, -, ok⟩ := Run.perform_bind_ok.mp ok
  obtain ⟨_, _, -, ok⟩ := Run.perform_bind_ok.mp ok
  obtain ⟨rfl, -⟩ := Run.perform_pure_ok.mp ok
  have cover := Settings.flatMap_nodes_of_partitions (Run.perform_ofViolation_ok.mp cut).1
  have ordered := DisjointSets.ordered_seed (.replicate g.nodeCount rootMark) labels
  have start := DisjointSets.capacity_seed (.replicate g.nodeCount rootMark) labels
  obtain ⟨evolves, together⟩ :=
    joined_of_runs wellFormed cover ordered start (Phase.runs_of_run lawful merged)
  have room : store.parents.capacity = g.nodeCount := evolves.capacity.trans start
  constructor
  case capacity => exact room
  case ordered => exact evolves.ordered
  case leader_eq_iff =>
    intro p hp q hq
    rw [← generated_seed_iff]
    refine ⟨fun same => evolves.generated p q ?_, together p q⟩
    exact (Forest.joined_iff evolves.ordered).mpr ⟨room ▸ hp, room ▸ hq, same⟩
  case nameOf_eq =>
    intro node h first
    exact DisjointSets.nameOf_seed h first

/-- The sets of a search that succeeds are the connected components. -/
theorem components_connected {executor : Executor} (lawful : executor.Lawful) (built : g.Built)
    (settings : Settings) (cancelAt : Option CancelPoint) (context : Context π) :
    (∀ sets context',
        (compute executor g settings cancelAt).perform context = (.ok sets, context') →
      (∀ node < g.nodeCount, ∃ smallest, IsLeast {other | g.Connected other node} smallest ∧
        sets.setId node = .ok smallest) ∧
      sets.count = .ok g.componentCount) ∧
    ∀ labels sets context',
      (computeSeeded executor g settings labels cancelAt).perform context = (.ok sets, context') →
      (∀ p < g.nodeCount, ∀ q < g.nodeCount,
        sets.parents.Joined p q ↔ g.Linked labels p q) ∧
      ∀ node < g.nodeCount, ∃ smallest, IsLeast {other | g.Linked labels other node} smallest ∧
        sets.setId node = .ok ((labels smallest).getD smallest) := by
  have wellFormed := built.wellFormed
  constructor
  · intro sets context' ok
    have describes : Describes g (fun _ => none) sets :=
      describes_of_computeSeeded lawful wellFormed ok
    refine ⟨fun node h => ?_, describes.count_eq wellFormed⟩
    obtain ⟨smallest, least, named⟩ := describes.setId_eq wellFormed h
    simp only [Graph.linked_unlabelled] at least
    exact ⟨smallest, least, named⟩
  · intro labels sets context' ok
    have describes := describes_of_computeSeeded lawful wellFormed ok
    exact ⟨fun p hp q hq => describes.joined_iff hp hq,
      fun node h => describes.setId_eq wellFormed h⟩

def sampleLabels : Labelling := fun node => if node = 0 ∨ node = 4 then some 9 else none

theorem ofLabels_sample : DisjointSets.ofLabels 5 sampleLabels =
    ⟨.ofFn 5 fun node _ => if node = 4 then 0 else rootMark, .insert ∅ 0 9, sampleLabels⟩ := by
  have answers : PagedArray.answers (DisjointSets.Seeding.visit sampleLabels) 5 {} =
      (#[rootMark, rootMark, rootMark, rootMark, 0], ⟨.insert ∅ 9 0, .insert ∅ 0 9⟩) := by
    simp [PagedArray.answers, Nat.fold, DisjointSets.Seeding.visit, sampleLabels]
  simp only [DisjointSets.ofLabels, DisjointSets.seed, PagedArray.setAll_eq,
    PagedArray.capacity_replicate, answers]
  congr 2
  funext node h
  interval_cases node <;>
    simp [PagedArray.answers, Nat.fold, DisjointSets.Seeding.visit, sampleLabels]

/-- The sample has two components, and the label joins them. -/
theorem components_connected_sample :
    (∃ (sets : DisjointSets) (context : Context Silent),
      (compute (.singleWorker 400) Graph.sample { concurrency := 2, minBatch := 2 } none).perform
        { sink := Silent.silent } = (.ok sets, context) ∧
      (∃ smallest, IsLeast {other | Graph.sample.Connected other 4} smallest ∧
        sets.setId 4 = .ok smallest) ∧
      Graph.sample.componentCount = 2) ∧
    ∃ (sets : DisjointSets) (context : Context Silent),
      (computeSeeded (.singleWorker 400) Graph.sample { concurrency := 2, minBatch := 2 }
        sampleLabels none).perform { sink := Silent.silent } = (.ok sets, context) ∧
      Graph.sample.Linked sampleLabels 2 3 ∧
      ∃ smallest, IsLeast {other | Graph.sample.Linked sampleLabels other 3} smallest ∧
        sets.setId 3 = .ok ((sampleLabels smallest).getD smallest) := by
  have lawful := Executor.singleWorker_lawful 400
  constructor
  · have found : ((compute (.singleWorker 400) Graph.sample { concurrency := 2, minBatch := 2 }
        none).perform ({ sink := .silent } : Context Silent)).1.map
          DisjointSets.count = .ok (.ok 2) := by
      decide +kernel
    obtain ⟨sets, context, ok, counted⟩ := Run.exists_of_map_perform found
    obtain ⟨ids, count⟩ :=
      (components_connected lawful Graph.built_sample _ none _).1 sets context ok
    rw [count] at counted
    exact ⟨sets, context, ok, ids 4 (by decide), Except.ok.inj counted⟩
  · have found : ((computeSeeded (.singleWorker 400) Graph.sample
        { concurrency := 2, minBatch := 2 } sampleLabels none).perform
        ({ sink := .silent } : Context Silent)).1.map
          (fun sets => (sets.root 2, sets.root 3)) = .ok (.ok 0, .ok 0) := by
      rw [computeSeeded, show Graph.sample.nodeCount = 5 from rfl, ofLabels_sample]
      decide +kernel
    obtain ⟨sets, context, ok, roots⟩ := Run.exists_of_map_perform found
    obtain ⟨first, second⟩ := Prod.mk.inj roots
    obtain ⟨joined, ids⟩ :=
      (components_connected lawful Graph.built_sample _ none _).2 sampleLabels sets context ok
    exact ⟨sets, context, ok, (joined 2 (by decide) 3 (by decide)).mp ⟨0, first, second⟩,
      ids 3 (by decide)⟩

end Components

end GraphAnalytics
