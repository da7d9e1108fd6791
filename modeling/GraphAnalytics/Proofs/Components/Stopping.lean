/-
# How a search for components stops

A search either stops with a reason or its sets are those that relationships and labels make. A task
that is told to stop fails, so no task leaves a part of its partition out and is through all the
same.
-/

import GraphAnalytics.Proofs.Components.Connected
import GraphAnalytics.Proofs.Components.Ending
import GraphAnalytics.Proofs.Schedule.Stopping

namespace GraphAnalytics.Components

open Progress

variable {g : Graph}

theorem merging_obedient : (merging g).Obedient (· = .stopped) where
  begins _ := by simp [merging]
  persists := by
    rintro ⟨parents, total, cancelAt⟩ body goesOn
    cases body with
    | stopped => exact absurd rfl goesOn
    | node partition node merged =>
        simp only [merging]
        split <;> simp [Action.Persists]
    | scan partition node merged =>
        simp only [merging]
        split <;> simp [Action.Persists]
    | row partition node merged position stop =>
        simp only [merging]
        split <;> simp [Action.Persists]
    | merge partition node merged position stop point =>
        simp only [merging]
        split <;> simp [Action.Persists]
    | leave merged => exact ⟨merged, rfl⟩
  fails := by
    rintro ⟨parents, total, cancelAt⟩ body rfl
    rfl

variable {π : Type} [Sink π]

/-- A search stops only if it was cancelled or is cut into too many partitions. -/
theorem stop_of_computeFrom {executor : Executor} (lawful : executor.Lawful)
    (diligent : executor.Diligent) (wellFormed : g.WellFormed) {settings : Settings}
    (valid : settings.validate = .ok ()) {parts : List Partition}
    (cut : settings.partitions g = .ok parts) {sets : DisjointSets} (ordered : sets.parents.Ordered)
    (capacity : sets.parents.capacity = g.nodeCount) {cancelAt : Option CancelPoint}
    {context context' : Context π} {stop : Stop}
    (stopped : (computeFrom executor g settings sets cancelAt).perform context =
      (.error stop, context')) : stop.Justified parts context'.raised := by
  unfold computeFrom at stopped
  rw [valid, cut] at stopped
  rw [Run.perform_bind_of_ok (by rfl), Run.perform_bind_of_ok (by rfl),
    Run.perform_bind_of_ok (by rfl), Run.perform_bind_of_ok (by rfl)] at stopped
  obtain stopped | ⟨_, _, -, stopped⟩ := Run.perform_bind_error.mp stopped
  · exact Phase.stop_of_run lawful diligent merging_obedient (merging_descends wellFormed)
      (sound_start ordered capacity (Settings.flatMap_nodes_of_partitions cut) cancelAt) stopped
  cases stopped

/-- The sets are the classes that relationships and common labels make, each called by the label of
its smallest node, or by that node if it has no label. -/
structure Complete (g : Graph) (labels : Labelling) (sets : DisjointSets) : Prop where
  joined_iff : ∀ p < g.nodeCount, ∀ q < g.nodeCount, sets.parents.Joined p q ↔ g.Linked labels p q
  setId_eq : ∀ node < g.nodeCount, ∃ smallest,
    IsLeast {other | g.Linked labels other node} smallest ∧
      sets.setId node = .ok ((labels smallest).getD smallest)
  count_eq : sets.count =
    .ok (Nat.card (Quot fun p q : Fin g.nodeCount => g.Linked labels p q))

/-- The same nodes are joined, and their sets have the same ids and are as many. -/
structure Agrees (g : Graph) (sets other : DisjointSets) : Prop where
  joined_iff : ∀ p < g.nodeCount, ∀ q < g.nodeCount,
    sets.parents.Joined p q ↔ other.parents.Joined p q
  setId_eq : ∀ node < g.nodeCount, sets.setId node = other.setId node
  count_eq : sets.count = other.count

theorem Complete.agrees {labels : Labelling} {sets other : DisjointSets}
    (complete : Complete g labels sets) (others : Complete g labels other) :
    Agrees g sets other where
  joined_iff p hp q hq := (complete.joined_iff p hp q hq).trans (others.joined_iff p hp q hq).symm
  setId_eq node h := by
    obtain ⟨smallest, least, named⟩ := complete.setId_eq node h
    obtain ⟨smallest', least', named'⟩ := others.setId_eq node h
    rw [named, named', least.unique least']
  count_eq := complete.count_eq.trans others.count_eq.symm

theorem complete_of_computeSeeded {executor : Executor} (lawful : executor.Lawful)
    (wellFormed : g.WellFormed) {settings : Settings} {labels : Labelling}
    {cancelAt : Option CancelPoint} {context context' : Context π} {sets : DisjointSets}
    (ok : (computeSeeded executor g settings labels cancelAt).perform context =
      (.ok sets, context')) : Complete g labels sets := by
  have describes := describes_of_computeSeeded lawful wellFormed ok
  exact ⟨fun p hp q hq => describes.joined_iff hp hq, fun node h => describes.setId_eq wellFormed h,
    describes.represents.count_eq⟩

end GraphAnalytics.Components
