/-
# The tasks of the search for components

A task owes the relationships that it has not merged yet. At every moment each relationship of the
graph has its ends in one set or is owed by some task, and nothing is joined but what relationships
connect. When no task is left nothing is owed, so the sets are exactly what the relationships make
of the sets at the start (`joined_of_runs`).
-/

import GraphAnalytics.Components
import GraphAnalytics.Proofs.Graph.Rows
import GraphAnalytics.Proofs.Partition.Cover
import GraphAnalytics.Proofs.Schedule.Undisturbed
import GraphAnalytics.Proofs.Sets.Discipline

namespace GraphAnalytics

namespace Components

open Forest

/-- A point of a task makes sense: ids that it holds are nodes, a row that it is in is a row of the
graph, and a merge that it is in has its ends in the right sets. -/
def MergingPoint.Valid (g : Graph) (parents : Forest) : MergingPoint → Prop
  | .node partition current _ =>
      ∀ later, current ≤ later → later < partition.stop → later < g.nodeCount
  | .scan partition current _ => current < partition.stop ∧
      ∀ later, current ≤ later → later < partition.stop → later < g.nodeCount
  | .row partition current _ position stop =>
      current < g.nodeCount ∧ g.rowStart current ≤ position ∧
      stop = g.rowStop current ∧
      ∀ later, current < later → later < partition.stop → later < g.nodeCount
  | .merge partition current _ position stop point => current < g.nodeCount ∧
      g.rowStart current ≤ position ∧ position < stop ∧ stop = g.rowStop current ∧
      (∀ later, current < later → later < partition.stop → later < g.nodeCount) ∧
      point.Between parents current (g.target position)
  | .stopped => True
  | .leave _ => True

/-- The task still has to merge the ends of this relationship. -/
def MergingPoint.Owes (g : Graph) (source target : Nat) : MergingPoint → Prop
  | .node partition current _ => current ≤ source ∧ source < partition.stop ∧ g.Edge source target
  | .scan partition current _ =>
      current ≤ source ∧ source < partition.stop ∧ g.Edge source target
  | .row partition current _ position stop =>
      source = current ∧ target ∈ g.ahead position stop ∨
        current < source ∧ source < partition.stop ∧ g.Edge source target
  | .merge partition current _ position stop _ =>
      source = current ∧ target ∈ g.ahead position stop ∨
        current < source ∧ source < partition.stop ∧ g.Edge source target
  | .stopped => False
  | .leave _ => False

/-- What holds while tasks are at work on sets that were `start` at first. -/
structure Merges (g : Graph) (start : Forest) (store : Merging) (bodies : Multiset MergingPoint) :
    Prop where
  evolves : Evolves g.Edge start store.parents
  valid : ∀ body ∈ bodies, body.Valid g store.parents
  accounted : ∀ source target, g.Edge source target →
    store.parents.leader source = store.parents.leader target ∨
      ∃ body ∈ bodies, body.Owes g source target

variable {g : Graph} {start : Forest}

theorem MergingPoint.Valid.evolves {before after : Forest} {body : MergingPoint}
    (wellFormed : g.WellFormed) (capacity : before.capacity = g.nodeCount)
    (evolves : Evolves g.Edge before after) (valid : body.Valid g before) : body.Valid g after := by
  cases body with
  | merge partition node merged position stop point =>
      obtain ⟨inside, le, lt, atStop, later, between⟩ := valid
      have edge := Graph.edge_of_position le (atStop ▸ lt)
      exact ⟨inside, le, lt, atStop, later, evolves.between (by rwa [capacity])
        (by rw [capacity]; exact wellFormed.edge_target_lt edge) between⟩
  | node | stopped | scan | row | leave => exact valid

/-- A step of a task joins only the ends of a relationship, and leads to valid points. What the task
owed before it is merged afterwards, or still owed. -/
structure Continues (g : Graph) (before after : Forest) (body : MergingPoint)
    (bodies : Multiset MergingPoint) : Prop where
  evolves : Evolves g.Edge before after
  valid : ∀ next ∈ bodies, next.Valid g after
  accounted : ∀ source target, body.Owes g source target →
    after.leader source = after.leader target ∨ ∃ next ∈ bodies, next.Owes g source target

theorem Continues.single {before after : Forest} {body next : MergingPoint}
    (evolves : Evolves g.Edge before after) (valid : next.Valid g after)
    (accounted : ∀ source target, body.Owes g source target →
      after.leader source = after.leader target ∨ next.Owes g source target) :
    Continues g before after body {next} where
  evolves := evolves
  valid other member := by
    obtain rfl := Multiset.mem_singleton.mp member
    exact valid
  accounted source target owed :=
    (accounted source target owed).imp_right fun still =>
      ⟨next, Multiset.mem_singleton_self next, still⟩

theorem merging_step (wellFormed : g.WellFormed) {store store' : Merging} {body : MergingPoint}
    {action : Action Partition MergingPoint} {bodies : Multiset MergingPoint}
    (taken : (merging g).step store body = (store', action))
    (goesOn : action.successors (merging g).start false = some bodies)
    (ordered : store.parents.Ordered) (capacity : store.parents.capacity = g.nodeCount)
    (valid : body.Valid g store.parents) :
    Continues g store.parents store'.parents body bodies := by
  obtain ⟨parents, total, cancelAt⟩ := store
  have unchanged : Evolves g.Edge parents parents := .refl ordered
  cases body with
  | node partition node merged =>
      obtain ⟨rfl, rfl⟩ := Prod.mk.inj taken
      by_cases more : node < partition.stop
      · rw [if_pos more] at goesOn
        obtain rfl := Option.some.inj goesOn
        exact .single unchanged ⟨more, valid⟩ fun _ _ owed => .inr owed
      · rw [if_neg more] at goesOn
        obtain rfl := Option.some.inj goesOn
        refine .single unchanged trivial fun source target owed => ?_
        exact absurd (Nat.lt_of_le_of_lt owed.1 owed.2.1) more
  | stopped =>
      obtain ⟨rfl, rfl⟩ := Prod.mk.inj taken
      cases goesOn
  | scan partition node merged =>
      obtain ⟨rfl, rfl⟩ := Prod.mk.inj taken
      obtain rfl := Action.bodies_of_arrival goesOn
      obtain ⟨more, inside⟩ := valid
      refine .single unchanged ⟨inside node (Nat.le_refl node) more, Nat.le_refl _, rfl,
        fun later less => inside later (Nat.le_of_lt less)⟩ fun source target owed => .inr ?_
      obtain ⟨le, lt, edge⟩ := owed
      rcases Nat.eq_or_lt_of_le le with rfl | less
      · exact .inl ⟨rfl, edge⟩
      · exact .inr ⟨less, lt, edge⟩
  | row partition node merged position stop =>
      obtain ⟨rfl, rfl⟩ := Prod.mk.inj taken
      obtain ⟨inside, le, atStop, later⟩ := valid
      by_cases more : position < stop
      · rw [if_pos more] at goesOn
        obtain rfl := Option.some.inj goesOn
        exact .single unchanged ⟨inside, le, more, atStop, later, rfl, rfl, capacity ▸ inside, rfl⟩
          fun _ _ owed => .inr owed
      · rw [if_neg more] at goesOn
        obtain rfl := Option.some.inj goesOn
        refine .single unchanged later fun source target owed => .inr ?_
        rcases owed with ⟨-, here⟩ | owed
        · rw [g.ahead_of_le (Nat.le_of_not_lt more)] at here
          exact absurd here List.not_mem_nil
        · exact owed
  | merge partition node merged position stop point =>
      obtain ⟨inside, le, lt, atStop, later, between⟩ := valid
      have edge : g.Edge node (g.target position) := Graph.edge_of_position le (atStop ▸ lt)
      have linked := link_step ordered edge (by rwa [capacity])
        (by rw [capacity]; exact wellFormed.edge_target_lt edge) between
      rcases accessed : link.step () parents point with ⟨after, turn⟩
      rw [accessed] at linked
      simp only [merging, accessed] at taken
      obtain ⟨evolves, ⟨rfl, together⟩ | ⟨next, rfl, between'⟩⟩ := linked
      · obtain ⟨rfl, rfl⟩ := Prod.mk.inj taken
        obtain rfl := Option.some.inj goesOn
        refine .single evolves ⟨inside, Nat.le_succ_of_le le, atStop, later⟩ ?_
        intro source target owed
        rcases owed with ⟨rfl, here⟩ | owed
        · rw [g.ahead_of_lt lt] at here
          rcases List.mem_cons.mp here with rfl | still
          · exact .inl together
          · exact .inr (.inl ⟨rfl, still⟩)
        · exact .inr (.inr owed)
      · obtain ⟨rfl, rfl⟩ := Prod.mk.inj taken
        obtain rfl := Option.some.inj goesOn
        exact .single evolves ⟨inside, le, lt, atStop, later, between'⟩ fun _ _ owed => .inr owed
  | leave merged =>
      obtain ⟨rfl, rfl⟩ := Prod.mk.inj taken
      obtain rfl := Option.some.inj goesOn
      exact ⟨unchanged, fun next member => absurd member (Multiset.notMem_zero _),
        fun source target owed => owed.elim⟩

/-- What a task does next keeps the sets between what has been merged and what is to be. -/
theorem Merges.step (wellFormed : g.WellFormed) (capacity : start.capacity = g.nodeCount)
    {store : Merging} {body : MergingPoint} {rest bodies : Multiset MergingPoint}
    (merges : Merges g start store (body ::ₘ rest))
    (goesOn : ((merging g).step store body).2.successors (merging g).start false = some bodies) :
    Merges g start ((merging g).step store body).1 (bodies + rest) := by
  have room : store.parents.capacity = g.nodeCount := merges.evolves.capacity.trans capacity
  obtain ⟨evolves, valid, accounted⟩ :=
    merging_step wellFormed rfl goesOn merges.evolves.ordered room
    (merges.valid body (Multiset.mem_cons_self body rest))
  constructor
  case evolves => exact merges.evolves.trans evolves
  case valid =>
    intro next member
    rcases Multiset.mem_add.mp member with new | old
    · exact valid next new
    · exact (merges.valid next (Multiset.mem_cons_of_mem old)).evolves wellFormed room evolves
  case accounted =>
    intro source target edge
    rcases merges.accounted source target edge with together | ⟨other, member, owed⟩
    · exact .inl (evolves.grows _ (room ▸ wellFormed.source_lt edge) _
        (room ▸ wellFormed.edge_target_lt edge) together)
    · rcases Multiset.mem_cons.mp member with rfl | old
      · exact (accounted source target owed).imp_right fun ⟨next, new, still⟩ =>
          ⟨next, Multiset.mem_add.mpr (.inl new), still⟩
      · exact .inr ⟨other, Multiset.mem_add.mpr (.inr old), owed⟩

/-- At the start nothing is merged and the partitions owe every relationship. -/
theorem merges_start (wellFormed : g.WellFormed) {partitions : List Partition}
    (cover : partitions.flatMap Partition.nodes = List.range g.nodeCount) (ordered : start.Ordered)
    (cancelAt : Option CancelPoint) :
    Merges g start { parents := start, cancelAt }
      ((merging g).beginnings partitions) := by
  constructor
  case evolves => exact .refl ordered
  case valid =>
    intro body member
    obtain ⟨partition, here, rfl⟩ := Work.mem_beginnings.mp member
    exact fun later le lt => Partition.lt_of_cover cover here le lt
  case accounted =>
    intro source target edge
    have covered : source ∈ partitions.flatMap Partition.nodes := by
      rw [cover]
      exact List.mem_range.mpr (wellFormed.source_lt edge)
    obtain ⟨partition, here, member⟩ := List.mem_flatMap.mp covered
    obtain ⟨from_, before⟩ := List.mem_range'_1.mp member
    exact .inr ⟨_, Work.mem_beginnings.mpr ⟨partition, here, rfl⟩, from_, before, edge⟩

/-- After undisturbed work on all partitions the sets are what the relationships make of the sets at
the start. -/
theorem joined_of_runs (wellFormed : g.WellFormed) {partitions : List Partition}
    (cover : partitions.flatMap Partition.nodes = List.range g.nodeCount) (ordered : start.Ordered)
    (capacity : start.capacity = g.nodeCount) {cancelAt : Option CancelPoint} {store : Merging}
    (runs : (merging g).Runs false ({ parents := start, cancelAt },
      (merging g).beginnings partitions) (store, 0)) :
    Evolves g.Edge start store.parents ∧
      ∀ p q, start.Generated g.Edge p q → store.parents.leader p = store.parents.leader q := by
  have merges : Merges g start store 0 := runs.invariant (Merges g start)
    (fun _ _ _ _ merges goesOn => merges.step wellFormed capacity goesOn)
    (merges_start wellFormed cover ordered cancelAt)
  refine ⟨merges.evolves, fun p q => value_eq_of_eqvGen fun p q step => ?_⟩
  rcases step with joined | edge
  · obtain ⟨hp, hq, same⟩ := (joined_iff ordered).mp joined
    exact merges.evolves.grows p hp q hq same
  · rcases merges.accounted p q edge with together | ⟨body, member, -⟩
    · exact together
    · exact absurd member (Multiset.notMem_zero body)

end Components

end GraphAnalytics
