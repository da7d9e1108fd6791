/-
# The search for components ends

A merge starts over when the root that it is about to point at another has got a parent in the
meantime. Then there is one root less, so that happens at most once per task for every root that is
lost. Everything else that a task does takes it nearer to the end of its rows, whatever others do in
between.
-/

import GraphAnalytics.Proofs.Components.Merging
import GraphAnalytics.Proofs.Schedule.Ending

namespace GraphAnalytics.Components

open Forest

variable {g : Graph}

/-- The accesses that a merge has still to make if no root gets lost. A merge that remembers a lost
root will start over. -/
def climb (forest : Forest) : Linking → Nat
  | .first _ q node => node + q + 3
  | .second p q root node => node + 2 + forest.stale root * (p + q + 4)
  | .join p q _ high => 1 + forest.stale high * (p + q + 4)

def mergePrice (g : Graph) : Nat := 2 * g.nodeCount + 3

/-- The steps that a task has still to make if no root gets lost. -/
def MergingPoint.left (g : Graph) (forest : Forest) : MergingPoint → Nat
  | .node partition current _ => g.effort (mergePrice g) partition.stop current + 2
  | .stopped => 1
  | .scan partition current _ => mergePrice g * (g.rowStop current - g.rowStart current) + 4 +
      g.effort (mergePrice g) partition.stop (current + 1)
  | .row partition current _ position stop => mergePrice g * (stop - position) + 3 +
      g.effort (mergePrice g) partition.stop (current + 1)
  | .merge partition current _ position stop point =>
      mergePrice g * (stop - (position + 1)) + 4 + climb forest point +
        g.effort (mergePrice g) partition.stop (current + 1)
  | .leave _ => 1

/-- What the tasks have still to do: the roots that may get lost come first. -/
def mergingRank (g : Graph) (store : Merging) (bodies : Multiset MergingPoint) : Nat ×ₗ Nat :=
  toLex (g.nodeCount - store.parents.merged, load (MergingPoint.left g store.parents) bodies)

/-- What holds while tasks are at work, whether or not they are told to stop. -/
structure Sound (g : Graph) (store : Merging) (bodies : Multiset MergingPoint) : Prop where
  ordered : store.parents.Ordered
  capacity : store.parents.capacity = g.nodeCount
  valid : ∀ body ∈ bodies, body.Valid g store.parents

/-- An access of a merge takes it nearer to its end, or a root is lost. -/
theorem climb_step {forest : Forest} (ordered : forest.Ordered) {p q : Nat} {point : Linking}
    (between : point.Between forest p q) {pairs : Nat → Nat → Prop}
    (evolves : Evolves pairs forest (link.step () forest point).1) :
    (forest.merged < (link.step () forest point).1.merged) ∨
      (link.step () forest point).1 = forest ∧
        ∀ next, (link.step () forest point).2 = .more next →
          climb forest next < climb forest point := by
  cases point with
  | first p' q' node =>
      right
      obtain ⟨-, -, inside, -⟩ := between
      rcases ordered node inside with root | ⟨parent, smaller, child⟩
      · rw [link_first_of_root _ _ ⟨inside, root⟩]
        refine ⟨rfl, fun next more => ?_⟩
        cases more
        simp only [climb, stale_of_root root]
        omega
      · rw [link_first_of_child _ _ inside child]
        refine ⟨rfl, fun next more => ?_⟩
        cases more
        simp only [climb]
        omega
  | second p' q' other node =>
      right
      obtain ⟨-, -, -, inside, -⟩ := between
      rcases ordered node inside with root | ⟨parent, smaller, child⟩
      · by_cases equal : other = node
        · subst equal
          rw [link_second_of_same _ _ ⟨inside, root⟩]
          exact ⟨rfl, fun _ more => nomatch more⟩
        · rw [link_second_of_root _ _ ⟨inside, root⟩ equal]
          refine ⟨rfl, fun next more => ?_⟩
          cases more
          -- The larger of the two is either the remembered root or the one just read.
          rcases Nat.le_total other node with less | less
          · simp only [climb, Nat.max_eq_right less, stale_of_root root]
            omega
          · simp only [climb, Nat.max_eq_left less]
            omega
      · rw [link_second_of_child _ _ _ inside child]
        refine ⟨rfl, fun next more => ?_⟩
        cases more
        simp only [climb]
        omega
  | join p' q' low high =>
      obtain ⟨-, -, smaller, inside, ends⟩ := between
      by_cases root : forest.value high = rootMark
      · left
        have lost : forest.merged + stale (link.step () forest (.join p' q' low high)).1 high ≤ _ :=
          evolves.merged_add_stale inside (Nat.le_of_eq (congrArg _ (stale_of_root root)))
        rw [link_join_of_root _ _ _ root] at lost ⊢
        have child : Cells.value (forest.set high (low : Int)) high ≠ rootMark := by
          rw [Cells.value_set_self _ _ inside]
          exact natCast_ne_rootMark low
        rw [stale, if_neg child] at lost
        omega
      · right
        rw [link_join_of_child _ _ _ root]
        refine ⟨rfl, fun next more => ?_⟩
        cases more
        simp only [climb, stale, if_neg root]
        omega

/-- A step of a task leads to valid points, and takes the task nearer to its end unless a root is
lost. -/
theorem merging_falls (wellFormed : g.WellFormed) {store : Merging} {body : MergingPoint}
    (ordered : store.parents.Ordered) (capacity : store.parents.capacity = g.nodeCount)
    (valid : body.Valid g store.parents) (told : Bool) :
    Evolves g.Edge store.parents ((merging g).step store body).1.parents ∧
      (∀ next ∈ ((merging g).step store body).2.leavings (merging g).start false told,
        next.Valid g ((merging g).step store body).1.parents) ∧
      (store.parents.merged < ((merging g).step store body).1.parents.merged ∨
        ((merging g).step store body).1.parents = store.parents ∧
          load (MergingPoint.left g store.parents)
            (((merging g).step store body).2.leavings (merging g).start false told) <
              body.left g store.parents) := by
  obtain ⟨parents, total, cancelAt⟩ := store
  have unchanged : Evolves g.Edge parents parents := .refl ordered
  have single {next : MergingPoint} (nextValid : next.Valid g parents) :
      ∀ other ∈ ({next} : Multiset MergingPoint), other.Valid g parents := fun other member =>
    Multiset.mem_singleton.mp member ▸ nextValid
  cases body with
  | node partition node merged =>
      simp only [merging]
      by_cases more : node < partition.stop
      · rw [if_pos more]
        cases told with
        | false =>
            refine ⟨unchanged, single trivial, .inr ⟨trivial, ?_⟩⟩
            simp only [Action.leavings, load_singleton, MergingPoint.left, Bool.false_eq_true,
              if_false]
            omega
        | true =>
            refine ⟨unchanged, single ⟨more, valid⟩, .inr ⟨trivial, ?_⟩⟩
            simp only [Action.leavings, load_singleton, MergingPoint.left, if_true,
              g.effort_of_lt more]
            omega
      · rw [if_neg more]
        refine ⟨unchanged, single trivial, .inr ⟨trivial, ?_⟩⟩
        simp only [Action.leavings, load_singleton, MergingPoint.left]
        omega
  | stopped =>
      exact ⟨unchanged, fun _ member => absurd member (Multiset.notMem_zero _),
        .inr ⟨rfl, Nat.one_pos⟩⟩
  | scan partition node merged =>
      obtain ⟨more, inside⟩ := valid
      simp only [merging]
      split
      all_goals
        refine ⟨unchanged, single ⟨inside node (Nat.le_refl node) more, Nat.le_refl _, rfl,
          fun later less => inside later (Nat.le_of_lt less)⟩, .inr ⟨trivial, ?_⟩⟩
        simp only [Action.leavings, load_singleton, MergingPoint.left]
        omega
  | row partition node merged position stop =>
      obtain ⟨inside, le, atStop, later⟩ := valid
      simp only [merging]
      by_cases more : position < stop
      · have edge := Graph.edge_of_position le (atStop ▸ more)
        have target := wellFormed.edge_target_lt edge
        rw [if_pos more]
        refine ⟨unchanged,
          single ⟨inside, le, more, atStop, later, rfl, rfl, capacity ▸ inside, rfl⟩,
          .inr ⟨trivial, ?_⟩⟩
        have further : stop - position = stop - (position + 1) + 1 := by omega
        simp only [Action.leavings, load_singleton, MergingPoint.left, climb, further, mergePrice,
          Nat.mul_add, Nat.mul_one]
        omega
      · rw [if_neg more]
        refine ⟨unchanged, single later, .inr ⟨trivial, ?_⟩⟩
        simp only [Action.leavings, load_singleton, MergingPoint.left]
        omega
  | merge partition node merged position stop point =>
      obtain ⟨inside, le, lt, atStop, later, between⟩ := valid
      have edge : g.Edge node (g.target position) := Graph.edge_of_position le (atStop ▸ lt)
      have linked := link_step ordered edge (by rwa [capacity])
        (by rw [capacity]; exact wellFormed.edge_target_lt edge) between
      have climbs := climb_step ordered between linked.1
      rcases accessed : link.step () parents point with ⟨after, turn⟩
      rw [accessed] at linked climbs
      simp only [merging, accessed]
      obtain ⟨evolves, ⟨rfl, -⟩ | ⟨next, rfl, between'⟩⟩ := linked
      · refine ⟨evolves, fun other member => ?_, climbs.imp_right fun ⟨same, _⟩ => ⟨same, ?_⟩⟩
        · obtain rfl := Multiset.mem_singleton.mp member
          exact ⟨inside, Nat.le_succ_of_le le, atStop, later⟩
        · simp only [Action.leavings, load_singleton, MergingPoint.left]
          omega
      · refine ⟨evolves, fun other member => ?_, climbs.imp_right fun ⟨same, nearer⟩ => ⟨same, ?_⟩⟩
        · obtain rfl := Multiset.mem_singleton.mp member
          exact ⟨inside, le, lt, atStop, later, between'⟩
        · have : climb parents next < climb parents point := nearer next rfl
          simp only [Action.leavings, load_singleton, MergingPoint.left]
          omega
  | leave merged =>
      exact ⟨unchanged, fun _ member => absurd member (Multiset.notMem_zero _),
        .inr ⟨rfl, Nat.one_pos⟩⟩

theorem merging_descends (wellFormed : g.WellFormed) :
    (merging g).Descends false (Sound g) (mergingRank g) where
  step := by
    intro store body rest told sound
    obtain ⟨evolves, valid, falls⟩ := merging_falls wellFormed sound.ordered sound.capacity
      (sound.valid body (Multiset.mem_cons_self body rest)) told
    refine ⟨⟨evolves.ordered, evolves.capacity.trans sound.capacity, fun next member => ?_⟩, ?_⟩
    · rcases Multiset.mem_add.mp member with new | old
      · exact valid next new
      · exact (sound.valid next (Multiset.mem_cons_of_mem old)).evolves wellFormed sound.capacity
          evolves
    · have bounded := merged_le_capacity ((merging g).step store body).1.parents
      rw [evolves.capacity, sound.capacity] at bounded
      refine Prod.Lex.toLex_lt_toLex.mpr (falls.imp (fun lost => ?_) fun ⟨same, nearer⟩ => ?_)
      · simp only
        omega
      · rw [same]
        refine ⟨rfl, ?_⟩
        rw [load_add, load_cons]
        exact Nat.add_lt_add_right nearer _
  drop := by
    intro store body rest sound
    refine ⟨⟨sound.ordered, sound.capacity, fun next member =>
      sound.valid next (Multiset.mem_cons_of_mem member)⟩, ?_⟩
    refine Prod.Lex.toLex_le_toLex.mpr (.inr ⟨rfl, ?_⟩)
    simp only [load_cons]
    omega

theorem sound_start {start : Forest} (ordered : start.Ordered)
    (capacity : start.capacity = g.nodeCount) {partitions : List Partition}
    (cover : partitions.flatMap Partition.nodes = List.range g.nodeCount)
    (cancelAt : Option CancelPoint) :
    Sound g { parents := start, cancelAt } ((merging g).beginnings partitions) where
  ordered := ordered
  capacity := capacity
  valid body member := by
    obtain ⟨partition, here, rfl⟩ := Work.mem_beginnings.mp member
    exact fun later le lt => Partition.lt_of_cover cover here le lt

end GraphAnalytics.Components
