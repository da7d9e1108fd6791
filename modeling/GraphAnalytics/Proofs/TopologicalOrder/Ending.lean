/-
# The phases of the sort end

Counting and gathering only read on. In the traversal a task may fork and may have to try again.

A task forks the task of a target that it releases, and a target is released once: what is left to
do for the nodes that wait is part of what is left to do, and a fork moves the share of the target
from the one to the other. That a released target does not come to wait again is known of
undisturbed work only, so bodies that are dropped, and bodies that are told to stop, are remembered
as if they stood still (`Upheld`).

An exchange fails if another task has raised the distance in the meantime, and that task is then
through with its relationship. So the relationships whose distances have still to be compared come
first, and the steps of the tasks second.
-/

import GraphAnalytics.Proofs.Schedule.Ending
import GraphAnalytics.Proofs.TopologicalOrder.Counting
import GraphAnalytics.Proofs.TopologicalOrder.Traversal

namespace GraphAnalytics.TopologicalOrder

variable {g : Graph}

/-! ### Counting and gathering -/

/-- The steps that a counting task has still to make. -/
def CountingPoint.left (g : Graph) : CountingPoint → Nat
  | .node partition current => g.effort 1 partition.stop current + 2
  | .stopped => 1
  | .scan partition current =>
      g.rowStop current - g.rowStart current + 4 + g.effort 1 partition.stop (current + 1)
  | .row partition current position stop =>
      stop - position + 3 + g.effort 1 partition.stop (current + 1)

def GatheringPoint.left : GatheringPoint → Nat
  | .node partition current _ => partition.stop - current + 1

theorem counting_descends : (counting g).Descends false (fun _ _ => True)
    fun _ bodies => load (CountingPoint.left g) bodies := by
  refine Work.descends_of_left fun ⟨inDegrees, cancelAt⟩ body told => ?_
  cases body with
  | node partition node =>
      simp only [counting]
      by_cases more : node < partition.stop
      · rw [if_pos more]
        cases told <;>
          simp only [Action.leavings, load_singleton, CountingPoint.left, Bool.false_eq_true,
            if_false, if_true, g.effort_of_lt more] <;>
          omega
      · rw [if_neg more]
        exact Nat.succ_pos _
  | stopped => exact Nat.one_pos
  | scan partition node =>
      simp only [counting]
      split <;>
        simp only [Action.leavings, load_singleton, CountingPoint.left] <;>
        omega
  | row partition node position stop =>
      simp only [counting]
      by_cases more : position < stop
      · rw [if_pos more]
        simp only [Action.leavings, load_singleton, CountingPoint.left]
        omega
      · rw [if_neg more]
        simp only [Action.leavings, load_singleton, CountingPoint.left]
        omega

theorem gathering_descends : gathering.Descends false (fun _ _ => True)
    fun _ bodies => load GatheringPoint.left bodies := by
  refine Work.descends_of_left fun ⟨inDegrees, sources⟩ ⟨partition, node, found⟩ told => ?_
  simp only [gathering]
  by_cases more : node < partition.stop
  · rw [if_pos more]
    simp only [Action.leavings, load_singleton, GatheringPoint.left]
    omega
  · rw [if_neg more]
    exact Nat.succ_pos _

/-! ### Traversal -/

open TraversalPoint

def outDegree (g : Graph) (node : Nat) : Nat := g.rowStop node - g.rowStart node

/-- The relationships of a task whose distances have still to be compared. -/
def TraversalPoint.uncompared (g : Graph) : TraversalPoint → Nat
  | .claim node | .place node _ | .mark node | .scan node => outDegree g node
  | .row _ position stop => stop - position
  | .relax _ position stop | .raise _ position stop _ _ => stop - (position + 1) + 1
  | .release _ position stop | .released _ position stop => stop - (position + 1)
  | .leave => 0

/-- The accesses that a call has still to make to raise a cell, if nobody else raises it. -/
def attempts (distances : Cells) (target : Nat) : Raising → Nat
  | .observe => 3
  | .exchange observed => if distances.value target = observed then 1 else 2

/-- The steps that a task has still to make if nobody else raises a distance. -/
def TraversalPoint.left (g : Graph) (distances : Option Cells) : TraversalPoint → Nat
  | .claim node => 8 * outDegree g node + 6
  | .place node _ => 8 * outDegree g node + 5
  | .mark node => 8 * outDegree g node + 4
  | .scan node => 8 * outDegree g node + 3
  | .row _ position stop => 8 * (stop - position) + 2
  | .relax _ position stop => 8 * (stop - (position + 1)) + 8
  | .raise _ position stop _ point => 8 * (stop - (position + 1)) + 4 +
      attempts (distances.getD (.replicate 0 0)) (g.target position) point
  | .release _ position stop => 8 * (stop - (position + 1)) + 4
  | .released _ position stop => 8 * (stop - (position + 1)) + 3
  | .leave => 1

/-- The comparisons that are left for the tasks and for the tasks of the waiting nodes. -/
def comparisons (g : Graph) (store : Traversal) (bodies : Multiset TraversalPoint) : Nat :=
  load (uncompared g) bodies + ∑ node ∈ waiting g store.inDegrees, outDegree g node

/-- The steps that are left for the tasks and for the tasks of the waiting nodes if nobody else
raises a distance. -/
def steps (g : Graph) (store : Traversal) (bodies : Multiset TraversalPoint) : Nat :=
  load (TraversalPoint.left g store.result.distances) bodies +
    ∑ node ∈ waiting g store.inDegrees, (8 * outDegree g node + 6)

/-- The tasks are those of undisturbed work, apart from tasks that stand still in it. -/
def Upheld (g : Graph) (store : Traversal) (bodies : Multiset TraversalPoint) : Prop :=
  ∃ lineup still, Kahn g lineup store (bodies + still)

/-- Only a task that asks whether to go on, and one at which cancellation may be requested, can be
disturbed. -/
theorem traversal_steady (store : Traversal) {body : TraversalPoint} (told : Bool)
    (noScan : ∀ node, body ≠ .scan node)
    (noPoll : ∀ node position stop, body ≠ .released node position stop) :
    ((traversal g).step store body).2.successors (traversal g).start true =
      some (((traversal g).step store body).2.leavings (traversal g).start true told) := by
  obtain ⟨inDegrees, ⟨order, size, sorted, distances⟩, cancelAt⟩ := store
  cases body with
  | scan node => exact absurd rfl (noScan node)
  | released node position stop => exact absurd rfl (noPoll node position stop)
  | claim | place | mark | relax | leave => rfl
  | row node position stop =>
      simp only [traversal]
      split
      · split <;> rfl
      · rfl
  | raise node position stop candidate point =>
      cases distances with
      | none => rfl
      | some distances =>
          simp only [traversal]
          rcases (Cells.raising (g.target position) candidate).step () distances point with
            ⟨distances', next | answer⟩ <;> rfl
  | release node position stop =>
      simp only [traversal]
      split <;> rfl

/-- Tasks stay upheld, whatever they are told. -/
theorem Upheld.step (wellFormed : g.WellFormed) (fits : g.relationshipCount ≤ Word.top)
    {store : Traversal} {body : TraversalPoint} {rest : Multiset TraversalPoint} (told : Bool)
    (upheld : Upheld g store (body ::ₘ rest)) :
    Upheld g ((traversal g).step store body).1
      (((traversal g).step store body).2.leavings (traversal g).start true told + rest) := by
  obtain ⟨lineup, still, kahn⟩ := upheld
  rw [Multiset.cons_add] at kahn
  have valid := kahn.degrees.valid body (Multiset.mem_cons_self body _)
  by_cases scanning : ∃ node, body = .scan node
  · obtain ⟨node, rfl⟩ := scanning
    obtain ⟨inDegrees, ⟨order, size, sorted, distances⟩, cancelAt⟩ := store
    refine ⟨lineup, still, ?_⟩
    rw [add_assoc]
    simp only [traversal]
    split
    all_goals exact kahn.passOn _ _ rfl rfl ⟨valid, Nat.le_refl _, rfl⟩ rfl
  by_cases asking : ∃ node position stop, body = .released node position stop
  · obtain ⟨node, position, stop, rfl⟩ := asking
    obtain ⟨inDegrees, ⟨order, size, sorted, distances⟩, cancelAt⟩ := store
    obtain ⟨freed, le, atStop, lt⟩ := valid
    have goesOn : (row node (position + 1) stop).Valid g inDegrees :=
      ⟨freed, Nat.le_succ_of_le le, atStop⟩
    cases told with
    | true =>
        refine ⟨lineup, still, ?_⟩
        rw [add_assoc]
        exact kahn.passOn _ _ rfl rfl goesOn rfl
    | false =>
        -- The task leaves, and the rest of its row stands still.
        refine ⟨lineup, row node (position + 1) stop ::ₘ still, ?_⟩
        have passed : Kahn g lineup ⟨inDegrees, ⟨order, size, sorted, distances⟩, cancelAt⟩
            ({leave, row node (position + 1) stop} + (rest + still)) := by
          refine kahn.pass distances cancelAt rfl (fun next member => ?_) fun other => ?_
          · rcases Multiset.mem_cons.mp member with rfl | member
            · exact ⟨rfl, trivial⟩
            · obtain rfl := Multiset.mem_singleton.mp member
              exact ⟨rfl, goesOn⟩
          · rw [Multiset.insert_eq_cons, load_cons, load_singleton]
            exact Nat.zero_add _
        rwa [Multiset.insert_eq_cons, Multiset.cons_add, Multiset.singleton_add,
          ← Multiset.add_cons, ← Multiset.cons_add, ← Multiset.singleton_add leave] at passed
  · obtain ⟨lineup', kahn'⟩ := kahn.step wellFormed fits (traversal_steady store told
      (fun node same => scanning ⟨node, same⟩)
      fun node position stop same => asking ⟨node, position, stop, same⟩)
    refine ⟨lineup', still, ?_⟩
    rwa [add_assoc]

theorem Upheld.drop {store : Traversal} {body : TraversalPoint} {rest : Multiset TraversalPoint}
    (upheld : Upheld g store (body ::ₘ rest)) : Upheld g store rest := by
  obtain ⟨lineup, still, kahn⟩ := upheld
  refine ⟨lineup, body ::ₘ still, ?_⟩
  rwa [Multiset.add_cons, ← Multiset.cons_add]

/-- A try to raise a distance succeeds, and the call is over, or takes the call nearer to its end.
-/
theorem attempts_step (distances : Cells) (target : Nat) (candidate : Int) (point : Raising) :
    (∃ answer, ((Cells.raising target candidate).step () distances point).2 = .done answer) ∨
      ((Cells.raising target candidate).step () distances point).1 = distances ∧
        ∃ next, ((Cells.raising target candidate).step () distances point).2 = .more next ∧
          attempts distances target next < attempts distances target point := by
  have decided (seen : Nat) (more : attempts distances target
        (.exchange (distances.value target)) < seen) :
      (∃ answer, Cells.decideRaise candidate (distances.value target) = .done answer) ∨
        ∃ next, Cells.decideRaise candidate (distances.value target) = .more next ∧
          attempts distances target next < seen := by
    unfold Cells.decideRaise
    split
    · exact .inr ⟨_, rfl, more⟩
    · exact .inl ⟨false, rfl⟩
  cases point with
  | observe =>
      exact (decided 3 (by simp [attempts])).imp_right fun more => ⟨rfl, more⟩
  | exchange observed =>
      by_cases same : distances.value target = observed
      · left
        exact ⟨true, by simp [Cells.raising, Cells.compareExchange, same]⟩
      · simp only [Cells.raising, Cells.compareExchange, same, if_false]
        refine (decided (attempts distances target (.exchange observed)) ?_).imp_right
          fun more => ⟨trivial, more⟩
        simp [attempts, same]

/-- A step of a task to other bodies compares a distance, or it leaves the distances as they are and
takes the task nearer to its end. -/
def Nears (g : Graph) (before after : Traversal) (body : TraversalPoint)
    (bodies : Multiset TraversalPoint) : Prop :=
  comparisons g after bodies < comparisons g before {body} ∨
    comparisons g after bodies ≤ comparisons g before {body} ∧
      after.result.distances = before.result.distances ∧
        steps g after bodies < steps g before {body}

/-- A step that releases nobody compares a distance if one comparison less is left for the task. -/
theorem Nears.of_uncompared_lt {before after : Traversal} {body next : TraversalPoint}
    (counters : after.inDegrees = before.inDegrees) (lt : next.uncompared g < body.uncompared g) :
    Nears g before after body {next} := by
  refine .inl ?_
  rw [comparisons, comparisons, counters, load_singleton, load_singleton]
  exact Nat.add_lt_add_right lt _

/-- A step takes the task nearer to its end if no comparison is added and one step less is left. -/
theorem Nears.of_left_lt {before after : Traversal} {body next : TraversalPoint}
    (counters : after.inDegrees = before.inDegrees)
    (distances : after.result.distances = before.result.distances)
    (le : next.uncompared g ≤ body.uncompared g)
    (lt : next.left g before.result.distances < body.left g before.result.distances) :
    Nears g before after body {next} := by
  refine .inr ⟨?_, distances, ?_⟩
  · rw [comparisons, comparisons, counters, load_singleton, load_singleton]
    exact Nat.add_le_add_right le _
  · rw [steps, steps, counters, distances, load_singleton, load_singleton]
    exact Nat.add_lt_add_right lt _

/-- Taking a relationship away takes the task nearer to its end. A target that is released does not
wait any more, and what was left for it is left for its task. -/
theorem Nears.release {store after : Traversal} {current position stop : Nat}
    {rest : Multiset TraversalPoint} (wellFormed : g.WellFormed)
    (fits : g.relationshipCount ≤ Word.top)
    (degrees : Degrees g store.inDegrees (.release current position stop ::ₘ rest))
    (counters : after.inDegrees = Degrees.lowered g store.inDegrees position)
    (distances : after.result.distances = store.result.distances) :
    Nears g store after (.release current position stop)
      (Degrees.followers g store.inDegrees current position stop) := by
  have waits : g.target position ∈ waiting g store.inDegrees := Finset.mem_filter.mpr
    ⟨Finset.mem_range.mpr (degrees.target_lt wellFormed), degrees.target_waits wellFormed fits⟩
  refine .inr ⟨?_, distances, ?_⟩
  · rw [comparisons, comparisons, counters, degrees.waiting_lowered wellFormed fits,
      Degrees.followers]
    split
    · rw [← Finset.add_sum_erase _ (outDegree g) waits]
      simp only [Multiset.insert_eq_cons, load_cons, load_singleton, uncompared]
      omega
    · simp only [load_singleton, uncompared]
      omega
  · rw [steps, steps, counters, distances, degrees.waiting_lowered wellFormed fits,
      Degrees.followers]
    split
    · rw [← Finset.add_sum_erase _ (fun node => 8 * outDegree g node + 6) waits]
      simp only [Multiset.insert_eq_cons, load_cons, load_singleton, TraversalPoint.left]
      omega
    · simp only [load_singleton, TraversalPoint.left]
      omega

/-- Every step of a task takes it nearer to its end, whatever it is told. -/
theorem traversal_nears (wellFormed : g.WellFormed) (fits : g.relationshipCount ≤ Word.top)
    {store : Traversal} {body : TraversalPoint} {others : Multiset TraversalPoint} (told : Bool)
    (degrees : Degrees g store.inDegrees (body ::ₘ others)) :
    Nears g store ((traversal g).step store body).1 body
      (((traversal g).step store body).2.leavings (traversal g).start true told) := by
  obtain ⟨inDegrees, ⟨order, size, sorted, distances⟩, cancelAt⟩ := store
  cases body with
  | claim | place | mark => exact .of_left_lt rfl rfl (le_refl _) (Nat.lt_succ_self _)
  | scan node =>
      simp only [traversal]
      split <;> exact .of_left_lt rfl rfl (le_refl _) (Nat.lt_succ_self _)
  | row node position stop =>
      simp only [traversal]
      by_cases more : position < stop
      · rw [if_pos more]
        split
        · refine .of_left_lt rfl rfl ?_ ?_ <;> simp only [uncompared, TraversalPoint.left] <;> omega
        · refine .of_left_lt rfl rfl ?_ ?_ <;> simp only [uncompared, TraversalPoint.left] <;> omega
      · rw [if_neg more]
        refine .of_left_lt rfl rfl ?_ ?_ <;> simp only [uncompared, TraversalPoint.left] <;> omega
  | relax node position stop =>
      cases distances with
      | none =>
          exact .of_uncompared_lt rfl (Nat.lt_succ_self _)
      | some distances => exact .of_left_lt rfl rfl (le_refl _) (Nat.lt_succ_self _)
  | raise node position stop candidate point =>
      cases distances with
      | none => exact .of_uncompared_lt rfl (Nat.lt_succ_self _)
      | some distances =>
          have tried := attempts_step distances (g.target position) candidate point
          simp only [traversal]
          rcases accessed : (Cells.raising (g.target position) candidate).step () distances point
            with ⟨distances', next | answer⟩
          · rw [accessed] at tried
            obtain ⟨answer, ended⟩ | ⟨rfl, next', same, fewer⟩ := tried
            · cases ended
            · obtain rfl := Turn.more.inj same
              exact .of_left_lt rfl rfl (le_refl _) (Nat.add_lt_add_left fewer _)
          · exact .of_uncompared_lt rfl (Nat.lt_succ_self _)
  | release node position stop =>
      rw [Degrees.followers_of_successors (traversal_steady _ told (by simp) (by simp))]
      exact .release wellFormed fits degrees rfl rfl
  | released node position stop =>
      cases told with
      | true => exact .of_left_lt rfl rfl (le_refl _) (Nat.lt_succ_self _)
      | false =>
          have less : 1 < 8 * (stop - (position + 1)) + 3 := by omega
          exact .of_left_lt rfl rfl (Nat.zero_le _) less
  | leave =>
      refine .inr ⟨le_refl _, rfl, Nat.add_lt_add_right ?_ _⟩
      rw [load_singleton]
      exact Nat.one_pos

/-- What the tasks and the tasks of the waiting nodes have still to do: the comparisons come first.
-/
def traversalRank (g : Graph) (store : Traversal) (bodies : Multiset TraversalPoint) :
    Nat ×ₗ Nat :=
  toLex (comparisons g store bodies, steps g store bodies)

theorem Nears.rank_lt {before after : Traversal} {body : TraversalPoint}
    {bodies : Multiset TraversalPoint} (nears : Nears g before after body bodies)
    (rest : Multiset TraversalPoint) :
    traversalRank g after (bodies + rest) < traversalRank g before (body ::ₘ rest) := by
  simp only [Nears, comparisons, steps, load_singleton] at nears
  simp only [traversalRank, comparisons, steps, load_add, load_cons]
  rcases nears with compared | ⟨le, same, nearer⟩
  · refine Prod.Lex.toLex_lt_toLex.mpr (.inl ?_)
    simp only
    omega
  · rw [same] at nearer ⊢
    refine Prod.Lex.toLex_lt_toLex'.mpr ⟨?_, fun _ => ?_⟩
    · simp only
      omega
    · simp only
      omega

/-- The tasks of the traversal descend, whatever they are told and whichever of them are dropped. -/
theorem traversal_descends (wellFormed : g.WellFormed) (fits : g.relationshipCount ≤ Word.top) :
    (traversal g).Descends true (Upheld g) (traversalRank g) where
  step := by
    intro store body rest told upheld
    refine ⟨upheld.step wellFormed fits told, Nears.rank_lt ?_ rest⟩
    obtain ⟨lineup, still, kahn⟩ := upheld
    rw [Multiset.cons_add] at kahn
    exact traversal_nears wellFormed fits told kahn.degrees
  drop := by
    intro store body rest upheld
    refine ⟨upheld.drop, Prod.Lex.toLex_le_toLex'.mpr ⟨?_, fun _ => ?_⟩⟩
    · simp only [comparisons, load_cons]
      omega
    · simp only [steps, load_cons]
      omega

/-- Tasks go on in the same way whether or not the task of a target that they release is queued. -/
theorem traversal_heedless : (traversal g).Heedless := by
  intro store body child next forks
  obtain ⟨inDegrees, ⟨order, size, sorted, distances⟩, cancelAt⟩ := store
  cases body with
  | release node position stop =>
      simp only [traversal] at forks
      split at forks
      · cases forks
        rfl
      · cases forks
  | row node position stop =>
      simp only [traversal] at forks
      split at forks
      · split at forks <;> cases forks
      · cases forks
  | scan node =>
      simp only [traversal] at forks
      split at forks <;> cases forks
  | raise node position stop candidate point =>
      cases distances with
      | none => cases forks
      | some distances =>
          simp only [traversal] at forks
          rcases accessed : (Cells.raising (g.target position) candidate).step () distances point
            with ⟨distances', next | answer⟩ <;> rw [accessed] at forks <;> cases forks
  | claim | place | mark | relax | released | leave => cases forks

end GraphAnalytics.TopologicalOrder
