/-
# The family of a root

A seed and all that descends from it by accepted forks are the family of a root. Who belongs to it
can be read off what has happened (`lineage`). A member is spawned when the latch of the root is
raised for it, a seed from the beginning and a child while its parent still runs, and it has
completed when it has lowered the latch. At any moment the latch is the number of members in
between (`outstanding`), so it is zero when all members have completed and not before.

That a latch comes to zero is an event of its own (`Empties`): it takes the last member of the
family, it cannot be taken back, and in a phase that has drained it has occurred once for every
root. Nothing of this depends on how the phase ends.
-/

import GraphAnalytics.Proofs.Schedule.Drained
import Mathlib.Data.Nat.Find

namespace GraphAnalytics.ForkJoin

variable {σ ι β π : Type}

/-! ### Members of a family -/

def Stage.completed : Stage ι β → Bool
  | .draining | .finished => true
  | _ => false

/-- The task has raised the latch for a child that it has yet to queue. -/
def Stage.expects : Stage ι β → Bool
  | .queueing .. => true
  | _ => false

/-- The tasks of a root that were spawned and have not completed. A child counts as spawned once the
latch is raised for it, so some of them are not queued yet. -/
def outstanding (root : Nat) (tasks : Array (Task ι β)) : Nat :=
  tasks.toList.countP (fun task => task.root = root ∧ task.stage.completed = false) +
    tasks.toList.countP fun task => task.root = root ∧ task.stage.expects = true

/-- The task whose fork was accepted. -/
def Happening.parent? : Happening ι → Option Nat
  | .forked parent _ true => some parent
  | _ => none

/-- The roots of some tasks after one of them has forked another. -/
def adopt (roots : List Nat) (parent : Nat) : List Nat := roots ++ roots[parent]?.toList

/-- The roots of all tasks that were ever queued: a seed is a root of its own, and a child belongs
to the root of the task that forked it. -/
def lineage (roots : Nat) (past : List (Happening ι)) : List Nat :=
  (past.filterMap Happening.parent?).foldl adopt (List.range roots)

theorem lineage_append (roots : Nat) (past more : List (Happening ι)) :
    lineage roots (past ++ more) =
      (more.filterMap Happening.parent?).foldl adopt (lineage roots past) := by
  rw [lineage, List.filterMap_append, List.foldl_append, lineage]

/-- What a task holds of the latch of its root: itself until it has completed, and the child that it
is about to queue. -/
theorem Stage.held_eq (stage : Stage ι β) :
    stage.held = (if stage.completed = false then 1 else 0) +
      if stage.expects = true then 1 else 0 := by
  cases stage <;> rfl

/-- What the tasks hold of a latch are the tasks of its root that have not completed. -/
theorem held_eq_outstanding (root : Nat) (tasks : Array (Task ι β)) :
    held root tasks = outstanding root tasks := by
  rw [held, outstanding]
  induction tasks.toList with
  | nil => rfl
  | cons task tasks ih =>
      rw [List.map_cons, List.sum_cons, ih, List.countP_cons, List.countP_cons, Task.held,
        Stage.held_eq]
      by_cases own : task.root = root
      · simp only [own, true_and, decide_eq_true_eq, if_true]
        omega
      · simp [own]

theorem Stage.expects_of_completed {stage : Stage ι β} (completed : stage.completed = true) :
    stage.expects = false := by
  cases stage with
  | draining | finished => rfl
  | _ => cases completed

theorem outstanding_eq_zero_iff {root : Nat} {tasks : Array (Task ι β)} :
    outstanding root tasks = 0 ↔
      ∀ task ∈ tasks, task.root = root → task.stage.completed = true := by
  rw [outstanding, Nat.add_eq_zero_iff, List.countP_eq_zero, List.countP_eq_zero]
  constructor
  · rintro ⟨none, -⟩ task member own
    simpa [own] using none task (Array.mem_toList_iff.mpr member)
  · intro all
    refine ⟨fun task member => ?_, fun task member => ?_⟩ <;>
      have completed := all task (Array.mem_toList_iff.mp member)
    · simpa using completed
    · simpa using fun own => Stage.expects_of_completed (completed own)

/-- The latch of a root counts the tasks of the root that are outstanding. -/
theorem Latched.latch_eq_outstanding {roots root : Nat} {hub : Hub σ π} {tasks : Array (Task ι β)}
    (latched : Latched roots hub tasks) (less : root < roots) :
    hub.latches[root]? = some (outstanding root tasks) := by
  rw [latched.latch_eq root less, held_eq_outstanding]

theorem Latched.latch_eq_zero_iff {roots root : Nat} {hub : Hub σ π} {tasks : Array (Task ι β)}
    (latched : Latched roots hub tasks) (less : root < roots) : hub.latches[root]? = some 0 ↔
      ∀ task ∈ tasks, task.root = root → task.stage.completed = true := by
  rw [latched.latch_eq_outstanding less, Option.some.injEq, outstanding_eq_zero_iff]

/-! ### Before the first move -/

def Task.isQueued (task : Task ι β) : Bool :=
  match task.stage with
  | .queued _ => true
  | _ => false

/-- A caller that has returned was refused before a task was taken up, or no task was left and it
has noted how many roots have drained. -/
def Answered (roots : Nat) (phase : ForkJoin σ ι β π) : Prop :=
  match phase.caller with
  | .opening => phase.tasks.all Task.isQueued = true
  | .waiting => True
  | .closed outcome =>
      phase.tasks.all Task.isQueued = true ∧ outcome = .error .terminated ∨
        phase.tasks.all Task.isFinished = true ∧
          .forkJoinFinished roots phase.hub.ran roots ∈ phase.hub.context.events

theorem answered_opening (seeds : List ι) (shared : σ) (context : Context π) :
    Answered seeds.length (opening seeds shared context : ForkJoin σ ι β π) := by
  refine Array.all_eq_true'.mpr fun task member => ?_
  simp only [opening, List.mem_toArray, List.mem_map] at member
  obtain ⟨entry, -, rfl⟩ := member
  rfl

theorem lineage_opening (seeds : List ι) (shared : σ) (context : Context π) :
    (opening seeds shared context : ForkJoin σ ι β π).tasks.toList.map Task.root =
      lineage seeds.length ([] : List (Happening ι)) := by
  rw [opening, List.map_map]
  exact (List.zipIdx_map_snd 0 seeds).trans List.range_eq_range'.symm

/-! ### Moves -/

/-- A member of the family queues a child, which belongs to the same root. -/
theorem roots_replaced {tasks : Array (Task ι β)} {number root : Nat} {stage : Stage ι β}
    (here : tasks[number]? = some ⟨root, stage⟩) (next : Stage ι β) (child : Option ι) :
    (replaced tasks number root next child).toList.map Task.root =
      (child.toList.map fun _ => number).foldl adopt (tasks.toList.map Task.root) := by
  have own : (tasks.toList.map Task.root)[number]? = some root := by simp [here]
  have same : (tasks.toList.map Task.root).set number root = tasks.toList.map Task.root := by
    obtain ⟨less, value⟩ := List.getElem?_eq_some_iff.mp own
    conv_lhs => rw [← value]
    exact List.set_getElem_self less
  cases child with
  | none =>
      rw [replaced, Array.toList_setIfInBounds, List.map_set, same]
      rfl
  | some item =>
      rw [replaced, Array.toList_push, Array.toList_setIfInBounds, List.map_append, List.map_set,
        same]
      show _ = adopt _ number
      rw [adopt, own]
      rfl

theorem Stage.parents_happenings [Progress.Sink π] (work : Work σ ι β) (stage : Stage ι β)
    (number root : Nat) (hub : Hub σ π) :
    (stage.happenings work number hub).filterMap Happening.parent? =
      (stage.next work root hub).2.2.toList.map fun _ => number := by
  cases stage with
  | active body =>
      rcases taken : work.step hub.shared body with ⟨store, action⟩
      simp only [next_active work root taken, happenings, taken]
      rcases action with next | next | ⟨child, next⟩ | next | outcome <;> rfl
  | forking child next | unabortedFork child next =>
      simp only [Stage.next, happenings]
      split <;> rfl
  | _ => rfl

variable [Progress.Sink π] {work : Work σ ι β} {roots : Nat} {phase : ForkJoin σ ι β π}

/-- A move either is a step of a task, or it leaves the tasks and their latches as they are. -/
theorem advances_or_rests (work : Work σ ι β) (phase : ForkJoin σ ι β π) (move : Move) :
    (∃ number root stage, move = .advance number ∧
        phase.tasks[number]? = some ⟨root, stage⟩ ∧
        phase.apply work move = ⟨(stage.next work root phase.hub).1,
          replaced phase.tasks number root (stage.next work root phase.hub).2.1
            (stage.next work root phase.hub).2.2, .waiting⟩ ∧
        phase.happenings work move = stage.happenings work number phase.hub) ∨
      (phase.apply work move).hub.latches = phase.hub.latches ∧
        (phase.apply work move).hub.drained = phase.hub.drained ∧
        (phase.apply work move).tasks = phase.tasks ∧
        (phase.happenings work move).filterMap Happening.parent? = [] := by
  obtain ⟨hub, tasks, caller⟩ := phase
  cases caller with
  | closed outcome => cases move <;> exact .inr ⟨rfl, rfl, rfl, rfl⟩
  | opening =>
      cases move with
      | begin =>
          refine .inr ?_
          simp only [apply, begin]
          split <;> exact ⟨rfl, rfl, rfl, rfl⟩
      | _ => exact .inr ⟨rfl, rfl, rfl, rfl⟩
  | waiting =>
      cases move with
      | begin | cancel => exact .inr ⟨rfl, rfl, rfl, rfl⟩
      | close =>
          refine .inr ?_
          simp only [apply, close]
          split <;> exact ⟨rfl, rfl, rfl, rfl⟩
      | advance number =>
          cases here : tasks[number]? with
          | none =>
              refine .inr ?_
              simp [apply, ForkJoin.advance, happenings, here]
          | some task =>
              obtain ⟨root, stage⟩ := task
              refine .inl ⟨number, root, stage, rfl, here, advance_of_getElem? work here, ?_⟩
              simp only [happenings, here]

theorem Latched.apply (latched : Latched roots phase.hub phase.tasks) (move : Move) :
    Latched roots (phase.apply work move).hub (phase.apply work move).tasks := by
  rcases advances_or_rests work phase move with
    ⟨number, root, stage, -, here, after, -⟩ | ⟨latches, drained, tasks, -⟩
  · rw [after]
    exact latched.advance work here
  · constructor
    case size_eq => rw [latches, latched.size_eq]
    case root_lt => rw [tasks]; exact latched.root_lt
    case latch_eq => rw [latches, tasks]; exact latched.latch_eq
    case drained_eq => rw [latches, drained, tasks]; exact latched.drained_eq

theorem Latched.replay (latched : Latched roots phase.hub phase.tasks) (moves : List Move) :
    Latched roots (phase.replay work moves).hub (phase.replay work moves).tasks := by
  induction moves generalizing phase with
  | nil => exact latched
  | cons move moves ih => exact ih (latched.apply move)

/-- Every task belongs to the root that it descends from. -/
theorem lineage_replay {past : List (Happening ι)}
    (known : phase.tasks.toList.map Task.root = lineage roots past) (moves : List Move) :
    (phase.replay work moves).tasks.toList.map Task.root =
      lineage roots (past ++ phase.record work moves) := by
  induction moves generalizing past phase with
  | nil => rwa [record, List.append_nil]
  | cons move moves ih =>
      rw [record, ← List.append_assoc]
      refine ih ?_
      rw [lineage_append, ← known]
      rcases advances_or_rests work phase move with
        ⟨number, root, stage, -, here, after, happened⟩ | ⟨-, -, tasks, happened⟩
      · rw [after, happened, roots_replaced here, stage.parents_happenings work number root]
      · rw [tasks, happened]
        rfl

/-! ### When a latch comes to zero -/

def Empties (work : Work σ ι β) (root : Nat) (phase : ForkJoin σ ι β π) (move : Move) : Prop :=
  phase.hub.latches[root]? ≠ some 0 ∧ (phase.apply work move).hub.latches[root]? = some 0

theorem Stage.next_of_completed (work : Work σ ι β) {stage : Stage ι β}
    (completed : stage.completed = true) (root : Nat) (hub : Hub σ π) :
    (stage.next work root hub).2 = (.finished, none) := by
  cases stage with
  | draining | finished => rfl
  | _ => cases completed

theorem Stage.eq_completing (work : Work σ ι β) {stage : Stage ι β} {root : Nat} {hub : Hub σ π}
    (running : stage.completed = false)
    (completed : (stage.next work root hub).2.1.completed = true) : stage = .completing := by
  cases stage with
  | completing => rfl
  | draining | finished => cases running
  | active body =>
      rcases taken : work.step hub.shared body with ⟨store, action⟩
      rw [next_active work root taken] at completed
      rcases action with next | next | ⟨child, next⟩ | next | ⟨fault | processed⟩ <;>
        cases completed
  | queued | unaborted | refused | forking | unabortedFork =>
      simp only [Stage.next] at completed
      split at completed <;> cases completed
  | _ => cases completed

theorem Latched.vacant_apply (latched : Latched roots phase.hub phase.tasks) {root : Nat}
    (less : root < roots) (vacant : phase.hub.latches[root]? = some 0) (move : Move) :
    (phase.apply work move).hub.latches[root]? = some 0 := by
  rw [latched.latch_eq_zero_iff less] at vacant
  rw [(latched.apply move).latch_eq_zero_iff less]
  rcases advances_or_rests work phase move with
    ⟨number, own, stage, -, here, after, -⟩ | ⟨-, -, tasks, -⟩
  · intro task member same
    rw [after] at member
    obtain ⟨index, found⟩ := Array.getElem?_of_mem member
    rw [getElem?_replaced here] at found
    split at found
    · obtain rfl := Option.some.inj found
      have completed := vacant _ (Array.mem_of_getElem? here) same
      rw [stage.next_of_completed work completed]
      rfl
    · split at found
      · obtain ⟨item, child, rfl⟩ := Option.map_eq_some_iff.mp found
        have completed := vacant _ (Array.mem_of_getElem? here) same
        rw [stage.next_of_completed work completed] at child
        cases child
      · exact vacant task (Array.mem_of_getElem? found) same
  · rwa [tasks]

theorem Latched.vacant_replay (latched : Latched roots phase.hub phase.tasks) {root : Nat}
    (less : root < roots) (vacant : phase.hub.latches[root]? = some 0) (moves : List Move) :
    (phase.replay work moves).hub.latches[root]? = some 0 := by
  induction moves generalizing phase with
  | nil => exact vacant
  | cons move moves ih => exact ih (latched.apply move) (latched.vacant_apply less vacant move)

/-- A latch comes to zero when a task of its root completes and all others have completed before. -/
theorem Latched.last_of_empties (latched : Latched roots phase.hub phase.tasks) {root : Nat}
    (less : root < roots) {move : Move} (empties : Empties work root phase move) :
    ∃ number, move = .advance number ∧ phase.tasks[number]? = some ⟨root, .completing⟩ ∧
      ∀ (other : Nat) (task : Task ι β), other ≠ number → phase.tasks[other]? = some task →
        task.root = root → task.stage.completed = true := by
  obtain ⟨before, zero⟩ := empties
  have all := (latched.apply move).latch_eq_zero_iff less |>.mp zero
  rcases advances_or_rests work phase move with
    ⟨number, own, stage, rfl, here, after, -⟩ | ⟨latches, -⟩
  · rw [after] at all
    have others {other : Nat} {task : Task ι β} (different : other ≠ number)
        (found : phase.tasks[other]? = some task) (same : task.root = root) :
        task.stage.completed = true := by
      have inside : other < phase.tasks.size := (Array.getElem?_eq_some_iff.mp found).1
      refine all task (Array.mem_of_getElem? (i := other) ?_) same
      rw [getElem?_replaced here, if_neg different, if_neg inside.ne, found]
    -- Somebody of the family is left before the move, and nobody but the task that moves can be.
    have left : own = root ∧ stage.completed = false := by
      by_contra complete
      refine before ((latched.latch_eq_zero_iff less).mpr fun task member same => ?_)
      obtain ⟨index, found⟩ := Array.getElem?_of_mem member
      by_cases moved : index = number
      · subst moved
        obtain rfl := Option.some.inj (here.symm.trans found)
        exact (Bool.not_eq_false _).mp fun running => complete ⟨same, running⟩
      · exact others moved found same
    obtain ⟨rfl, running⟩ := left
    have completed := all ⟨own, (stage.next work own phase.hub).2.1⟩
      (Array.mem_of_getElem? (i := number) (by rw [getElem?_replaced here, if_pos rfl])) rfl
    obtain rfl := Stage.eq_completing work running completed
    exact ⟨number, rfl, here, fun other task => others⟩
  · rw [latches] at zero
    exact absurd zero before

/-- The latch of a root comes to zero at the move with this number. -/
def EmptiesAt (work : Work σ ι β) (root : Nat) (phase : ForkJoin σ ι β π) (moves : List Move)
    (count : Nat) : Prop :=
  ∃ move, moves[count]? = some move ∧ Empties work root (phase.replay work (moves.take count)) move

theorem replay_append (before after : List Move) :
    phase.replay work (before ++ after) = (phase.replay work before).replay work after :=
  List.foldl_append

theorem replay_take_succ {moves : List Move} {count : Nat} {move : Move}
    (here : moves[count]? = some move) :
    phase.replay work (moves.take (count + 1)) =
      (phase.replay work (moves.take count)).apply work move := by
  rw [List.take_add_one, here, replay_append]
  rfl

/-- A latch that has come to zero after some moves is zero after more of them. -/
theorem Latched.vacant_take (latched : Latched roots phase.hub phase.tasks) {root : Nat}
    (less : root < roots) {moves : List Move} {early late : Nat} (ordered : early ≤ late)
    (vacant : (phase.replay work (moves.take early)).hub.latches[root]? = some 0) :
    (phase.replay work (moves.take late)).hub.latches[root]? = some 0 := by
  obtain ⟨more, rfl⟩ := Nat.exists_eq_add_of_le ordered
  rw [List.take_add, replay_append]
  exact (latched.replay _).vacant_replay less vacant _

/-- A latch comes to zero just once, or not at all and is not zero in the end. -/
theorem Latched.existsUnique_emptiesAt (latched : Latched roots phase.hub phase.tasks) {root : Nat}
    (less : root < roots) (begun : phase.hub.latches[root]? ≠ some 0) (moves : List Move)
    (vacant : (phase.replay work moves).hub.latches[root]? = some 0) :
    ∃! count, EmptiesAt work root phase moves count := by
  classical
  -- The first moment at which the latch is zero ends the move that has brought it there.
  have sometime : ∃ count, (phase.replay work (moves.take count)).hub.latches[root]? = some 0 :=
    ⟨moves.length, by rwa [List.take_length]⟩
  have within : Nat.find sometime ≤ moves.length :=
    Nat.find_min' sometime (by rwa [List.take_length])
  obtain ⟨count, first⟩ : ∃ count, Nat.find sometime = count + 1 :=
    Nat.exists_eq_add_one_of_ne_zero fun atOnce =>
      begun ((Nat.find_eq_zero sometime).mp atOnce)
  have zero := Nat.find_spec sometime
  rw [first] at zero within
  have here := List.getElem?_eq_getElem within
  rw [replay_take_succ here] at zero
  refine ⟨count, ⟨_, here, Nat.find_min sometime (by omega), zero⟩, ?_⟩
  rintro other ⟨move, there, before, after⟩
  rw [← replay_take_succ there] at after
  rw [← replay_take_succ here] at zero
  refine Nat.le_antisymm (Nat.le_of_not_lt fun later => ?_) (Nat.le_of_not_lt fun earlier => ?_)
  · exact before (latched.vacant_take less later zero)
  · exact Nat.find_min sometime (by omega) (latched.vacant_take less earlier after)

theorem Answered.apply (answered : Answered roots phase)
    (latched : Latched roots phase.hub phase.tasks) (move : Move) :
    Answered roots (phase.apply work move) := by
  obtain ⟨hub, tasks, caller⟩ := phase
  cases caller with
  | closed outcome => cases move <;> exact answered
  | opening =>
      cases move with
      | begin =>
          simp only [ForkJoin.apply, ForkJoin.begin]
          split
          · exact .inl ⟨answered, rfl⟩
          · trivial
      | _ => exact answered
  | waiting =>
      cases move with
      | begin | cancel => trivial
      | advance number =>
          cases here : tasks[number]? with
          | none =>
              simp only [ForkJoin.apply, ForkJoin.advance, here]
              trivial
          | some task =>
              obtain ⟨root, stage⟩ := task
              rw [ForkJoin.apply, advance_of_getElem? work here]
              trivial
      | close =>
          simp only [ForkJoin.apply, ForkJoin.close]
          split
          · next through =>
              refine .inr ⟨through, ?_⟩
              rw [latched.size_eq, latched.drained_of_finished through]
              exact Array.mem_push_self
          · trivial

theorem Answered.replay (answered : Answered roots phase)
    (latched : Latched roots phase.hub phase.tasks) (moves : List Move) :
    Answered roots (phase.replay work moves) := by
  induction moves generalizing phase with
  | nil => exact answered
  | cons move moves ih => exact ih (answered.apply latched move) (latched.apply move)

/-! ### Main results -/

/-- How the latches of a phase stand to its tasks after all that has happened in it. Every task
belongs to the root that it descends from. The latch of a root counts the tasks of the root that
were spawned and have not completed, so it is zero when all of them have, and not while one is
queued or runs. When no task is left all roots were counted as drained, however the phase will end,
and a caller that was let in returns then and notes it. -/
structure Kept (seeds : List ι) (past : List (Happening ι)) (phase : ForkJoin σ ι β π) : Prop where
  lineage_eq : phase.tasks.toList.map Task.root = lineage seeds.length past
  latch_eq : ∀ root < seeds.length,
    phase.hub.latches[root]? = some (outstanding root phase.tasks)
  latch_eq_zero_iff : ∀ root < seeds.length, phase.hub.latches[root]? = some 0 ↔
    ∀ task ∈ phase.tasks, task.root = root → task.stage.completed = true
  drained_eq : phase.tasks.all Task.isFinished = true → phase.hub.drained = seeds.length
  closed : ∀ outcome, phase.caller = .closed outcome →
    phase.tasks.all Task.isQueued = true ∧ outcome = .error .terminated ∨
      phase.tasks.all Task.isFinished = true ∧ phase.hub.drained = seeds.length ∧
        .forkJoinFinished seeds.length phase.hub.ran seeds.length ∈ phase.hub.context.events

/-- When the latch of a root comes to zero in the course of some moves: with a task of the root that
completes when all others have completed. It has happened if the latch is zero in the end, and then
once; it is not taken back; and when no task is left it has happened. -/
structure DrainsOnce (work : Work σ ι β) (root : Nat) (phase : ForkJoin σ ι β π)
    (moves : List Move) : Prop where
  last : ∀ count, EmptiesAt work root phase moves count →
    ∃ number, moves[count]? = some (.advance number) ∧
      (phase.replay work (moves.take count)).tasks[number]? = some ⟨root, .completing⟩ ∧
      ∀ (other : Nat) (task : Task ι β), other ≠ number →
        (phase.replay work (moves.take count)).tasks[other]? = some task →
          task.root = root → task.stage.completed = true
  once : (phase.replay work moves).hub.latches[root]? = some 0 →
    ∃! count, EmptiesAt work root phase moves count
  lasting : ∀ count, EmptiesAt work root phase moves count →
    (phase.replay work moves).hub.latches[root]? = some 0
  drained : (phase.replay work moves).tasks.all Task.isFinished = true →
    ∃! count, EmptiesAt work root phase moves count

/-- A latch that is not zero comes to zero once, with the last task of its root. -/
theorem Latched.drainsOnce (latched : Latched roots phase.hub phase.tasks) {root : Nat}
    (less : root < roots) (begun : phase.hub.latches[root]? ≠ some 0) (moves : List Move) :
    DrainsOnce work root phase moves := by
  have once : (phase.replay work moves).hub.latches[root]? = some 0 →
      ∃! count, EmptiesAt work root phase moves count :=
    latched.existsUnique_emptiesAt less begun moves
  constructor
  case last =>
    rintro count ⟨move, here, empties⟩
    obtain ⟨number, rfl, completing, others⟩ :=
      (latched.replay (moves.take count)).last_of_empties less empties
    exact ⟨number, here, completing, others⟩
  case once => exact once
  case lasting =>
    rintro count ⟨move, here, -, zero⟩
    have inside : count + 1 ≤ moves.length := (List.getElem?_eq_some_iff.mp here).1
    rw [← replay_take_succ here] at zero
    simpa using latched.vacant_take less inside zero
  case drained =>
    refine fun through => once (((latched.replay moves).latch_eq_zero_iff less).mpr ?_)
    intro task member _
    rw [Task.stage_of_isFinished (Array.all_eq_true'.mp through task member)]
    rfl

/-- However the tasks of a fork/join phase interleave, whatever fails and whenever cancellation is
requested, the latch of a root counts what is left of the family of the root, and it comes to zero
once, with the last of them. -/
theorem latches_count_families (work : Work σ ι β) (seeds : List ι) (shared : σ)
    (context : Context π) (moves : List Move) :
    Kept seeds ((opening seeds shared context).record work moves)
        ((opening seeds shared context).replay work moves) ∧
      ∀ root < seeds.length, DrainsOnce work root (opening seeds shared context) moves := by
  have initially := latched_opening (β := β) seeds shared context
  have lastly : Latched seeds.length ((opening seeds shared context).replay work moves).hub
      ((opening seeds shared context).replay work moves).tasks := initially.replay moves
  have answered : Answered seeds.length ((opening seeds shared context).replay work moves) :=
    (answered_opening seeds shared context).replay initially moves
  refine ⟨?_, fun root less => initially.drainsOnce less (by simp [opening, less]) moves⟩
  constructor
  case lineage_eq => exact lineage_replay (lineage_opening seeds shared context) moves
  case latch_eq => exact fun root less => lastly.latch_eq_outstanding less
  case latch_eq_zero_iff => exact fun root less => lastly.latch_eq_zero_iff less
  case drained_eq => exact lastly.drained_of_finished
  case closed =>
    intro outcome closed
    rw [Answered, closed] at answered
    rcases answered with refused | ⟨through, noted⟩
    · exact .inl refused
    · exact .inr ⟨through, lastly.drained_of_finished through, noted⟩

-- Cancellation is requested before the forked task is taken up. The task is dropped, and it is the
-- last one to complete.
example :
    let phase := replay countdown (opening [1] () { sink := Progress.Silent.silent }) (.begin ::
      List.replicate 9 (.advance 0) ++ .cancel :: List.replicate 3 (.advance 0) ++
        List.replicate 7 (.advance 1) ++ [.close])
    (phase.hub.latches, phase.hub.ran, phase.hub.drained, phase.caller.outcome) =
      (#[0], 1, 1, .error (.fault .terminated)) := by decide +kernel

end GraphAnalytics.ForkJoin
