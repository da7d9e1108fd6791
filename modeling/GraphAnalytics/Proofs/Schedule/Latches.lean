/-
# Latches

The latch of a root counts the tasks of that root that have not completed. A task is counted until
it lowers the latch, and a child that is being forked is counted, too, once the latch was raised for
it: before it is queued it counts with the task that forks it (`Stage.held`). So a latch can come to
zero only when no task of its root is left, it does not rise again, and the task that brought it
there counts the root as drained. When all tasks are over every root has drained, and just once.
-/

import GraphAnalytics.Proofs.Schedule.Forking
import Mathlib.Algebra.GroupWithZero.Nat

namespace GraphAnalytics

theorem modify_eq_setIfInBounds {α : Type} {xs : Array α} {i : Nat} {x : α} (here : xs[i]? = some x)
    (f : α → α) : xs.modify i f = xs.setIfInBounds i (f x) := by
  grind

namespace ForkJoin

variable {σ ι β π : Type}

/-- What a task holds of the latch of its root. -/
def Stage.held : Stage ι β → Nat
  | .queueing .. => 2
  | .draining | .finished => 0
  | _ => 1

/-- What a task and a child that it has just queued hold together. -/
def Stage.heldWith (stage : Stage ι β) (child : Option ι) : Nat :=
  stage.held + child.elim 0 fun _ => 1

/-- One for a task that will count its root as drained. -/
def Stage.drains : Stage ι β → Nat
  | .draining => 1
  | _ => 0

def Task.held (root : Nat) (task : Task ι β) : Nat :=
  if task.root = root then task.stage.held else 0

/-- What all tasks hold of the latch of a root. -/
def held (root : Nat) (tasks : Array (Task ι β)) : Nat := (tasks.toList.map (Task.held root)).sum

def vacancy (latch : Nat) : Nat := if latch = 0 then 1 else 0

def vacant (latches : Array Nat) : Nat := (latches.toList.map vacancy).sum

/-- The latches count what the tasks hold of them, and of the roots whose latch has come to zero all
were counted as drained that nobody is about to count. -/
structure Latched (roots : Nat) (hub : Hub σ π) (tasks : Array (Task ι β)) : Prop where
  size_eq : hub.latches.size = roots
  root_lt : ∀ task ∈ tasks, task.root < roots
  latch_eq : ∀ root < roots, hub.latches[root]? = some (held root tasks)
  drained_eq : hub.drained + total Stage.drains tasks = vacant hub.latches

@[simp] theorem Task.held_self (root : Nat) (stage : Stage ι β) :
    Task.held root ⟨root, stage⟩ = stage.held := if_pos rfl

theorem Task.held_of_ne {other root : Nat} (different : other ≠ root) (stage : Stage ι β) :
    Task.held other ⟨root, stage⟩ = 0 := if_neg different.symm

/-- A task that changes its stage changes what it holds of the latch of its root. -/
theorem held_replaced {tasks : Array (Task ι β)} {number root : Nat} {stage : Stage ι β}
    (here : tasks[number]? = some ⟨root, stage⟩) :
    ∃ rest, held root tasks = stage.held + rest ∧ ∀ next (child : Option ι),
      held root (replaced tasks number root next child) = next.heldWith child + rest := by
  obtain ⟨rest, before, after⟩ := sum_replaced (Task.held root) here
  rw [Task.held_self] at before
  refine ⟨rest, before, fun next child => ?_⟩
  rw [held, after, Task.held_self]
  cases child with
  | none => rfl
  | some item => simp only [Option.elim_some, Task.held_self, Stage.heldWith, Stage.held]

theorem held_replaced_of_ne {tasks : Array (Task ι β)} {number root other : Nat} {stage : Stage ι β}
    (here : tasks[number]? = some ⟨root, stage⟩) (different : other ≠ root) (next : Stage ι β)
    (child : Option ι) : held other (replaced tasks number root next child) = held other tasks := by
  obtain ⟨rest, before, after⟩ := sum_replaced (Task.held other) here
  rw [Task.held_of_ne different] at before
  rw [held, after, held, before, Task.held_of_ne different]
  cases child with
  | none => rfl
  | some item => rw [Option.elim_some, Task.held_of_ne different]

theorem root_of_mem_replaced {tasks : Array (Task ι β)} {number root : Nat} {stage : Stage ι β}
    (here : tasks[number]? = some ⟨root, stage⟩) {next : Stage ι β} {child : Option ι}
    {task : Task ι β} (member : task ∈ replaced tasks number root next child) :
    ∃ earlier ∈ tasks, task.root = earlier.root := by
  have own : (⟨root, stage⟩ : Task ι β) ∈ tasks := Array.mem_of_getElem? here
  have changed {task : Task ι β} (member : task ∈ tasks.setIfInBounds number ⟨root, next⟩) :
      ∃ earlier ∈ tasks, task.root = earlier.root := by
    rcases Array.mem_or_eq_of_mem_setIfInBounds member with same | rfl
    · exact ⟨task, same, rfl⟩
    · exact ⟨_, own, rfl⟩
  cases child with
  | none => exact changed member
  | some item =>
      rcases Array.mem_push.mp member with old | rfl
      · exact changed old
      · exact ⟨_, own, rfl⟩

/-- Writing a latch changes the number of latches that are zero by its own share. -/
theorem vacant_set {latches : Array Nat} {root latch : Nat} (here : latches[root]? = some latch)
    (new : Nat) :
    vacant (latches.setIfInBounds root new) + vacancy latch = vacant latches + vacancy new := by
  obtain ⟨rest, before, after⟩ := sum_map_set vacancy
    (show latches.toList[root]? = some latch by simpa using here)
  rw [vacant, Array.toList_setIfInBounds, after, vacant, before]
  omega

/-- When all tasks are over every root was counted as drained, and just once. -/
theorem Latched.drained_of_finished {roots : Nat} {hub : Hub σ π} {tasks : Array (Task ι β)}
    (latched : Latched roots hub tasks)
    (through : tasks.all Task.isFinished = true) : hub.drained = roots := by
  have released (root : Nat) : held root tasks = 0 := by
    refine List.sum_eq_zero fun amount member => ?_
    obtain ⟨⟨own, stage⟩, here, rfl⟩ := List.mem_map.mp member
    have finished := Array.all_eq_true'.mp through _ (Array.mem_toList_iff.mp here)
    cases stage with
    | finished => exact ite_self 0
    | _ => cases finished
  have zero : ∀ latch ∈ hub.latches.toList.map vacancy, latch = 1 := by
    intro share member
    obtain ⟨latch, here, rfl⟩ := List.mem_map.mp member
    obtain ⟨root, less, rfl⟩ := Array.mem_iff_getElem.mp (Array.mem_toList_iff.mp here)
    have known := latched.latch_eq root (latched.size_eq ▸ less)
    rw [released, Array.getElem?_eq_getElem less] at known
    rw [Option.some.inj known]
    rfl
  have counted := latched.drained_eq
  rw [total_of_finished rfl through, vacant, List.sum_eq_card_nsmul _ _ zero, List.length_map,
    Array.length_toList, latched.size_eq] at counted
  exact counted.trans (Nat.mul_one roots)

/-- Of the seeds, numbered from some number on, each holds its own latch. -/
theorem held_zipIdx (seeds : List ι) (number root : Nat) :
    ((seeds.zipIdx number).map fun entry =>
        Task.held root (⟨entry.2, .queued entry.1⟩ : Task ι β)).sum =
      if number ≤ root ∧ root < number + seeds.length then 1 else 0 := by
  induction seeds generalizing number with
  | nil => simp
  | cons seed seeds ih =>
      rw [List.zipIdx_cons, List.map_cons, List.sum_cons, ih, Task.held, List.length_cons]
      simp only [Stage.held]
      split <;> split <;> split <;> omega

theorem latched_opening (seeds : List ι) (shared : σ) (context : Context π) :
    Latched seeds.length (opening seeds shared context : ForkJoin σ ι β π).hub
      (opening seeds shared context : ForkJoin σ ι β π).tasks := by
  constructor
  case size_eq => exact Array.size_replicate
  case root_lt =>
    intro task member
    simp only [opening, List.mem_toArray, List.mem_map] at member
    obtain ⟨⟨seed, root⟩, here, rfl⟩ := member
    exact List.snd_lt_of_mem_zipIdx here
  case latch_eq =>
    intro root less
    have counted : held root (opening seeds shared context : ForkJoin σ ι β π).tasks =
        if 0 ≤ root ∧ root < 0 + seeds.length then 1 else 0 := by
      rw [← held_zipIdx seeds 0 root, held, opening, List.map_map]
      rfl
    rw [counted, if_pos (by omega), opening, Array.getElem?_replicate, if_pos less]
  case drained_eq =>
    rw [total_seeds]
    simp [opening, vacant, vacancy, Stage.drains]

variable [Progress.Sink π]

/-- A step of a task changes the latch of its root as it changes what the task holds of it, and the
root is counted as drained, or about to be, if that brings its latch to zero. -/
theorem Stage.latch_next (work : Work σ ι β) (stage : Stage ι β) {root : Nat} {hub : Hub σ π}
    {rest : Nat} (here : hub.latches[root]? = some (stage.held + rest)) :
    let new := (stage.next work root hub).2.1.heldWith (stage.next work root hub).2.2 + rest
    (stage.next work root hub).1.latches = hub.latches.setIfInBounds root new ∧
      (stage.next work root hub).1.drained + (stage.next work root hub).2.1.drains +
          vacancy (stage.held + rest) =
        hub.drained + stage.drains + vacancy new := by
  -- Most steps leave the latch and what the task holds of it as they are.
  have still {hub' : Hub σ π} {next : Stage ι β} {child : Option ι}
      (latches : hub'.latches = hub.latches) (held : next.heldWith child = stage.held)
      (drained : hub'.drained + next.drains = hub.drained + stage.drains) :
      hub'.latches =
          hub.latches.setIfInBounds root (next.heldWith child + rest) ∧
        hub'.drained + next.drains + vacancy (stage.held + rest) =
          hub.drained + stage.drains + vacancy (next.heldWith child + rest) := by
    rw [held, setIfInBounds_eq_self here, drained]
    exact ⟨latches, rfl⟩
  cases stage with
  | queued | unaborted | refused | forking | unabortedFork =>
      refine still rfl ?_ ?_ <;> simp only [Stage.next] <;> split <;> rfl
  | admitted | queueing | reporting | aborting | recording | draining | finished =>
      exact still rfl rfl rfl
  | active body =>
      rcases taken : work.step hub.shared body with ⟨store, action⟩
      rw [Stage.next_active work root taken]
      rcases action with next | next | ⟨child, next⟩ | next | ⟨fault | processed⟩ <;>
        exact still rfl rfl rfl
  | latching child next =>
      have one : hub.latches[root]? = some (1 + rest) := here
      constructor
      · show hub.latches.modify root (· + 1) = hub.latches.setIfInBounds root (2 + 0 + rest)
        rw [modify_eq_setIfInBounds one]
        congr 1
        omega
      · show hub.drained + 0 + vacancy (1 + rest) = hub.drained + 0 + vacancy (2 + 0 + rest)
        rw [vacancy, vacancy, if_neg (by omega), if_neg (by omega)]
  | completing =>
      have one : hub.latches[root]? = some (1 + rest) := here
      simp only [Stage.next, one]
      by_cases last : rest = 0
      · subst last
        exact ⟨modify_eq_setIfInBounds one _, rfl⟩
      · have others : (some (1 + rest) == some 1) = false := by simpa using last
        rw [others]
        constructor
        · show hub.latches.modify root (· - 1) = hub.latches.setIfInBounds root (0 + 0 + rest)
          rw [modify_eq_setIfInBounds one]
          congr 1
          omega
        · show hub.drained + 0 + vacancy (1 + rest) = hub.drained + 0 + vacancy (0 + 0 + rest)
          rw [vacancy, vacancy, if_neg (by omega), if_neg (by omega)]

theorem Latched.advance {roots : Nat} {hub : Hub σ π} {tasks : Array (Task ι β)}
    (latched : Latched roots hub tasks) (work : Work σ ι β) {number root : Nat}
    {stage : Stage ι β} (here : tasks[number]? = some ⟨root, stage⟩) :
    Latched roots (stage.next work root hub).1
      (replaced tasks number root (stage.next work root hub).2.1
        (stage.next work root hub).2.2) := by
  have inside : root < roots := latched.root_lt _ (Array.mem_of_getElem? here)
  obtain ⟨rest, before, after⟩ := held_replaced here
  have latch := latched.latch_eq root inside
  rw [before] at latch
  obtain ⟨written, counted⟩ := stage.latch_next work latch
  constructor
  case size_eq => rw [written, Array.size_setIfInBounds, latched.size_eq]
  case root_lt =>
    intro task member
    obtain ⟨earlier, was, same⟩ := root_of_mem_replaced here member
    rw [same]
    exact latched.root_lt earlier was
  case latch_eq =>
    intro other less
    rw [written, Array.getElem?_setIfInBounds]
    split
    · next same =>
        rw [latched.size_eq, if_pos inside, ← same, after]
    · next different =>
        rw [latched.latch_eq other less, held_replaced_of_ne here (Ne.symm different)]
  case drained_eq =>
    obtain ⟨drains, drainsBefore, drainsAfter⟩ := total_replaced Stage.drains here
    have vacancies := vacant_set latch
      ((stage.next work root hub).2.1.heldWith (stage.next work root hub).2.2 + rest)
    have waits (child : Option ι) : child.elim 0 (Stage.drains ∘ Stage.queued (β := β)) = 0 := by
      cases child <;> rfl
    have total := latched.drained_eq
    rw [written, drainsAfter, waits]
    omega

end ForkJoin

end GraphAnalytics
