/-
# Fork/join phases

A fork/join phase starts with one task per seed. A task may fork further tasks, which belong to the
same root, and the phase is over when no task is left. Every root has a latch that counts its tasks
that have not completed: a fork raises it before the new task is queued, and a task lowers it when
it completes. A root whose latch comes to zero has drained.

After cancellation, or once a task has failed, forks are refused and queued tasks complete without
running their body. The first failure to be recorded decides the answer; without one the phase fails
if cancellation was requested and succeeds otherwise.

Tasks go through `Stage`s, each of which is one access to one shared location, so looking at the
abort flag, looking at the cancellation flag, raising a latch and queueing a task are separate
moments between which anything else may happen. A list of `Move`s is one way in which the tasks can
interleave.
-/

import GraphAnalytics.Schedule.Work

namespace GraphAnalytics

open Progress

/-- The counts of a finished fork/join phase: its seeds, the bodies that ran, and the roots that
drained. -/
structure ForkJoin.Stats where
  roots : Nat
  tasks : Nat
  drained : Nat
  deriving DecidableEq, Repr

namespace ForkJoin

/-- How far a task has come. A queued task looks at the abort flag when a worker takes it up, and if
it is not aborted at the cancellation flag; then it is counted and starts its body, or looks whether
it was refused for cancellation. A body that forks looks at the two flags in the same order before
the latch is raised for the child and the child is queued. A body that succeeds has its count
reported; one that fails raises the abort flag, and then its failure is recorded if none is. In the
end the task lowers the latch, and the one that lowers it to zero counts its root as drained. -/
inductive Stage (ι β : Type) where
  | queued (item : ι)
  | unaborted (item : ι)
  | admitted (item : ι)
  | refused
  | active (body : β)
  | forking (child : ι) (next : Bool → β)
  | unabortedFork (child : ι) (next : Bool → β)
  | latching (child : ι) (next : Bool → β)
  | queueing (child : ι) (next : Bool → β)
  | reporting (processed : Nat)
  | aborting (fault : Fault)
  | recording (fault : Fault)
  | completing
  | draining
  | finished

/-- A task and the root it belongs to. -/
structure Task (ι β : Type) where
  root : Nat
  stage : Stage ι β

/-- What the tasks share, apart from the list of tasks: the store of the bodies and what the caller
brought; for every root a latch, with the tasks that have not completed; the abort flag, which is
raised when a task has failed or was refused because of cancellation; the failure that was recorded
first; and the counts of the phase. -/
structure Hub (σ π : Type) where
  shared : σ
  context : Context π
  latches : Array Nat
  aborted : Bool := false
  firstFault : Option Fault := none
  ran : Nat := 0
  drained : Nat := 0

end ForkJoin

/-- A fork/join phase in progress, with every task that was ever queued, in that order. -/
structure ForkJoin (σ ι β π : Type) where
  hub : ForkJoin.Hub σ π
  tasks : Array (ForkJoin.Task ι β)
  caller : Caller ForkJoin.Stats := .opening

namespace ForkJoin

variable {σ ι β π : Type}

/-- What can happen next in a fork/join phase: the caller looks at the flag and queues the seeds, a
task makes a step, the caller finds all tasks over, or somebody outside requests cancellation. -/
inductive Move where
  | begin
  | advance (task : Nat)
  | close
  | cancel
  deriving DecidableEq

def Task.isFinished (task : Task ι β) : Bool :=
  match task.stage with
  | .finished => true
  | _ => false

def opening (seeds : List ι) (shared : σ) (context : Context π) : ForkJoin σ ι β π where
  hub := { shared, context, latches := Array.replicate seeds.length 1 }
  tasks := (seeds.zipIdx.map fun (seed, root) => ⟨root, .queued seed⟩).toArray

variable [Sink π]

/-- The caller's first look at the flag: a cancelled phase is over before it has begun. -/
def begin : ForkJoin σ ι β π → ForkJoin σ ι β π
  | ⟨hub, tasks, .opening⟩ =>
      if hub.context.raised then ⟨hub, tasks, .closed (.error .terminated)⟩
      else
        let roots := tasks.size
        ⟨{ hub with context := hub.context.record (.forkJoinStarted roots) }, tasks, .waiting⟩
  | phase => phase

/-- One step of a task of root `root`: what is shared and the task after it, and the item of a task
that it queued. -/
def Stage.next (work : Work σ ι β) (root : Nat) (hub : Hub σ π) :
    Stage ι β → Hub σ π × Stage ι β × Option ι
  | .queued item => (hub, if hub.aborted then .refused else .unaborted item, none)
  | .unaborted item => (hub, if hub.context.raised then .refused else .admitted item, none)
  | .admitted item => ({ hub with ran := hub.ran + 1 }, .active (work.start item), none)
  | .refused => (hub, if hub.context.raised then .aborting .terminated else .completing, none)
  | .active body =>
      match hub with
      | ⟨shared, context, latches, aborted, firstFault, ran, drained⟩ =>
          match work.step shared body with
          | (shared, action) =>
              let raised := context.raised
              let context := match action with
                | .terminate _ => context.raise
                | _ => context
              let stage := match action with
                | .proceed next => .active next
                | .poll next => .active (next !raised)
                | .fork child next => .forking child next
                | .terminate next => .active next
                | .finish (.ok processed) => .reporting processed
                | .finish (.error fault) => .aborting fault
              (⟨shared, context, latches, aborted, firstFault, ran, drained⟩, stage, none)
  | .forking child next =>
      (hub, if hub.aborted then .active (next false) else .unabortedFork child next, none)
  | .unabortedFork child next =>
      (hub, if hub.context.raised then .active (next false) else .latching child next, none)
  | .latching child next =>
      ({ hub with latches := hub.latches.modify root (· + 1) }, .queueing child next, none)
  | .queueing child next => (hub, .active (next true), some child)
  | .reporting processed =>
      ({ hub with context := hub.context.report processed }, .completing, none)
  | .aborting fault => ({ hub with aborted := true }, .recording fault, none)
  | .recording fault =>
      ({ hub with firstFault := hub.firstFault <|> some fault }, .completing, none)
  | .completing =>
      let last := hub.latches[root]? == some 1
      ({ hub with latches := hub.latches.modify root (· - 1) },
        if last then .draining else .finished, none)
  | .draining => ({ hub with drained := hub.drained + 1 }, .finished, none)
  | .finished => (hub, .finished, none)

def advance (work : Work σ ι β) (number : Nat) : ForkJoin σ ι β π → ForkJoin σ ι β π
  | ⟨hub, tasks, .waiting⟩ =>
      match tasks[number]? with
      | some ⟨root, stage⟩ =>
          match stage.next work root hub with
          | (hub, stage, child) =>
              let tasks := tasks.setIfInBounds number ⟨root, stage⟩
              match child with
              | some item => ⟨hub, tasks.push ⟨root, .queued item⟩, .waiting⟩
              | none => ⟨hub, tasks, .waiting⟩
      | none => ⟨hub, tasks, .waiting⟩
  | phase => phase

/-- The outcome of a phase without tasks left. -/
def Hub.outcome (hub : Hub σ π) : Except Fault Stats :=
  match hub.firstFault with
  | some fault => .error fault
  | none =>
      if hub.context.raised then .error .terminated
      else .ok ⟨hub.latches.size, hub.ran, hub.drained⟩

def close : ForkJoin σ ι β π → ForkJoin σ ι β π
  | ⟨hub, tasks, .waiting⟩ =>
      if tasks.all Task.isFinished then
        let outcome := hub.outcome
        let event := Event.forkJoinFinished hub.latches.size hub.ran hub.drained
        ⟨{ hub with context := hub.context.record event }, tasks, .closed outcome⟩
      else ⟨hub, tasks, .waiting⟩
  | phase => phase

def apply (work : Work σ ι β) (phase : ForkJoin σ ι β π) : Move → ForkJoin σ ι β π
  | .begin => phase.begin
  | .advance task => phase.advance work task
  | .close => phase.close
  | .cancel => { phase with hub := { phase.hub with context := phase.hub.context.raise } }

def replay (work : Work σ ι β) (phase : ForkJoin σ ι β π) (moves : List Move) :
    ForkJoin σ ι β π :=
  moves.foldl (apply work) phase

/-- Let a single worker work through the tasks numbered in `stack`, for at most `fuel` moves. It
completes the task on top before it looks at the others; a forked task is put right below the task
that forked it, so of all queued tasks the newest is taken up first. -/
def runNewestFirst (work : Work σ ι β) :
    (fuel : Nat) → (stack : List Nat) → ForkJoin σ ι β π → ForkJoin σ ι β π
  | 0, _, phase => phase
  | fuel + 1, stack, phase =>
      match phase.caller, stack with
      | .closed _, _ => phase
      | .opening, _ =>
          let seeds := (List.range phase.tasks.size).reverse
          runNewestFirst work fuel seeds (phase.apply work .begin)
      | .waiting, [] => runNewestFirst work fuel [] (phase.apply work .close)
      | .waiting, task :: others =>
          match (phase.tasks[task]?).map Task.isFinished with
          | some false =>
              let queued := phase.tasks.size
              let phase := phase.apply work (.advance task)
              let others := if queued < phase.tasks.size then queued :: others else others
              runNewestFirst work fuel (task :: others) phase
          | _ => runNewestFirst work fuel others phase

end ForkJoin

end GraphAnalytics
