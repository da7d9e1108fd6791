/-
# Flat phases

A phase runs one task per item and waits for all of them. Tasks look at the cancellation flag before
they begin. Once a task has failed, tasks that have not begun may be skipped, and the phase answers
with the failure of one of the tasks that failed. A phase that was cancelled while it ran does not
succeed, even if every task did.

The state of a phase changes by single moves, and `Phase.apply` says what each does; a list of moves
is one way in which the workers can interleave, including the moment at which somebody outside
requests cancellation. Moves that are not possible change nothing.
-/

import GraphAnalytics.Partition
import GraphAnalytics.Schedule.Work

namespace GraphAnalytics

open Progress

/-- How far a task of a phase has come: no worker has taken it up, its body is running, the body has
succeeded and its count is about to be reported, or the task is over or was skipped. -/
inductive Phase.Stage (ι β : Type) where
  | queued (item : ι)
  | active (body : β)
  | reporting (processed : Nat)
  | finished

/-- A phase in progress: the store that the tasks share, what the caller brought, the tasks, one per
item, and the failures so far, first to last. -/
structure Phase (σ ι β π : Type) where
  shared : σ
  context : Context π
  stages : Array (Phase.Stage ι β)
  failures : List Fault := []
  caller : Caller Unit := .opening

namespace Phase

variable {σ ι β π : Type}

/-- What can happen next in a phase: the caller looks at the flag and hands the tasks over, a task
makes a step, a task that has not begun is skipped because of a failure, the caller finds all tasks
over and is given one of the failures, or somebody outside requests cancellation. -/
inductive Move where
  | begin
  | advance (task : Nat)
  | skip (task : Nat)
  | close (failure : Nat)
  | cancel
  deriving DecidableEq

def Stage.isFinished : Stage ι β → Bool
  | .finished => true
  | _ => false

def opening (items : List ι) (shared : σ) (context : Context π) : Phase σ ι β π where
  shared
  context
  stages := (items.map Stage.queued).toArray

variable [Sink π]

/-- The caller's first look at the flag: a cancelled phase is over before it has begun. -/
def begin : Phase σ ι β π → Phase σ ι β π
  | ⟨shared, context, stages, failures, .opening⟩ =>
      if context.raised then ⟨shared, context, stages, failures, .closed (.error .terminated)⟩
      else ⟨shared, context.record (.phaseStarted stages.size), stages, failures, .waiting⟩
  | phase => phase

/-- One step of one task: the store, the context, the failures and the task after it. -/
def Stage.next (work : Work σ ι β) (shared : σ) (context : Context π) (failures : List Fault) :
    Stage ι β → σ × Context π × List Fault × Stage ι β
  | .queued item =>
      if context.raised then (shared, context, failures ++ [.terminated], .finished)
      else (shared, context, failures, .active (work.start item))
  | .active body =>
      match work.step shared body with
      | (shared, .proceed next) => (shared, context, failures, .active next)
      | (shared, .poll next) => (shared, context, failures, .active (next !context.raised))
      | (shared, .fork _ next) => (shared, context, failures, .active (next false))
      | (shared, .terminate next) => (shared, context.raise, failures, .active next)
      | (shared, .finish (.ok processed)) => (shared, context, failures, .reporting processed)
      | (shared, .finish (.error fault)) => (shared, context, failures ++ [fault], .finished)
  | .reporting processed => (shared, context.report processed, failures, .finished)
  | .finished => (shared, context, failures, .finished)

def advance (work : Work σ ι β) (task : Nat) : Phase σ ι β π → Phase σ ι β π
  | ⟨shared, context, stages, failures, .waiting⟩ =>
      match stages[task]? with
      | some stage =>
          match stage.next work shared context failures with
          | (shared, context, failures, stage) =>
              ⟨shared, context, stages.setIfInBounds task stage, failures, .waiting⟩
      | none => ⟨shared, context, stages, failures, .waiting⟩
  | phase => phase

/-- A task that has not begun is dropped because another has failed. -/
def skip (task : Nat) : Phase σ ι β π → Phase σ ι β π
  | ⟨shared, context, stages, failure :: failures, .waiting⟩ =>
      match stages[task]? with
      | some (.queued _) =>
          ⟨shared, context, stages.setIfInBounds task .finished, failure :: failures, .waiting⟩
      | _ => ⟨shared, context, stages, failure :: failures, .waiting⟩
  | phase => phase

/-- The outcome of a phase whose tasks are all over, if the caller is given the failure with number
`failure`. -/
def outcome? (raised : Bool) (failures : List Fault) (failure : Nat) :
    Option (Except Fault Unit) :=
  match failures with
  | [] => some (if raised then .error .terminated else .ok ())
  | _ => (failures[failure]?).map .error

def close (failure : Nat) : Phase σ ι β π → Phase σ ι β π
  | ⟨shared, context, stages, failures, .waiting⟩ =>
      match outcome? context.raised failures failure with
      | some outcome =>
          if stages.all Stage.isFinished then
            ⟨shared, context.record (.phaseFinished stages.size outcome.isOk), stages, failures,
              .closed outcome⟩
          else ⟨shared, context, stages, failures, .waiting⟩
      | none => ⟨shared, context, stages, failures, .waiting⟩
  | phase => phase

def apply (work : Work σ ι β) (phase : Phase σ ι β π) : Move → Phase σ ι β π
  | .begin => phase.begin
  | .advance task => phase.advance work task
  | .skip task => phase.skip task
  | .close failure => phase.close failure
  | .cancel => { phase with context := phase.context.raise }

def replay (work : Work σ ι β) (phase : Phase σ ι β π) (moves : List Move) : Phase σ ι β π :=
  moves.foldl (apply work) phase

/-- Let a single worker take up the tasks in order, for at most `fuel` moves. After a failure it
skips what has not begun. -/
def runInOrder (work : Work σ ι β) : (fuel : Nat) → (task : Nat) → Phase σ ι β π → Phase σ ι β π
  | 0, _, phase => phase
  | fuel + 1, task, phase =>
      match phase.caller with
      | .opening => runInOrder work fuel task (phase.apply work .begin)
      | .closed _ => phase
      | .waiting =>
          match phase.stages[task]? with
          | none => runInOrder work fuel task (phase.apply work (.close 0))
          | some .finished => runInOrder work fuel (task + 1) phase
          | some (.queued _) =>
              let move := if phase.failures.isEmpty then .advance task else .skip task
              runInOrder work fuel task (phase.apply work move)
          | some _ => runInOrder work fuel task (phase.apply work (.advance task))

end Phase

end GraphAnalytics
