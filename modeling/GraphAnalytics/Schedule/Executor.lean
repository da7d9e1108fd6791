/-
# Executors

An executor brings phases to their end. It stands for a pool of worker threads and for everything
that is left to chance in one: it is given a phase that has not begun and answers the phase after
some list of moves. What is stated for every executor whose answers come about by moves holds for
every interleaving and for every moment of cancellation.

`Executor.singleWorker` is the executor with one worker. It goes through a flat phase from first to
last and takes up forked work newest first, as a worker does that nobody takes work from. It is what
computations run on, and its step budget only has to be large enough.
-/

import GraphAnalytics.Schedule.ForkJoin
import GraphAnalytics.Schedule.Phase

namespace GraphAnalytics

open Progress

/-- A way of running phases. -/
structure Executor where
  phase : {σ ι β π : Type} → [Sink π] → Work σ ι β → Phase σ ι β π → Phase σ ι β π
  forkJoin : {σ ι β π : Type} → [Sink π] → Work σ ι β → ForkJoin σ ι β π → ForkJoin σ ι β π

namespace Executor

/-- The answers of an executor come about by moves. -/
structure Lawful (executor : Executor) : Prop where
  phase_moves : ∀ {σ ι β π : Type} [Sink π] (work : Work σ ι β) (phase : Phase σ ι β π),
    ∃ moves, executor.phase work phase = phase.replay work moves
  forkJoin_moves : ∀ {σ ι β π : Type} [Sink π] (work : Work σ ι β) (phase : ForkJoin σ ι β π),
    ∃ moves, executor.forkJoin work phase = phase.replay work moves

def singleWorker (fuel : Nat) : Executor where
  phase work phase := phase.runInOrder work fuel 0
  forkJoin work phase := phase.runNewestFirst work fuel []

end Executor

namespace Phase

variable {σ β π : Type} [Sink π]

/-- Run one task per partition and wait for all of them. The store comes back also if the phase
failed. -/
def perform (executor : Executor) (work : Work σ Partition β) (partitions : List Partition)
    (shared : σ) (context : Context π) : (Except Stop Unit × σ) × Context π :=
  if maxNodeCount < partitions.length then
    ((.error (.fault (.tooManyPartitions partitions.length maxNodeCount)), shared), context)
  else
    match executor.phase work (opening partitions shared context) with
    | ⟨shared, context, _, _, caller⟩ => ((caller.outcome, shared), context)

def run (executor : Executor) (work : Work σ Partition β) (partitions : List Partition)
    (shared : σ) : Run π σ := fun context =>
  match perform executor work partitions shared context with
  | ((.ok (), shared), context) => (.ok shared, context)
  | ((.error stop, _), context) => (.error stop, context)

end Phase

namespace ForkJoin

variable {σ ι β π : Type} [Sink π]

/-- Run one root per seed with all that is forked, and wait until nothing is left. The store comes
back also if the phase failed. -/
def perform (executor : Executor) (work : Work σ ι β) (seeds : List ι) (shared : σ)
    (context : Context π) : (Except Stop Stats × σ) × Context π :=
  match executor.forkJoin work (opening seeds shared context) with
  | ⟨⟨shared, context, _, _, _, _, _⟩, _, caller⟩ => ((caller.outcome, shared), context)

def run (executor : Executor) (work : Work σ ι β) (seeds : List ι) (shared : σ) :
    Run π (σ × Stats) := fun context =>
  match perform executor work seeds shared context with
  | ((.ok stats, shared), context) => (.ok (shared, stats), context)
  | ((.error stop, _), context) => (.error stop, context)

end ForkJoin

end GraphAnalytics
