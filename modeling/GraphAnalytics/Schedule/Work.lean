/-
# Work for many workers

Tasks that run side by side share a store and are described one access at a time, like the calls of
a `Machine`. Besides accessing the store, the body of a task deals with whoever scheduled it: it
asks whether work should go on, asks for another task to be scheduled, requests cancellation, and in
the end reports how much it has processed or why it failed. An `Action` is one such dealing; a
`Work` says how a task starts and what each of its steps does.

A `Context` is what a caller brings to a computation: the cancellation flag, a progress sink and the
log. A `Run` is a computation in such a context. It stops early on a fault, on a broken
precondition, or when the step budget of an executor ran out before the work was done.
-/

import GraphAnalytics.Fault
import GraphAnalytics.Progress.Sink

namespace GraphAnalytics

open Progress

/-- What the body of a task does with its scheduler after an access to the store. It asks whether
work should go on, or for a task to be scheduled, and goes on with the answer; it requests
cancellation; or it is done, having processed so many elements, or having failed. -/
inductive Action (ι β : Type) where
  | proceed (next : β)
  | poll (next : Bool → β)
  | fork (item : ι) (next : Bool → β)
  | terminate (next : β)
  | finish (outcome : Except Fault Nat)

/-- Tasks on items of type `ι` that share a store of type `σ`. A task begins at a point that depends
on its item, and every step is one access to the store and one action. -/
structure Work (σ ι β : Type) where
  start : ι → β
  step : σ → β → σ × Action ι β

/-- What a caller brings to a computation: whether cancellation was requested, the sink that keeps
track of progress, and the log, oldest event first. -/
structure Context (π : Type) where
  raised : Bool := false
  sink : π
  events : Array Event := #[]

/-- Why a computation stopped before its end: it failed, it was called with a precondition broken,
or the executor gave up before the work was done. -/
inductive Stop where
  | fault (fault : Fault)
  | violation (violation : Violation)
  | unfinished
  deriving DecidableEq, Repr

abbrev Run (π α : Type) := ExceptT Stop (StateM (Context π)) α

/-- How far the caller of a phase has come: the phase has not begun, the tasks have been handed over
and the caller waits for all of them, or the phase is over. -/
inductive Caller (α : Type) where
  | opening
  | waiting
  | closed (outcome : Except Fault α)

def Caller.outcome {α : Type} : Caller α → Except Stop α
  | .closed (.ok answer) => .ok answer
  | .closed (.error fault) => .error (.fault fault)
  | _ => .error .unfinished

namespace Context

variable {π : Type} [Sink π]

def record (event : Event) (context : Context π) : Context π :=
  { context with events := context.events.push event }

def announce (announcement : π → π × List Event) (context : Context π) : Context π :=
  let ⟨raised, sink, events⟩ := context
  let (sink, logged) := announcement sink
  ⟨raised, sink, events ++ logged⟩

/-- Report processed elements to the sink on behalf of a task. What the sink logs then is logged by
a worker and not by the caller. -/
def report (amount : Nat) (context : Context π) : Context π :=
  let ⟨raised, sink, events⟩ := context
  ⟨raised, (Sink.log amount sink).1, events⟩

def raise (context : Context π) : Context π := { context with raised := true }

end Context

namespace Run

variable {π α : Type} [Sink π]

def perform (computation : Run π α) (context : Context π) : Except Stop α × Context π :=
  computation.run.run context

def ofFault (result : Except Fault α) : Run π α :=
  match result with
  | .ok answer => pure answer
  | .error fault => throw (.fault fault)

def ofViolation (result : Except Violation α) : Run π α :=
  match result with
  | .ok answer => pure answer
  | .error violation => throw (.violation violation)

def record (event : Event) : Run π Unit := modify (·.record event)

def enter (name : String) : Run π Unit := modify (·.announce (Sink.enter name))

def enterSized (name : String) (volume : Nat) : Run π Unit :=
  modify (·.announce (Sink.enterSized name volume))

def leave (name : String) : Run π Unit := modify (·.announce (Sink.leave name))

end Run

end GraphAnalytics
