/-
# Undisturbed fork/join work

A fork/join phase that succeeds was undisturbed, too: no fork was refused and no queued task was
dropped. To see this at the end of the phase one has to know that nothing went wrong earlier and was
forgotten, and nothing is: the abort flag is never lowered, and whoever raised it either is about to
record a failure or has recorded one.

A forked task passes from the task that forks it to the list of tasks by several moves. While it is
on the way its first body counts as a body of the task that forks it.
-/

import GraphAnalytics.Proofs.Schedule.Undisturbed

namespace GraphAnalytics.ForkJoin

variable {σ ι β π M : Type}

/-- The bodies of a task that are in progress or still to begin, a child on the way to the queue
included. -/
def Stage.bodies (work : Work σ ι β) : Stage ι β → Multiset β
  | .queued item | .unaborted item | .admitted item => {work.start item}
  | .active body => {body}
  | .forking child next | .unabortedFork child next | .latching child next
  | .queueing child next => {next true, work.start child}
  | _ => 0

/-- One for a task that has failed and not yet raised the abort flag. -/
def Stage.aborts : Stage ι β → Nat
  | .aborting _ => 1
  | _ => 0

/-- One for a task that has raised the abort flag and not yet recorded its failure. -/
def Stage.records : Stage ι β → Nat
  | .recording _ => 1
  | _ => 0

/-- Where an action takes a task. -/
def Stage.ofAction (raised : Bool) : Action ι β → Stage ι β
  | .proceed next => .active next
  | .poll next => .active (next !raised)
  | .fork child next => .forking child next
  | .terminate next => .active next
  | .finish (.ok processed) => .reporting processed
  | .finish (.error fault) => .aborting fault

def total [AddCommMonoid M] (share : Stage ι β → M) (tasks : Array (Task ι β)) : M :=
  (tasks.toList.map fun task => share task.stage).sum

/-- Nobody has requested cancellation and nothing has failed. -/
def Quiet (phase : ForkJoin σ ι β π) : Prop :=
  phase.hub.context.raised = false ∧ phase.hub.aborted = false ∧
    total Stage.aborts phase.tasks = 0

/-- A failure that made somebody raise the abort flag is recorded or about to be. -/
def Accounted (hub : Hub σ π) (recording : Nat) : Prop :=
  hub.aborted = true → hub.firstFault ≠ none ∨ 0 < recording

/-- Without a recorded failure and without one about to be recorded, the abort flag is not up. -/
theorem Accounted.not_aborted {hub : Hub σ π} (accounted : Accounted hub 0)
    (noFault : hub.firstFault = none) : hub.aborted = false := by
  cases aborted : hub.aborted with
  | false => rfl
  | true =>
      rcases accounted aborted with fault | recording
      · exact absurd noFault fault
      · cases recording

/-- The tasks after one of them has changed its stage and perhaps queued a child. -/
def replaced (tasks : Array (Task ι β)) (number root : Nat) (stage : Stage ι β) :
    Option ι → Array (Task ι β)
  | some item => (tasks.setIfInBounds number ⟨root, stage⟩).push ⟨root, .queued item⟩
  | none => tasks.setIfInBounds number ⟨root, stage⟩

/-- A task that changes its stage changes its own share of a sum, and a child adds its own. -/
theorem sum_replaced [AddCommMonoid M] (share : Task ι β → M) {tasks : Array (Task ι β)}
    {number root : Nat} {stage : Stage ι β} (here : tasks[number]? = some ⟨root, stage⟩) :
    ∃ rest, (tasks.toList.map share).sum = share ⟨root, stage⟩ + rest ∧ ∀ next child,
      ((replaced tasks number root next child).toList.map share).sum =
        share ⟨root, next⟩ + child.elim 0 (fun item => share ⟨root, .queued item⟩) + rest := by
  obtain ⟨rest, before, after⟩ := sum_map_set share
    (show tasks.toList[number]? = some ⟨root, stage⟩ by simpa using here)
  refine ⟨rest, before, fun next child => ?_⟩
  cases child with
  | none => rw [replaced, Array.toList_setIfInBounds, after, Option.elim_none, add_zero]
  | some item =>
      rw [replaced, Array.toList_push, Array.toList_setIfInBounds, List.map_append,
        List.sum_append, after, List.map_singleton, List.sum_singleton, add_right_comm]
      rfl

theorem total_replaced [AddCommMonoid M] (share : Stage ι β → M) {tasks : Array (Task ι β)}
    {number root : Nat} {stage : Stage ι β} (here : tasks[number]? = some ⟨root, stage⟩) :
    ∃ rest, total share tasks = share stage + rest ∧ ∀ next child,
      total share (replaced tasks number root next child) =
        share next + child.elim 0 (share ∘ .queued) + rest :=
  sum_replaced (fun task => share task.stage) here

theorem total_of_finished [AddCommMonoid M] {share : Stage ι β → M} (zero : share .finished = 0)
    {tasks : Array (Task ι β)} (through : tasks.all Task.isFinished = true) :
    total share tasks = 0 := by
  refine List.sum_eq_zero fun amount member => ?_
  obtain ⟨⟨root, stage⟩, here, rfl⟩ := List.mem_map.mp member
  have finished := Array.all_eq_true'.mp through _ (Array.mem_toList_iff.mp here)
  cases stage with
  | finished => exact zero
  | _ => cases finished

/-- A phase without tasks left succeeds only if no failure is recorded and nobody has requested
cancellation. -/
theorem Hub.quiet_of_outcome {hub : Hub σ π} {stats : Stats} (succeeded : hub.outcome = .ok stats) :
    hub.firstFault = none ∧ hub.context.raised = false := by
  unfold outcome at succeeded
  split at succeeded
  · cases succeeded
  · next noFault =>
      split at succeeded
      · cases succeeded
      · next calm => exact ⟨noFault, Bool.eq_false_iff.mpr calm⟩

theorem Hub.stats_of_outcome {hub : Hub σ π} {stats : Stats} (succeeded : hub.outcome = .ok stats) :
    ⟨hub.latches.size, hub.ran, hub.drained⟩ = stats := by
  obtain ⟨noFault, calm⟩ := quiet_of_outcome succeeded
  rw [outcome, noFault, calm] at succeeded
  exact Except.ok.inj succeeded

/-- A phase fails with the failure that is recorded, or because cancellation was requested. -/
theorem Hub.fault_of_outcome {hub : Hub σ π} {fault : Fault} (failed : hub.outcome = .error fault) :
    hub.firstFault = some fault ∨ fault = .terminated ∧ hub.context.raised = true := by
  unfold outcome at failed
  split at failed
  · next recorded => exact .inl (recorded.trans (congrArg some (Except.error.inj failed)))
  · split at failed
    · next raised => exact .inr ⟨(Except.error.inj failed).symm, raised⟩
    · cases failed

variable {work : Work σ ι β} {first : σ × Multiset β}

/-- The tasks of a phase that has not begun are those of its seeds, one by one. -/
theorem total_seeds [AddCommMonoid M] (share : Stage ι β → M) (seeds : List ι) (shared : σ)
    (context : Context π) :
    total share (opening seeds shared context).tasks =
      (seeds.map fun seed => share (.queued seed)).sum := by
  have stages (number : Nat) : (seeds.zipIdx number).map (fun entry => share (.queued entry.1)) =
      seeds.map fun seed => share (.queued seed) := by
    rw [show (fun entry : ι × Nat => share (.queued entry.1)) =
      (fun seed => share (.queued seed)) ∘ Prod.fst from rfl, ← List.map_map, List.zipIdx_map_fst]
  rw [total, opening, List.map_map]
  exact congrArg List.sum (stages 0)

theorem total_opening (seeds : List ι) (shared : σ) (context : Context π) :
    total (Stage.bodies work) (opening seeds shared context).tasks = work.beginnings seeds := by
  rw [total_seeds]
  induction seeds with
  | nil => rfl
  | cons seed seeds ih =>
      rw [List.map_cons, List.sum_cons, ih]
      rfl

/-- A fork/join phase that has succeeded was undisturbed work, and so was one that is still quiet.
-/
def Faithful (work : Work σ ι β) (first : σ × Multiset β) (phase : ForkJoin σ ι β π) : Prop :=
  match phase.caller with
  | .closed (.ok _) => work.Runs true first (phase.hub.shared, 0)
  | .closed (.error _) => True
  | _ => (phase.Quiet →
        work.Runs true first (phase.hub.shared, total (Stage.bodies work) phase.tasks)) ∧
      Accounted phase.hub (total Stage.records phase.tasks)

namespace Faithful

variable {phase : ForkJoin σ ι β π}

theorem begin (faithful : phase.Faithful work first) : phase.begin.Faithful work first := by
  obtain ⟨hub, tasks, caller⟩ := phase
  cases caller with
  | waiting | closed => exact faithful
  | opening =>
      simp only [ForkJoin.begin]
      split
      · trivial
      · exact faithful

/-- When all tasks are over and no failure is recorded, the abort flag cannot be up. -/
theorem close (faithful : phase.Faithful work first) : phase.close.Faithful work first := by
  obtain ⟨hub, tasks, caller⟩ := phase
  cases caller with
  | opening | closed => exact faithful
  | waiting =>
      simp only [ForkJoin.close]
      split
      · next through =>
          obtain ⟨runs, accounted⟩ := faithful
          cases decided : hub.outcome with
          | error fault => trivial
          | ok stats =>
              obtain ⟨noFault, calm⟩ := Hub.quiet_of_outcome decided
              rw [total_of_finished rfl through] at runs accounted
              exact runs ⟨calm, accounted.not_aborted noFault, total_of_finished rfl through⟩
      · exact faithful

theorem cancel (faithful : phase.Faithful work first) :
    ForkJoin.Faithful work first
      { phase with hub := { phase.hub with context := phase.hub.context.raise } } := by
  obtain ⟨hub, tasks, caller⟩ := phase
  cases caller with
  | closed outcome => cases outcome <;> exact faithful
  | opening | waiting => exact ⟨fun quiet => Bool.noConfusion quiet.1, faithful.2⟩

end Faithful

variable [Progress.Sink π]

/-- A step of a body works on the store, and its action decides where the task goes. -/
theorem Stage.next_active (work : Work σ ι β) (root : Nat) {hub : Hub σ π} {body : β} {store : σ}
    {action : Action ι β} (taken : work.step hub.shared body = (store, action)) :
    (active body).next work root hub =
      ({ hub with shared := store, context := hub.context.heed action },
        .ofAction hub.context.raised action, none) := by
  obtain ⟨shared, context, latches, aborted, firstFault, ran, drained⟩ := hub
  simp only [next, taken]
  rcases action with next | next | ⟨child, next⟩ | next | ⟨fault | processed⟩ <;> rfl

/-- A step of a task after which it is quiet is undisturbed work, and it was quiet before. -/
theorem Stage.runs_next (work : Work σ ι β) (stage : Stage ι β) (root : Nat) (hub : Hub σ π)
    (rest : Multiset β)
    (calm : (stage.next work root hub).1.context.raised = false)
    (notAborted : (stage.next work root hub).1.aborted = false)
    (notAborting : (stage.next work root hub).2.1.aborts = 0) :
    (hub.context.raised = false ∧ hub.aborted = false ∧ stage.aborts = 0) ∧
      work.Runs true (hub.shared, stage.bodies work + rest)
        ((stage.next work root hub).1.shared, (stage.next work root hub).2.1.bodies work +
          (stage.next work root hub).2.2.elim 0 (Stage.bodies work ∘ .queued) + rest) := by
  cases stage with
  | queued item =>
      have admitted : hub.aborted = false := notAborted
      exact ⟨⟨calm, admitted, rfl⟩, by simpa [Stage.next, admitted] using .refl⟩
  | unaborted item =>
      have admitted : hub.context.raised = false := calm
      exact ⟨⟨admitted, notAborted, rfl⟩, by simpa [Stage.next, admitted] using .refl⟩
  | forking child next =>
      have accepted : hub.aborted = false := notAborted
      exact ⟨⟨calm, accepted, rfl⟩, by simpa [Stage.next, accepted] using .refl⟩
  | unabortedFork child next =>
      have accepted : hub.context.raised = false := calm
      exact ⟨⟨accepted, notAborted, rfl⟩, by simpa [Stage.next, accepted] using .refl⟩
  | active body =>
      obtain ⟨shared, context, latches, aborted, firstFault, ran, drained⟩ := hub
      obtain ⟨start, access⟩ := work
      simp only [Stage.next] at calm notAborted notAborting ⊢
      rcases step : access shared body with ⟨store, action⟩
      rw [step] at calm notAborting
      have single {bodies : Multiset β} (goesOn : action.successors start true = some bodies) :
          Work.Runs ⟨start, access⟩ true (shared, {body} + rest) (store, bodies + rest) :=
        Work.Runs.single rest step goesOn
      rcases action with next | next | ⟨child, next⟩ | next | ⟨fault | processed⟩
      · exact ⟨⟨calm, notAborted, rfl⟩, by simpa [Stage.bodies] using single rfl⟩
      · have running : context.raised = false := calm
        exact ⟨⟨calm, notAborted, rfl⟩, by simpa [Stage.bodies, running] using single rfl⟩
      · exact ⟨⟨calm, notAborted, rfl⟩, by simpa [Stage.bodies] using single rfl⟩
      · simp at calm
      · cases notAborting
      · exact ⟨⟨calm, notAborted, rfl⟩, by simpa [Stage.bodies] using single rfl⟩
  | queueing child next =>
      refine ⟨⟨calm, notAborted, rfl⟩, ?_⟩
      simpa [Stage.next, Stage.bodies] using .refl
  | aborting fault => cases notAborted
  | refused =>
      refine ⟨⟨calm, notAborted, rfl⟩, ?_⟩
      have left : hub.context.raised = false := calm
      simpa [Stage.next, Stage.bodies, left] using .refl
  | completing =>
      refine ⟨⟨calm, notAborted, rfl⟩, ?_⟩
      simp only [Stage.next]
      split <;> exact .refl
  | admitted | latching | reporting | recording | draining | finished =>
      exact ⟨⟨calm, notAborted, rfl⟩, .refl⟩

theorem Stage.accounted_next (work : Work σ ι β) (stage : Stage ι β) (root : Nat) (hub : Hub σ π)
    (others : Nat) (accounted : Accounted hub (stage.records + others)) :
    Accounted (stage.next work root hub).1 ((stage.next work root hub).2.1.records + others) := by
  cases stage with
  | aborting fault => exact fun _ => .inr (Nat.add_pos_left Nat.one_pos others)
  | recording fault =>
      intro _
      refine .inl ?_
      show (hub.firstFault <|> some fault) ≠ none
      cases hub.firstFault <;> simp
  | _ =>
      intro aborted
      refine (accounted aborted).imp id fun recording => ?_
      exact Nat.lt_of_lt_of_le recording (Nat.add_le_add_right (Nat.zero_le _) others)

namespace Faithful

variable {phase : ForkJoin σ ι β π}

theorem advance (faithful : phase.Faithful work first) (task : Nat) :
    (phase.advance work task).Faithful work first := by
  obtain ⟨hub, tasks, caller⟩ := phase
  cases caller with
  | opening | closed => exact faithful
  | waiting =>
      simp only [ForkJoin.advance]
      split
      · next root stage here =>
          obtain ⟨runs, accounted⟩ := faithful
          obtain ⟨bodies, bodiesBefore, bodiesAfter⟩ := total_replaced (Stage.bodies work) here
          obtain ⟨aborting, abortingBefore, abortingAfter⟩ := total_replaced Stage.aborts here
          obtain ⟨recording, recordingBefore, recordingAfter⟩ := total_replaced Stage.records here
          have next := stage.runs_next work root hub bodies
          have accountedNext := stage.accounted_next work root hub recording
          rcases taken : stage.next work root hub with ⟨hub', stage', child⟩
          simp only [taken] at next accountedNext
          suffices faithful' : Faithful work first
              ⟨hub', replaced tasks task root stage' child, .waiting⟩ by
            cases child <;> exact faithful'
          constructor
          · intro quiet
            obtain ⟨calm, notAborted, notAborting⟩ := quiet
            rw [abortingAfter] at notAborting
            obtain ⟨⟨wasCalm, wasNotAborted, wasNotAborting⟩, step⟩ :=
              next calm notAborted (by omega)
            have before : total Stage.aborts tasks = 0 := by omega
            refine (runs ⟨wasCalm, wasNotAborted, before⟩).trans ?_
            rwa [bodiesBefore, bodiesAfter]
          · show Accounted hub' _
            have none : child.elim 0 (Stage.records ∘ (Stage.queued (β := β))) = 0 := by
              cases child <;> rfl
            rw [recordingAfter, none, add_zero]
            exact accountedNext (recordingBefore ▸ accounted)
      · exact faithful

theorem replay (faithful : phase.Faithful work first) (moves : List Move) :
    (phase.replay work moves).Faithful work first := by
  induction moves generalizing phase with
  | nil => exact faithful
  | cons move moves ih =>
      refine ih ?_
      cases move with
      | begin => exact faithful.begin
      | advance task => exact faithful.advance task
      | close => exact faithful.close
      | cancel => exact faithful.cancel

end Faithful

/-- However the tasks of a fork/join phase interleave, if the phase succeeds it was undisturbed work
from the first bodies of its seeds to no bodies at all. -/
theorem runs_of_replay {seeds : List ι} {shared : σ} {context : Context π} {moves : List Move}
    {stats : Stats}
    (succeeded : ((opening seeds shared context).replay work moves).caller = .closed (.ok stats)) :
    work.Runs true (shared, work.beginnings seeds)
      (((opening seeds shared context).replay work moves).hub.shared, 0) := by
  have initially : (opening seeds shared context).Faithful work
      (shared, work.beginnings seeds) := by
    refine ⟨fun _ => ?_, fun aborted => Bool.noConfusion aborted⟩
    rw [total_opening]
    exact .refl
  have lastly := initially.replay moves
  rwa [Faithful, succeeded] at lastly

/-- A fork/join phase that is part of a computation and succeeds was undisturbed work. -/
theorem runs_of_run {executor : Executor} (lawful : executor.Lawful) {work : Work σ ι β}
    {seeds : List ι} {shared store : σ} {stats : Stats} {context context' : Context π}
    (ok : (ForkJoin.run executor work seeds shared).perform context =
      (.ok (store, stats), context')) :
    work.Runs true (shared, work.beginnings seeds) (store, 0) := by
  obtain ⟨moves, replayed⟩ := lawful.forkJoin_moves work (opening seeds shared context)
  simp only [Run.perform, ForkJoin.run, ForkJoin.perform, ExceptT.run, StateT.run] at ok
  split at ok
  · next answer counted stored _ performed =>
      obtain ⟨⟨rfl, rfl⟩, -⟩ : (stored = store ∧ counted = stats) ∧ _ := by simpa using ok
      simp only [Prod.mk.injEq, Caller.outcome_eq_ok] at performed
      obtain ⟨⟨succeeded, rfl⟩, -⟩ := performed
      have succeeded : (executor.forkJoin work (opening seeds shared context)).caller = _ :=
        succeeded
      show work.Runs true _
        ((executor.forkJoin work (opening seeds shared context)).hub.shared, 0)
      rw [replayed] at succeeded ⊢
      exact runs_of_replay succeeded
  · cases ok

end GraphAnalytics.ForkJoin
