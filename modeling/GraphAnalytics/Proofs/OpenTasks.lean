/-
# Tasks that are left open

A sort and a search announce the tasks they enter and leave to a tracker, by hand, around phases
that may stop. When a phase stops, so does the computation, and nobody leaves what is open then.
What a computation keeps of a tracker is stated as `Run.Keeps`: from a tracker of one kind it comes
to trackers of another kind if it answers, and to trackers of a third kind if it stops.

A computation that answers leaves the tracker as it found it, and so does one that is refused before
it has entered a task. Any other, whether it was cancelled or stopped for another reason, leaves
tasks open, and whoever uses the tracker next reports beneath them (`open_tasks_of_stop`).
-/

import GraphAnalytics.Components
import GraphAnalytics.Proofs.Cancelled
import GraphAnalytics.Proofs.Progress.Frames
import GraphAnalytics.Proofs.Schedule.FlatRecord
import GraphAnalytics.TopologicalOrder

namespace GraphAnalytics

open Progress

/-! ### What the sink of a phase is told -/

section

variable {σ ι β π : Type} [Sink π]

/-- A flat phase tells its sink amounts and nothing else. -/
theorem Phase.sink_replay (work : Work σ ι β) (phase : Phase σ ι β π) (moves : List Move) :
    ∃ told, (phase.replay work moves).context.sink =
      ForkJoin.received phase.context.sink told := by
  have apply (phase : Phase σ ι β π) (move : Move) : ∃ told,
      (phase.apply work move).context.sink = ForkJoin.received phase.context.sink told := by
    obtain ⟨shared, context, stages, failures, caller⟩ := phase
    cases move with
    | cancel => exact ⟨[], rfl⟩
    | begin =>
        cases caller with
        | waiting | closed => exact ⟨[], rfl⟩
        | opening =>
            simp only [Phase.apply, Phase.begin]
            split <;> exact ⟨[], rfl⟩
    | skip task =>
        cases caller with
        | opening | closed => cases failures <;> exact ⟨[], rfl⟩
        | waiting =>
            cases failures with
            | nil => exact ⟨[], rfl⟩
            | cons failure failures =>
                simp only [Phase.apply, Phase.skip]
                split <;> exact ⟨[], rfl⟩
    | close failure =>
        cases caller with
        | opening | closed => exact ⟨[], rfl⟩
        | waiting =>
            simp only [Phase.apply, Phase.close]
            split
            · split <;> exact ⟨[], rfl⟩
            · exact ⟨[], rfl⟩
    | advance task =>
        cases caller with
        | opening | closed => exact ⟨[], rfl⟩
        | waiting =>
            simp only [Phase.apply, Phase.advance]
            split
            · next stage _ => exact ⟨_, @Stage.sink_next _ _ _ _ work stage task _ _ _ _⟩
            · exact ⟨[], rfl⟩
  induction moves generalizing phase with
  | nil => exact ⟨[], rfl⟩
  | cons move moves ih =>
      obtain ⟨first, now⟩ := apply phase move
      obtain ⟨others, later⟩ := ih (phase.apply work move)
      refine ⟨first ++ others, ?_⟩
      rw [ForkJoin.received, List.foldl_append]
      exact later.trans (congrArg (ForkJoin.received · others) now)

theorem Phase.context_of_run (executor : Executor) (work : Work σ Partition β)
    (partitions : List Partition) (shared : σ) (context : Context π) :
    ((Phase.run executor work partitions shared).perform context).2 =
      if maxNodeCount < partitions.length then context
      else (executor.phase work (opening partitions shared context)).context := by
  simp only [Run.perform, Phase.run, Phase.perform, ExceptT.run, StateT.run]
  by_cases many : maxNodeCount < partitions.length
  · simp only [if_pos many]
  · simp only [if_neg many]
    rcases (executor.phase work (opening partitions shared context)).caller.outcome with
      stop | ⟨⟩ <;> rfl

theorem ForkJoin.context_of_run (executor : Executor) (work : Work σ ι β) (seeds : List ι)
    (shared : σ) (context : Context π) :
    ((ForkJoin.run executor work seeds shared).perform context).2 =
      (executor.forkJoin work (opening seeds shared context)).hub.context := by
  simp only [Run.perform, ForkJoin.run, ForkJoin.perform, ExceptT.run, StateT.run]
  rcases (executor.forkJoin work (opening seeds shared context)).caller.outcome with
    stop | stats <;> rfl

theorem ForkJoin.sink_replay (work : Work σ ι β) (phase : ForkJoin σ ι β π) (moves : List Move) :
    ∃ told, (phase.replay work moves).hub.context.sink =
      received phase.hub.context.sink told := by
  have apply (phase : ForkJoin σ ι β π) (move : Move) : ∃ told,
      (phase.apply work move).hub.context.sink = received phase.hub.context.sink told := by
    obtain ⟨hub, tasks, caller⟩ := phase
    cases move with
    | cancel => exact ⟨[], rfl⟩
    | begin =>
        cases caller with
        | waiting | closed => exact ⟨[], rfl⟩
        | opening =>
            simp only [ForkJoin.apply, ForkJoin.begin]
            split <;> exact ⟨[], rfl⟩
    | close =>
        cases caller with
        | opening | closed => exact ⟨[], rfl⟩
        | waiting =>
            simp only [ForkJoin.apply, ForkJoin.close]
            split <;> exact ⟨[], rfl⟩
    | advance number =>
        cases caller with
        | opening | closed => exact ⟨[], rfl⟩
        | waiting =>
            simp only [ForkJoin.apply, ForkJoin.advance]
            split
            · next root stage _ =>
                have told := stage.sink_next work number root hub
                split <;> exact ⟨_, told⟩
            · exact ⟨[], rfl⟩
  induction moves generalizing phase with
  | nil => exact ⟨[], rfl⟩
  | cons move moves ih =>
      obtain ⟨first, now⟩ := apply phase move
      obtain ⟨others, later⟩ := ih (phase.apply work move)
      refine ⟨first ++ others, ?_⟩
      rw [received, List.foldl_append]
      exact later.trans (congrArg (received · others) now)

end

/-! ### Kinds of sinks that computations keep -/

namespace Run

variable {σ ι β π α γ : Type} [Sink π] {Before After Stopped : π → Prop}

/-- From sinks of one kind the computation comes to sinks of another kind if it answers and to sinks
of a third kind if it stops. -/
def Keeps (Before : π → Prop) (computation : Run π α) (After Stopped : π → Prop) : Prop :=
  ∀ context, Before context.sink →
    match computation.perform context with
    | (.ok _, context') => After context'.sink
    | (.error _, context') => Stopped context'.sink

namespace Keeps

omit [Sink π] in
theorem bind {first : Run π α} {second : α → Run π γ} {Between : π → Prop}
    (one : Keeps Before first Between Stopped)
    (other : ∀ between, Keeps Between (second between) After Stopped) :
    Keeps Before (first >>= second) After Stopped := by
  intro context before
  have started := one context before
  rw [perform_bind]
  rcases performed : first.perform context with ⟨stop | between, middle⟩ <;>
    rw [performed] at started
  · exact started
  · exact other between middle started

omit [Sink π] in
theorem pure (answer : α) : Keeps Before (Pure.pure answer : Run π α) Before Stopped :=
  fun _ before => before

omit [Sink π] in
theorem record (event : Event) : Keeps Before (Run.record event) Before Stopped :=
  fun _ before => before

omit [Sink π] in
theorem ofViolation (result : Except Violation α) (imp : ∀ sink, Before sink → Stopped sink) :
    Keeps Before (Run.ofViolation result) Before Stopped := by
  cases result with
  | ok answer => exact pure answer
  | error violation => exact fun context before => imp context.sink before

omit [Sink π] in
/-- It is enough to look at the sink that comes back, whether with an answer or without. -/
theorem of_sink {computation : Run π α}
    (kept : ∀ context, Before context.sink → Before (computation.perform context).2.sink)
    (imp : ∀ sink, Before sink → Stopped sink) : Keeps Before computation Before Stopped := by
  intro context before
  have after := kept context before
  rcases performed : computation.perform context with ⟨stop | answer, context'⟩ <;>
    rw [performed] at after
  · exact imp _ after
  · exact after

theorem received (log : ∀ amount sink, Before sink → Before (Sink.log amount sink).1)
    (amounts : List Nat) {sink : π} (before : Before sink) :
    Before (ForkJoin.received sink amounts) := by
  induction amounts generalizing sink with
  | nil => exact before
  | cons amount amounts ih => exact ih (log amount sink before)

theorem phase {executor : Executor} (lawful : executor.Lawful) (work : Work σ Partition β)
    (partitions : List Partition) (shared : σ)
    (log : ∀ amount sink, Before sink → Before (Sink.log amount sink).1)
    (imp : ∀ sink, Before sink → Stopped sink) :
    Keeps Before (Phase.run executor work partitions shared) Before Stopped := by
  refine of_sink (fun context before => ?_) imp
  rw [Phase.context_of_run]
  split
  · exact before
  · obtain ⟨moves, replayed⟩ :=
      lawful.phase_moves work (Phase.opening partitions shared context)
    obtain ⟨amounts, told⟩ :=
      Phase.sink_replay work (Phase.opening partitions shared context) moves
    rw [replayed, told]
    exact received log amounts before

theorem forkJoin {executor : Executor} (lawful : executor.Lawful) (work : Work σ ι β)
    (seeds : List ι) (shared : σ)
    (log : ∀ amount sink, Before sink → Before (Sink.log amount sink).1)
    (imp : ∀ sink, Before sink → Stopped sink) :
    Keeps Before (ForkJoin.run executor work seeds shared) Before Stopped := by
  refine of_sink (fun context before => ?_) imp
  obtain ⟨moves, replayed⟩ :=
    lawful.forkJoin_moves work (ForkJoin.opening seeds shared context)
  obtain ⟨amounts, told⟩ :=
    ForkJoin.sink_replay work (ForkJoin.opening seeds shared context) moves
  rw [ForkJoin.context_of_run, replayed, told]
  exact received log amounts before

end Keeps

end Run

/-! ### Trackers with tasks open on top -/

namespace Progress.Tracker

/-- The tracker is `base` with tasks of the given names open on top, innermost first. -/
def Atop (base : Tracker) : List String → Tracker → Prop
  | [], tracker => tracker = base
  | name :: names, tracker => ∃ outer counters, Atop base names outer ∧
      tracker = { outer with tasks := ⟨name, outer.counters⟩ :: outer.tasks, counters }

variable {base tracker : Tracker} {name : String} {names : List String}

/-- The names of the open tasks are those of the tasks on top, followed by those of the base. -/
theorem Atop.names_eq (atop : base.Atop names tracker) :
    tracker.tasks.map OpenTask.name = names ++ base.tasks.map OpenTask.name := by
  induction names generalizing tracker with
  | nil => rw [show tracker = base from atop, List.nil_append]
  | cons name names ih =>
      obtain ⟨outer, counters, below, rfl⟩ := atop
      exact congrArg (name :: ·) (ih below)

theorem Atop.ne (atop : base.Atop (name :: names) tracker) : tracker ≠ base := by
  rintro rfl
  have longer := congrArg List.length atop.names_eq
  simp only [List.length_append, List.length_cons, List.length_map] at longer
  omega

theorem Atop.enterSized (atop : base.Atop names tracker) (name : String) (volume : Nat) :
    base.Atop (name :: names) (Sink.enterSized name volume tracker).1 :=
  ⟨tracker, { volume }, atop, rfl⟩

theorem Atop.log (atop : base.Atop (name :: names) tracker) (amount : Nat) :
    base.Atop (name :: names) (Sink.log amount tracker).1 := by
  obtain ⟨outer, counters, below, rfl⟩ := atop
  obtain ⟨counted, logged⟩ := perform_log amount
    { outer with tasks := ⟨name, outer.counters⟩ :: outer.tasks, counters }
  exact ⟨outer, counted, below, logged⟩

theorem Atop.leave (atop : base.Atop (name :: names) tracker) :
    base.Atop names (Sink.leave name tracker).1 := by
  obtain ⟨outer, counters, below, rfl⟩ := atop
  have left : (Sink.leave name { outer with
      tasks := ⟨name, outer.counters⟩ :: outer.tasks, counters }).1 = outer := perform_leave rfl
  rwa [left]

end Progress.Tracker

/-! ### What a computation leaves open -/

namespace Run

variable {σ ι β α : Type} {base : Tracker} {name : String} {names : List String}
  {Stopped : Tracker → Prop}

theorem Keeps.enterSized (name : String) (volume : Nat) :
    Keeps (base.Atop names) (Run.enterSized name volume) (base.Atop (name :: names)) Stopped :=
  fun _ atop => atop.enterSized name volume

theorem Keeps.enter (name : String) :
    Keeps (base.Atop names) (Run.enter name) (base.Atop (name :: names)) Stopped :=
  fun _ atop => atop.enterSized name 0

theorem Keeps.leave (name : String) :
    Keeps (base.Atop (name :: names)) (Run.leave name) (base.Atop names) Stopped :=
  fun _ atop => atop.leave

/-- A computation that has begun gives the tracker back as it was if it answers, and with tasks of
one of the given lists of names open on top if it stops. One that has not begun stops, and gives the
tracker back as well. -/
structure LeavesOpen (began : Prop) (lists : List (List String)) (before : Tracker)
    (outcome : Except Stop α × Context Tracker) : Prop where
  restored_iff : outcome.2.sink = before ↔ outcome.1.isOk = true ∨ ¬ began
  atop_of_stop : began → outcome.1.isOk = false → ∃ names ∈ lists, before.Atop names outcome.2.sink
  stop_of_not_began : ¬ began → outcome.1.isOk = false

/-- What keeps a tracker up to tasks on top leaves them open if it stops. -/
theorem Keeps.leavesOpen {computation : Run Tracker α} {lists : List (List String)}
    {context : Context Tracker} (proper : [] ∉ lists)
    (keeps : Keeps (context.sink.Atop []) computation (context.sink.Atop [])
      fun tracker => ∃ names ∈ lists, context.sink.Atop names tracker) {began : Prop}
    (begins : began) : LeavesOpen began lists context.sink (computation.perform context) := by
  have kept := keeps context rfl
  rcases performed : computation.perform context with ⟨stop | answer, context'⟩ <;>
    rw [performed] at kept
  · refine ⟨?_, fun _ _ => kept, fun idle => absurd begins idle⟩
    obtain ⟨names, member, atop⟩ := kept
    cases names with
    | nil => exact absurd member proper
    | cons name names => simpa [Except.isOk, Except.toBool, begins] using atop.ne
  · exact ⟨iff_of_true kept (.inl rfl), nofun, fun idle => absurd begins idle⟩

theorem leavesOpen_of_refused {computation : Run Tracker α} {lists : List (List String)}
    {context : Context Tracker} (stop : Stop) {began : Prop} (idle : ¬ began)
    (refused : computation.perform context = (.error stop, context)) :
    LeavesOpen began lists context.sink (computation.perform context) := by
  rw [refused]
  exact ⟨iff_of_true rfl (.inr idle), fun begins => absurd begins idle, fun _ => rfl⟩

end Run

theorem TopologicalOrder.leavesOpen_compute {executor : Executor} (lawful : executor.Lawful)
    (g : Graph) (settings : SortSettings) (cancelAt : Option CancelPoint)
    (context : Context Tracker) :
    Run.LeavesOpen (settings.validate = .ok ())
      [["TopologicalSort"], ["Initialization", "TopologicalSort"], ["Traversal", "TopologicalSort"]]
      context.sink ((compute executor g settings cancelAt).perform context) := by
  cases valid : settings.validate with
  | error fault =>
      refine Run.leavesOpen_of_refused (.fault fault) (by simp) ?_
      unfold compute
      rw [valid]
      exact Run.perform_bind_of_error rfl _
  | ok done =>
      refine Run.Keeps.leavesOpen (by simp) ?_ rfl
      unfold compute
      rw [valid]
      have log (base : Tracker) (name : String) (names : List String) (amount : Nat)
          (tracker : Tracker) (atop : base.Atop (name :: names) tracker) :
          base.Atop (name :: names) (Sink.log amount tracker).1 := atop.log amount
      refine .bind (.pure ()) fun _ => .bind (.record _) fun _ => .bind (.enter _) fun _ =>
        .bind (.ofViolation _ fun _ atop => ⟨_, by simp, atop⟩) fun partitions =>
        .bind (.enterSized _ _) fun _ =>
        .bind (.phase lawful _ _ _ (log _ _ _) fun _ atop => ⟨_, by simp, atop⟩) fun counted =>
        .bind (.leave _) fun _ => .bind (.enterSized _ _) fun _ => ?_
      refine .bind (.phase lawful _ _ _ (log _ _ _) fun _ atop => ⟨_, by simp, atop⟩)
        fun gathered => ?_
      refine .bind (.forkJoin lawful _ _ _ (log _ _ _) fun _ atop => ⟨_, by simp, atop⟩)
        fun traversed => .bind (.leave _) fun _ => .bind (.leave _) fun _ =>
        .bind (.record _) fun _ => .pure _

theorem Components.leavesOpen_computeFrom {executor : Executor} (lawful : executor.Lawful)
    (g : Graph) (settings : Settings) (sets : DisjointSets) (cancelAt : Option CancelPoint)
    (context : Context Tracker) :
    Run.LeavesOpen (settings.validate = .ok () ∧ ∃ parts, settings.partitions g = .ok parts)
      [["Wcc"]] context.sink
      ((computeFrom executor g settings sets cancelAt).perform context) := by
  cases valid : settings.validate with
  | error fault =>
      refine Run.leavesOpen_of_refused (.fault fault) (by simp) ?_
      unfold computeFrom
      rw [valid]
      exact Run.perform_bind_of_error rfl _
  | ok done =>
      cases cut : settings.partitions g with
      | error violation =>
          refine Run.leavesOpen_of_refused (.violation violation) (by simp) ?_
          unfold computeFrom
          rw [valid, cut]
          rfl
      | ok parts =>
          refine Run.Keeps.leavesOpen (by simp) ?_ ⟨rfl, parts, rfl⟩
          unfold computeFrom
          rw [valid, cut]
          refine .bind (.pure ()) fun _ => .bind (.pure parts) fun _ => .bind (.record _) fun _ =>
            .bind (.enterSized _ _) fun _ => ?_
          refine .bind (.phase lawful _ _ _ (fun amount _ atop => atop.log amount)
            fun _ atop => ⟨_, by simp, atop⟩) fun merged =>
            .bind (.leave _) fun _ => .bind (.record _) fun _ => .pure _

/-- A sort or a search that answers, or whose settings are refused, gives a tracker back as it was.
Whenever a phase stops, be it that cancellation was requested or that there are too many partitions,
what was open then stays open. -/
theorem open_tasks_of_stop {executor : Executor} (lawful : executor.Lawful) (g : Graph)
    (cancelAt : Option CancelPoint) (context : Context Tracker) :
    (∀ settings : SortSettings, Run.LeavesOpen (settings.validate = .ok ())
      [["TopologicalSort"], ["Initialization", "TopologicalSort"], ["Traversal", "TopologicalSort"]]
      context.sink ((TopologicalOrder.compute executor g settings cancelAt).perform context)) ∧
    ∀ settings : Settings,
      Run.LeavesOpen (settings.validate = .ok () ∧ ∃ parts, settings.partitions g = .ok parts)
        [["Wcc"]] context.sink
        ((Components.compute executor g settings cancelAt).perform context) ∧
      ∀ labels : Labelling,
        Run.LeavesOpen (settings.validate = .ok () ∧ ∃ parts, settings.partitions g = .ok parts)
          [["Wcc"]] context.sink
          ((Components.computeSeeded executor g settings labels cancelAt).perform context) :=
  ⟨fun settings => TopologicalOrder.leavesOpen_compute lawful g settings cancelAt context,
    fun settings =>
      ⟨Components.leavesOpen_computeFrom lawful g settings _ cancelAt context,
        fun _ => Components.leavesOpen_computeFrom lawful g settings _ cancelAt context⟩⟩

def TopologicalOrder.sortSample (cancelAt : Option CancelPoint) (context : Context Tracker) :
    Except Stop TopologicalOrder × Context Tracker :=
  (compute (.singleWorker 400) Graph.sample { concurrency := 2, minBatch := 2 } cancelAt).perform
    context

/-- A tracker on which an outer task is open comes back as it was from a sort of the sample that is
left alone, and with more tasks open from one that was cancelled beforehand. -/
theorem open_tasks_of_stop_sample :
    (Executor.singleWorker 400).Lawful ∧
    (TopologicalOrder.sortSample none { sink := .named "job" }).2.sink = .named "job" ∧
    (TopologicalOrder.sortSample none { raised := true, sink := .named "job" }).2.sink ≠
      .named "job" := by
  have worker := Executor.singleWorker_lawful 400
  have leaves (context : Context Tracker) := (open_tasks_of_stop worker Graph.sample none context).1
    { concurrency := 2, minBatch := 2 }
  have answers : (TopologicalOrder.sortSample none { sink := .named "job" }).1.isOk = true := by
    decide +kernel
  have stops : (TopologicalOrder.sortSample none { raised := true, sink := .named "job" }).1.isOk =
      false := by decide +kernel
  refine ⟨worker, (leaves _).restored_iff.mpr (.inl answers), fun same => ?_⟩
  obtain answered | refused := (leaves _).restored_iff.mp same
  · exact absurd answered (ne_true_of_eq_false stops)
  · exact refused rfl

/-- A sort that was cancelled beforehand, or is cancelled when it reads the first node for the
second time, leaves the phase open that it had come to, and the next sort reports beneath it. A
cancelled search leaves its only task open. -/
theorem cancelled_tasks_open :
    ((TopologicalOrder.sortSample none { raised := true, sink := .named "job" }).1.map
        TopologicalOrder.nodes = .error (.fault .terminated) ∧
      (TopologicalOrder.sortSample none
        { raised := true, sink := .named "job" }).2.sink.tasks.map OpenTask.name =
          ["Initialization", "TopologicalSort"]) ∧
    ((TopologicalOrder.sortSample (some ⟨0, 2⟩) { sink := .named "job" }).1.map
        TopologicalOrder.nodes = .error (.fault .terminated) ∧
      (TopologicalOrder.sortSample (some ⟨0, 2⟩)
        { sink := .named "job" }).2.sink.tasks.map OpenTask.name =
          ["Traversal", "TopologicalSort"]) ∧
    .taskStarted "job :: TopologicalSort :: Initialization :: TopologicalSort" 0 ∈
      (TopologicalOrder.sortSample none { sink := (TopologicalOrder.sortSample none
        { raised := true, sink := .named "job" }).2.sink }).2.events ∧
    ((Components.compute (.singleWorker 400) Graph.sample { concurrency := 2, minBatch := 2 }
        none).perform { raised := true, sink := Tracker.named "job" }).2.sink.tasks.map
          OpenTask.name = ["Wcc"] := by
  decide +kernel

end GraphAnalytics
