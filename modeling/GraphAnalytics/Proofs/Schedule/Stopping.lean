/-
# Phases that stop

A computation stops early because it was told to, or because its phases cannot be handed over. Tasks
that are `Work.Obedient` fail only if they are told that cancellation was requested, so a phase of
such tasks that fails was cancelled (`Phase.stop_of_run`, `ForkJoin.stop_of_run`), and the flag,
which is never taken back, is still up when it returns. A diligent executor has no further reason:
it does not stop in the middle of work that descends.
-/

import GraphAnalytics.Proofs.Schedule.Computation
import GraphAnalytics.Proofs.Schedule.Drained
import GraphAnalytics.Proofs.Schedule.Ending

namespace GraphAnalytics

open Progress

variable {σ ι β π ρ : Type}

/-- The action does not let a task fail or come to where it gives up, unless the task is told that
cancellation was requested. -/
def Action.Persists (GivesUp : β → Prop) : Action ι β → Prop
  | .proceed next | .terminate next => ¬ GivesUp next
  | .poll next => ¬ GivesUp (next true)
  | .fork _ next => ∀ accepted, ¬ GivesUp (next accepted)
  | .finish outcome => ∃ processed, outcome = .ok processed

/-- Tasks come to where they give up only when they are told that cancellation was requested, and
fail only there, saying so. -/
structure Work.Obedient (work : Work σ ι β) (GivesUp : β → Prop) : Prop where
  begins : ∀ item, ¬ GivesUp (work.start item)
  persists : ∀ store body, ¬ GivesUp body → (work.step store body).2.Persists GivesUp
  fails : ∀ store body, GivesUp body → (work.step store body).2 = .finish (.error .terminated)

/-- Why a computation may stop: it was cancelled, or it was cut into more partitions than a phase
accepts. -/
inductive Stop.Justified (parts : List Partition) (raised : Bool) : Stop → Prop
  | terminated : raised = true → Justified parts raised (.fault .terminated)
  | tooMany : maxNodeCount < parts.length →
      Justified parts raised (.fault (.tooManyPartitions parts.length maxNodeCount))

theorem Caller.stop_of_closed {α : Type} {caller : Caller α} {outcome : Except Fault α}
    {stop : Stop} (closed : caller = .closed outcome) (stopped : caller.outcome = .error stop) :
    ∃ fault, stop = .fault fault ∧ caller = .closed (.error fault) := by
  subst closed
  cases outcome with
  | error fault => exact ⟨fault, (Except.error.inj stopped).symm, rfl⟩
  | ok answer => cases stopped

/-! ### Flat phases -/

namespace Phase

variable {work : Work σ ι β} {GivesUp : β → Prop}

/-- Whoever fails or gives up was told that cancellation was requested. -/
structure Excused (GivesUp : β → Prop) (phase : Phase σ ι β π) : Prop where
  bodies : ∀ body, .active body ∈ phase.stages → GivesUp body → phase.context.raised = true
  failures : ∀ fault ∈ phase.failures, fault = .terminated ∧ phase.context.raised = true
  closed : ∀ fault, phase.caller = .closed (.error fault) →
    fault = .terminated ∧ phase.context.raised = true

namespace Excused

variable {phase : Phase σ ι β π}

theorem begin (excused : phase.Excused GivesUp) : phase.begin.Excused GivesUp := by
  obtain ⟨shared, context, stages, failures, caller⟩ := phase
  cases caller with
  | waiting | closed => exact excused
  | opening =>
      simp only [Phase.begin]
      split
      · next raised =>
          refine ⟨excused.bodies, excused.failures, fun fault closed => ?_⟩
          exact ⟨(Except.error.inj (Caller.closed.inj closed)).symm, raised⟩
      · exact ⟨excused.bodies, excused.failures, by simp⟩

theorem skip (excused : phase.Excused GivesUp) (task : Nat) :
    (phase.skip task).Excused GivesUp := by
  obtain ⟨shared, context, stages, failures, caller⟩ := phase
  cases failures with
  | nil => exact excused
  | cons failure failures =>
      cases caller with
      | opening | closed => exact excused
      | waiting =>
          simp only [Phase.skip]
          split
          · refine ⟨fun body member gives => ?_, excused.failures, by simp⟩
            rcases Array.mem_or_eq_of_mem_setIfInBounds member with old | same
            · exact excused.bodies body old gives
            · cases same
          · exact excused

theorem close (excused : phase.Excused GivesUp) (failure : Nat) :
    (phase.close failure).Excused GivesUp := by
  obtain ⟨shared, context, stages, failures, caller⟩ := phase
  cases caller with
  | opening | closed => exact excused
  | waiting =>
      simp only [Phase.close]
      split
      · next outcome decided =>
          split
          · refine ⟨excused.bodies, excused.failures, fun fault closed => ?_⟩
            obtain rfl : outcome = .error fault := Caller.closed.inj closed
            cases failures with
            | nil =>
                cases raised : context.raised with
                | false => simp [outcome?, raised] at decided
                | true =>
                    rw [outcome?, raised] at decided
                    exact ⟨(Except.error.inj (Option.some.inj decided)).symm, raised⟩
            | cons first others =>
                obtain ⟨given, found, same⟩ := Option.map_eq_some_iff.mp decided
                obtain rfl := Except.error.inj same
                exact excused.failures given (List.mem_of_getElem? found)
          · exact excused
      · exact excused

theorem cancel (excused : phase.Excused GivesUp) :
    Phase.Excused GivesUp { phase with context := phase.context.raise } where
  bodies _ _ _ := rfl
  failures fault member := ⟨(excused.failures fault member).1, rfl⟩
  closed fault closed := ⟨(excused.closed fault closed).1, rfl⟩

end Excused

variable [Sink π]

/-- A step of a task does not lower the flag, and if the task fails or comes to where it gives up
the flag is up. -/
theorem Stage.excused_next (obedient : work.Obedient GivesUp) (stage : Stage ι β) (shared : σ)
    (context : Context π) (failures : List Fault)
    (told : ∀ body, stage = .active body → GivesUp body → context.raised = true) :
    (context.raised = true → (stage.next work shared context failures).2.1.raised = true) ∧
      (∀ fault ∈ (stage.next work shared context failures).2.2.1, fault ∈ failures ∨
        fault = .terminated ∧ (stage.next work shared context failures).2.1.raised = true) ∧
      ∀ body, (stage.next work shared context failures).2.2.2 = .active body → GivesUp body →
        (stage.next work shared context failures).2.1.raised = true := by
  cases stage with
  | queued item =>
      simp only [Stage.next]
      split
      · next raised =>
          refine ⟨id, fun fault member => ?_, by simp⟩
          exact (List.mem_append.mp member).imp_right fun new => ⟨List.mem_singleton.mp new, raised⟩
      · refine ⟨id, fun _ => .inl, fun body active gives => ?_⟩
        obtain rfl := Stage.active.inj active
        exact absurd gives (obedient.begins item)
  | active body =>
      simp only [Stage.next]
      rcases taken : work.step shared body with ⟨store, action⟩
      by_cases gives : GivesUp body
      · have raised := told body rfl gives
        have fails := obedient.fails shared body gives
        rw [taken] at fails
        obtain rfl : action = _ := fails
        refine ⟨id, fun fault member => ?_, by simp⟩
        exact (List.mem_append.mp member).imp_right fun new => ⟨List.mem_singleton.mp new, raised⟩
      · have persists := obedient.persists shared body gives
        rw [taken] at persists
        have goesOn {point next : β} (same : (.active point : Stage ι β) = .active next)
            (further : ¬ GivesUp point) (gives : GivesUp next) : False := by
          obtain rfl := Stage.active.inj same
          exact further gives
        rcases action with next | next | ⟨child, next⟩ | next | outcome
        · exact ⟨id, fun _ => .inl, fun _ same gives => (goesOn same persists gives).elim⟩
        · refine ⟨id, fun _ => .inl, fun body same gives => ?_⟩
          cases raised : context.raised with
          | true => rfl
          | false =>
              rw [raised] at same
              exact (goesOn same persists gives).elim
        · exact ⟨id, fun _ => .inl, fun _ same gives => (goesOn same (persists false) gives).elim⟩
        · exact ⟨fun _ => rfl, fun _ => .inl, fun _ _ _ => rfl⟩
        · obtain ⟨processed, rfl⟩ := persists
          exact ⟨id, fun _ => .inl, by simp⟩
  | reporting | finished => exact ⟨id, fun _ => .inl, by simp [Stage.next]⟩

theorem Excused.advance {phase : Phase σ ι β π} (obedient : work.Obedient GivesUp)
    (excused : phase.Excused GivesUp) (task : Nat) : (phase.advance work task).Excused GivesUp := by
  obtain ⟨shared, context, stages, failures, caller⟩ := phase
  cases caller with
  | opening | closed => exact excused
  | waiting =>
      simp only [Phase.advance]
      split
      · next stage here =>
          obtain ⟨grows, failed, gave⟩ := stage.excused_next obedient shared context failures
            fun body same gives => excused.bodies body (same ▸ Array.mem_of_getElem? here) gives
          refine ⟨fun body member gives => ?_, fun fault member => ?_, by simp⟩
          · rcases Array.mem_or_eq_of_mem_setIfInBounds member with old | same
            · exact grows (excused.bodies body old gives)
            · exact gave body same.symm gives
          · rcases failed fault member with old | new
            · exact (excused.failures fault old).imp_right grows
            · exact new
      · exact excused

theorem Excused.replay {phase : Phase σ ι β π} (obedient : work.Obedient GivesUp)
    (excused : phase.Excused GivesUp) (moves : List Move) :
    (phase.replay work moves).Excused GivesUp := by
  induction moves generalizing phase with
  | nil => exact excused
  | cons move moves ih =>
      refine ih ?_
      cases move with
      | begin => exact excused.begin
      | advance task => exact excused.advance obedient task
      | skip task => exact excused.skip task
      | close failure => exact excused.close failure
      | cancel => exact excused.cancel

/-- A flat phase stops a computation before it has begun, or with what its caller is given. -/
theorem outcome_of_run {executor : Executor} {work : Work σ Partition β}
    {partitions : List Partition} {shared : σ} {stop : Stop} {context context' : Context π}
    (stopped : (Phase.run executor work partitions shared).perform context =
      (.error stop, context')) :
    (maxNodeCount < partitions.length ∧
      stop = .fault (.tooManyPartitions partitions.length maxNodeCount)) ∨
    (executor.phase work (opening partitions shared context)).caller.outcome = .error stop ∧
      (executor.phase work (opening partitions shared context)).context = context' := by
  simp only [Run.perform, Phase.run, Phase.perform, ExceptT.run, StateT.run] at stopped
  split at stopped
  · cases stopped
  · next reason _ _ performed =>
      obtain ⟨rfl, rfl⟩ : reason = stop ∧ _ := by simpa using stopped
      split at performed
      · next many => exact .inl ⟨many, by simpa using (congrArg (·.1.1) performed).symm⟩
      · exact .inr ⟨congrArg (·.1.1) performed, congrArg (·.2) performed⟩

theorem run_of_many (executor : Executor) (work : Work σ Partition β) {partitions : List Partition}
    (many : maxNodeCount < partitions.length) (shared : σ) (context : Context π) :
    (Phase.run executor work partitions shared).perform context =
      (.error (.fault (.tooManyPartitions partitions.length maxNodeCount)), context) := by
  simp only [Run.perform, Phase.run, Phase.perform, ExceptT.run, StateT.run, if_pos many]

/-- A flat phase of obedient tasks that descend stops a computation only with a reason. -/
theorem stop_of_run [PartialOrder ρ] [WellFoundedLT ρ] {executor : Executor}
    (lawful : executor.Lawful) (diligent : executor.Diligent) {work : Work σ Partition β}
    {GivesUp : β → Prop} (obedient : work.Obedient GivesUp) {Inv : σ → Multiset β → Prop}
    {rank : σ → Multiset β → ρ} (descends : work.Descends false Inv rank)
    {partitions : List Partition} {shared : σ} (inv : Inv shared (work.beginnings partitions))
    {stop : Stop} {context context' : Context π}
    (stopped : (Phase.run executor work partitions shared).perform context =
      (.error stop, context')) :
    stop.Justified partitions context'.raised := by
  obtain ⟨many, rfl⟩ | ⟨ended, rfl⟩ := outcome_of_run stopped
  · exact .tooMany many
  · obtain ⟨outcome, closed⟩ := closed_of_descends lawful diligent descends inv context
    obtain ⟨moves, replayed⟩ := lawful.phase_moves work (opening partitions shared context)
    rw [replayed] at ended closed ⊢
    have initially : (opening partitions shared context).Excused GivesUp := by
      refine ⟨fun body member => ?_, by simp [opening], by simp [opening]⟩
      obtain ⟨item, -, queued⟩ := List.mem_map.mp (List.mem_toArray.mp member)
      cases queued
    obtain ⟨fault, rfl, closed⟩ := Caller.stop_of_closed closed ended
    obtain ⟨rfl, raised⟩ := (initially.replay obedient moves).closed fault closed
    exact .terminated raised

end Phase

/-! ### Fork/join phases -/

namespace ForkJoin

variable [Sink π] {work : Work σ ι β}

/-- A move does not lower the flag, and a request for cancellation raises it. -/
theorem raised_apply (phase : ForkJoin σ ι β π) (move : Move)
    (raised : phase.hub.context.raised = true ∨ .requested ∈ phase.happenings work move) :
    (phase.apply work move).hub.context.raised = true := by
  obtain ⟨hub, tasks, caller⟩ := phase
  cases caller with
  | closed outcome =>
      have before := raised.resolve_right List.not_mem_nil
      cases move with
      | cancel => rfl
      | begin | advance | close => exact before
  | opening =>
      cases move with
      | cancel => rfl
      | begin =>
          have before := raised.resolve_right List.not_mem_nil
          simp only [apply, begin]
          split <;> exact before
      | advance | close => exact raised.resolve_right List.not_mem_nil
  | waiting =>
      cases move with
      | cancel => rfl
      | begin => exact raised.resolve_right List.not_mem_nil
      | close =>
          have before := raised.resolve_right List.not_mem_nil
          simp only [apply, close]
          split <;> exact before
      | advance number =>
          simp only [happenings] at raised
          simp only [apply]
          cases here : tasks[number]? with
          | none =>
              rw [here] at raised
              simp only [advance, here]
              exact raised.resolve_right List.not_mem_nil
          | some task =>
              obtain ⟨root, stage⟩ := task
              rw [here] at raised
              rw [advance_of_getElem? work here]
              exact (stage.raised_next work number root hub).mpr raised

theorem raised_replay (phase : ForkJoin σ ι β π) (moves : List Move)
    (raised : phase.hub.context.raised = true ∨ .requested ∈ phase.record work moves) :
    (phase.replay work moves).hub.context.raised = true := by
  induction moves generalizing phase with
  | nil => exact raised.resolve_right List.not_mem_nil
  | cons move moves ih =>
      refine ih (phase.apply work move) ?_
      rcases raised with raised | requested
      · exact .inl (raised_apply phase move (.inl raised))
      · exact (List.mem_append.mp requested).imp_left fun now => raised_apply phase move (.inr now)

omit [Sink π] in
/-- What happens at a move is a request for cancellation, or it happens when a task makes a step. -/
theorem mem_happenings {phase : ForkJoin σ ι β π} {move : Move} {happening : Happening ι}
    (member : happening ∈ phase.happenings work move) : happening = .requested ∨
      ∃ (number : Nat) (stage : Stage ι β), happening ∈ stage.happenings work number phase.hub := by
  obtain ⟨hub, tasks, caller⟩ := phase
  cases caller with
  | closed => cases member
  | opening =>
      cases move with
      | cancel => exact .inl (List.mem_singleton.mp member)
      | begin | advance | close => cases member
  | waiting =>
      cases move with
      | cancel => exact .inl (List.mem_singleton.mp member)
      | begin | close => cases member
      | advance number =>
          simp only [happenings] at member
          split at member
          · exact .inr ⟨number, _, member⟩
          · cases member

omit [Sink π] in
theorem Stage.finish_of_returned {stage : Stage ι β} {number task : Nat} {hub : Hub σ π}
    {outcome : Except Fault Nat}
    (returned : .returned task outcome ∈ stage.happenings work number hub) :
    ∃ body, (work.step hub.shared body).2 = .finish outcome := by
  cases stage with
  | active body =>
      refine ⟨body, ?_⟩
      rcases taken : (work.step hub.shared body).2 with next | next | ⟨child, next⟩ | next | given <;>
        simp_all [happenings]
  | forking | unabortedFork =>
      simp only [happenings] at returned
      split at returned <;> simp at returned
  | _ => simp [happenings] at returned

theorem finish_of_returned {phase : ForkJoin σ ι β π} {moves : List Move} {task : Nat}
    {outcome : Except Fault Nat} (returned : .returned task outcome ∈ phase.record work moves) :
    ∃ store body, (work.step store body).2 = .finish outcome := by
  induction moves generalizing phase with
  | nil => cases returned
  | cons move moves ih =>
      rcases List.mem_append.mp returned with now | later
      · obtain same | ⟨number, stage, now⟩ := mem_happenings now
        · cases same
        · exact ⟨_, stage.finish_of_returned now⟩
      · exact ih later

/-- A fork/join phase stops a computation with what its caller is given. -/
theorem outcome_of_run {executor : Executor} {seeds : List ι} {shared : σ} {stop : Stop}
    {context context' : Context π}
    (stopped : (ForkJoin.run executor work seeds shared).perform context =
      (.error stop, context')) :
    (executor.forkJoin work (opening seeds shared context)).caller.outcome = .error stop ∧
      (executor.forkJoin work (opening seeds shared context)).hub.context = context' := by
  simp only [Run.perform, ForkJoin.run, ForkJoin.perform, ExceptT.run, StateT.run] at stopped
  split at stopped
  · cases stopped
  · next reason _ _ performed =>
      obtain ⟨rfl, rfl⟩ : reason = stop ∧ _ := by simpa using stopped
      exact ⟨congrArg (·.1.1) performed, congrArg (·.2) performed⟩

/-- A fork/join phase of bodies that cannot fail and descend stops a computation only if it was
cancelled. -/
theorem stop_of_run [PartialOrder ρ] [WellFoundedLT ρ] {executor : Executor}
    (lawful : executor.Lawful) (diligent : executor.Diligent)
    (sound : ∀ store body fault, (work.step store body).2 ≠ .finish (.error fault))
    (heeds : work.Heedless) {Inv : σ → Multiset β → Prop} {rank : σ → Multiset β → ρ}
    (descends : work.Descends true Inv rank) {seeds : List ι} {shared : σ}
    (inv : Inv shared (work.beginnings seeds)) {stop : Stop} {context context' : Context π}
    (stopped : (ForkJoin.run executor work seeds shared).perform context =
      (.error stop, context')) :
    stop = .fault .terminated ∧ context'.raised = true := by
  obtain ⟨ended, rfl⟩ := outcome_of_run stopped
  obtain ⟨outcome, closed⟩ := closed_of_descends lawful diligent heeds descends inv context
  obtain ⟨moves, replayed⟩ := lawful.forkJoin_moves work (opening seeds shared context)
  rw [replayed] at ended closed ⊢
  obtain ⟨fault, rfl, closed⟩ := Caller.stop_of_closed closed ended
  obtain ⟨-, ⟨number, returned⟩ | ⟨rfl, raised⟩⟩ :=
    (obligations work seeds context).verdict (recounted_opening seeds shared context) closed
  · obtain ⟨store, body, fails⟩ := finish_of_returned returned
    exact absurd fails (sound store body fault)
  · exact ⟨rfl, raised_replay _ moves raised⟩

end ForkJoin

end GraphAnalytics
