/-
# What a flat phase answers

What the caller of a flat phase is given is compared with what has happened in the phase. At any
moment every body has begun at most once, and only what a body has counted is told (`Honest`). If
the phase succeeds, then nobody has requested cancellation before the caller's last look at the
flag, and every body has run, has succeeded and was told of once (`Complete`). If it fails, then a
body has returned the failure, or cancellation was requested. A phase that was cancelled beforehand
begins no body.

The invariant that carries this (`Recounted`) says for every task how far what has happened to it
agrees with its stage, and of every failure where it comes from.
-/

import GraphAnalytics.Proofs.Schedule.Computation
import GraphAnalytics.Proofs.Schedule.FlatRecord

namespace GraphAnalytics.Phase

open Progress
open ForkJoin (received)

variable {σ ι β π : Type}

variable [Sink π]

/-- What is true at any moment: a body begins at most once, and on its own item; the sink is told
only what a body has counted that has run and succeeded, once at most, and nothing else. A phase
that was cancelled beforehand begins no body and tells nothing. -/
structure Honest (items : List ι) (context : Context π) (past : List (Happening ι))
    (sink : π) : Prop where
  began : ∀ task, (beginnings task past).Sublist items[task]?.toList
  told : ∀ task, reports task past = [] ∨ ∃ item count,
    items[task]? = some item ∧ trace task past = .served item count
  sink_eq : sink = received context.sink (amounts past)
  cancelled : context.raised = true → ∀ happening ∈ past, happening = .requested

/-- Nobody has requested cancellation. Every body has run once and has succeeded, and the sink was
told of each once: of so many elements in all as the bodies have counted. -/
structure Complete (items : List ι) (context : Context π) (past : List (Happening ι)) : Prop where
  calm : context.raised = false ∧ .requested ∉ past
  served : ∃ counts : List Nat, counts.length = items.length ∧
    (∀ task item count, items[task]? = some item → counts[task]? = some count →
      trace task past = .served item count) ∧
    (amounts past).Perm counts ∧ (amounts past).sum = counts.sum

def Verdict (items : List ι) (context : Context π) (past : List (Happening ι)) :
    Except Fault Unit → Prop
  | .ok () => Complete items context past
  | .error fault => (∃ task, .returned task (.error fault) ∈ past) ∨
      fault = .terminated ∧ (context.raised = true ∨ .requested ∈ past)

/-! ### Runs of a phase -/

/-- What has happened so far agrees with the context, the tasks and the failures. -/
structure Recounted (items : List ι) (before : Context π) (past : List (Happening ι))
    (context : Context π) (stages : Array (Stage ι β)) (failures : List Fault) : Prop where
  size_eq : stages.size = items.length
  told : ∀ task item (stage : Stage ι β), items[task]? = some item → stages[task]? = some stage →
    stage.Told (failures ≠ []) item (trace task past)
  beyond : ∀ task, items.length ≤ task → trace task past = .blank
  raised_iff : context.raised = true ↔ before.raised = true ∨ .requested ∈ past
  failed : ∀ fault ∈ failures, (∃ task, .returned task (.error fault) ∈ past) ∨
    fault = .terminated ∧ context.raised = true
  reported : ∀ task amount, .reported task amount ∈ past → task < items.length
  sink_eq : context.sink = received before.sink (amounts past)

namespace Recounted

variable {items : List ι} {before context : Context π} {past : List (Happening ι)}
  {stages : Array (Stage ι β)} {failures : List Fault}

theorem advance (recounted : Recounted items before past context stages failures)
    (work : Work σ ι β) (shared : σ) {task : Nat} {stage : Stage ι β}
    (here : stages[task]? = some stage) :
    Recounted items before (past ++ stage.happenings work task shared context)
      (stage.next work shared context failures).2.1
      (stages.setIfInBounds task (stage.next work shared context failures).2.2.2)
      (stage.next work shared context failures).2.2.1 := by
  have inside : task < stages.size := (Array.getElem?_eq_some_iff.mp here).1
  obtain ⟨more, grown, new⟩ := @Stage.failures_next _ _ _ _ work stage task shared context failures _
  have grows : failures ≠ [] → (stage.next work shared context failures).2.2.1 ≠ [] := by
    rw [grown]
    exact fun some => List.append_ne_nil_of_left_ne_nil some more
  constructor
  case size_eq => rw [Array.size_setIfInBounds, recounted.size_eq]
  case told =>
    intro index item other known found
    rw [trace_append]
    by_cases same : task = index
    · subst same
      rw [Array.getElem?_setIfInBounds_self_of_lt inside, Option.some.injEq] at found
      rw [← found]
      exact Stage.told_next (recounted.told task item stage known here)
    · rw [Array.getElem?_setIfInBounds_ne same] at found
      rw [Stage.trace_happenings_of_ne same, Trace.append_blank]
      exact (recounted.told index item other known found).mono grows
  case beyond =>
    intro index outside
    have different : task ≠ index := by
      have := recounted.size_eq
      omega
    rw [trace_append, Stage.trace_happenings_of_ne different, Trace.append_blank]
    exact recounted.beyond index outside
  case raised_iff =>
    rw [Stage.raised_next, recounted.raised_iff, List.mem_append, or_assoc]
  case failed =>
    intro fault member
    rw [grown] at member
    have raises : (stage.next work shared context failures).2.1.raised = true ↔
        context.raised = true ∨ .requested ∈ stage.happenings work task shared context :=
      Stage.raised_next
    have stays (raised : context.raised = true) :
        (stage.next work shared context failures).2.1.raised = true := raises.mpr (.inl raised)
    rcases List.mem_append.mp member with old | now
    · rcases recounted.failed fault old with ⟨number, returned⟩ | ⟨same, raised⟩
      · exact .inl ⟨number, List.mem_append_left _ returned⟩
      · exact .inr ⟨same, stays raised⟩
    · rcases new fault now with returned | ⟨same, raised⟩
      · exact .inl ⟨task, List.mem_append_right _ returned⟩
      · exact .inr ⟨same, stays raised⟩
  case reported =>
    intro number amount member
    rcases List.mem_append.mp member with old | now
    · exact recounted.reported number amount old
    · rw [Stage.eq_of_reported now, ← recounted.size_eq]
      exact inside
  case sink_eq =>
    rw [Stage.sink_next, recounted.sink_eq, amounts_append]
    exact List.foldl_append.symm

theorem cancel (recounted : Recounted items before past context stages failures) :
    Recounted items before (past ++ [.requested]) context.raise stages failures where
  size_eq := recounted.size_eq
  told index item stage known found := by
    rw [trace_append, trace_requested, Trace.append_blank]
    exact recounted.told index item stage known found
  beyond index outside := by
    rw [trace_append, trace_requested, Trace.append_blank]
    exact recounted.beyond index outside
  raised_iff := by simp
  failed fault member := by
    rcases recounted.failed fault member with ⟨number, returned⟩ | ⟨same, -⟩
    · exact .inl ⟨number, List.mem_append_left _ returned⟩
    · exact .inr ⟨same, rfl⟩
  reported number amount member := by
    rcases List.mem_append.mp member with old | now
    · exact recounted.reported number amount old
    · cases List.mem_singleton.mp now
  sink_eq := by
    rw [amounts_append]
    exact recounted.sink_eq.trans (congrArg (received before.sink) (List.append_nil _).symm)

/-- A task that has not begun may be dropped once something has failed. -/
theorem drop (recounted : Recounted items before past context stages failures)
    (failed : failures ≠ []) {task : Nat} {own : ι} (here : stages[task]? = some (.queued own)) :
    Recounted items before past context (stages.setIfInBounds task .finished) failures where
  size_eq := by rw [Array.size_setIfInBounds, recounted.size_eq]
  told index item other known found := by
    by_cases same : task = index
    · subst same
      have inside : task < stages.size := (Array.getElem?_eq_some_iff.mp here).1
      rw [Array.getElem?_setIfInBounds_self_of_lt inside, Option.some.injEq] at found
      rw [← found]
      exact .inr ⟨failed, .inl (recounted.told task item _ known here).2⟩
    · rw [Array.getElem?_setIfInBounds_ne same] at found
      exact recounted.told index item other known found
  beyond := recounted.beyond
  raised_iff := recounted.raised_iff
  failed := recounted.failed
  reported := recounted.reported
  sink_eq := recounted.sink_eq

theorem honest (recounted : Recounted items before past context stages failures)
    (cancelled : before.raised = true → ∀ happening ∈ past, happening = .requested) :
    Honest items before past context.sink := by
  have told (task : Nat) : (beginnings task past).Sublist items[task]?.toList ∧
      (reports task past = [] ∨ ∃ item count, items[task]? = some item ∧
        trace task past = .served item count) := by
    cases known : items[task]? with
    | none =>
        have blank := recounted.beyond task (List.getElem?_eq_none_iff.mp known)
        have began : beginnings task past = [] := congrArg Trace.began blank
        have none : reports task past = [] := congrArg Trace.told blank
        rw [began]
        exact ⟨List.nil_sublist _, .inl none⟩
    | some item =>
        have inside : task < stages.size :=
          recounted.size_eq ▸ (List.getElem?_eq_some_iff.mp known).1
        have told := recounted.told task item _ known (Array.getElem?_eq_getElem inside)
        obtain ⟨began, reported⟩ := told.honest
        refine ⟨?_, reported.imp_right fun ⟨count, served⟩ => ⟨item, count, rfl, served⟩⟩
        have began : beginnings task past = [] ∨ beginnings task past = [item] := began
        rcases began with none | own
        · rw [none]
          exact List.nil_sublist _
        · rw [own]
          exact List.Sublist.refl _
  exact ⟨fun task => (told task).1, fun task => (told task).2, recounted.sink_eq, cancelled⟩

/-- When all tasks are over and nothing has failed, all is complete. -/
theorem complete (recounted : Recounted items before past context stages [])
    (through : stages.all Stage.isFinished = true) (calm : context.raised = false) :
    Complete items before past := by
  have served (task : Nat) (item : ι) (known : items[task]? = some item) :
      ∃ count, trace task past = .served item count := by
    have inside : task < stages.size :=
      recounted.size_eq ▸ (List.getElem?_eq_some_iff.mp known).1
    have here := Array.getElem?_eq_getElem inside
    have told := recounted.told task item _ known here
    have finished := Array.all_eq_true.mp through task inside
    cases stage : stages[task] with
    | finished =>
        rw [stage] at told
        exact told.resolve_right fun dropped => dropped.1 rfl
    | queued | active | reporting => rw [stage] at finished; cases finished
  constructor
  case calm =>
    have never := mt recounted.raised_iff.mpr (Bool.eq_false_iff.mp calm)
    exact ⟨Bool.eq_false_iff.mpr fun raised => never (.inl raised),
      fun member => never (.inr member)⟩
  case served =>
    have one (task : Nat) (member : task ∈ List.range items.length) :
        reports task past = [(reports task past).headD 0] := by
      have known := List.getElem?_eq_getElem (List.mem_range.mp member)
      obtain ⟨count, served⟩ := served task _ known
      have told : reports task past = [count] := congrArg Trace.told served
      rw [told]
      rfl
    have all : (amounts past).Perm
        ((List.range items.length).map fun task => (reports task past).headD 0) := by
      rw [List.map_eq_flatMap, ← List.flatMap_congr one]
      exact amounts_perm recounted.reported
    refine ⟨_, by rw [List.length_map, List.length_range], ?_, all, all.sum_eq⟩
    intro task item count known counted
    obtain ⟨own, served⟩ := served task item known
    have told : reports task past = [own] := congrArg Trace.told served
    have inside : task < items.length := (List.getElem?_eq_some_iff.mp known).1
    rw [List.getElem?_map, List.getElem?_range inside, Option.map_some, told,
      Option.some.injEq] at counted
    rw [served, ← counted]
    rfl

/-- When all tasks are over, the answer is right about what has happened. -/
theorem close (recounted : Recounted items before past context stages failures)
    (through : stages.all Stage.isFinished = true) {failure : Nat} {outcome : Except Fault Unit}
    (decided : outcome? context.raised failures failure = some outcome) :
    Verdict items before past outcome := by
  cases failures with
  | nil =>
      cases raised : context.raised with
      | true =>
          rw [raised] at decided
          obtain rfl := Option.some.inj decided
          exact .inr ⟨rfl, recounted.raised_iff.mp raised⟩
      | false =>
          rw [raised] at decided
          obtain rfl := Option.some.inj decided
          exact recounted.complete through raised
  | cons first failures =>
      obtain ⟨fault, chosen, rfl⟩ := Option.map_eq_some_iff.mp decided
      exact (recounted.failed fault (List.mem_of_getElem? chosen)).imp_right
        (And.imp_right recounted.raised_iff.mp)

end Recounted

theorem recounted_opening (items : List ι) (context : Context π) :
    Recounted (β := β) items context [] context (items.map Stage.queued).toArray [] where
  size_eq := by rw [List.size_toArray, List.length_map]
  told task item stage known found := by
    rw [List.getElem?_toArray, List.getElem?_map, known, Option.map_some,
      Option.some.injEq] at found
    rw [← found]
    exact ⟨rfl, rfl⟩
  beyond _ _ := rfl
  raised_iff := by simp
  failed _ member := absurd member List.not_mem_nil
  reported _ _ member := absurd member List.not_mem_nil
  sink_eq := rfl

/-- A phase as far as its caller can tell: before it has begun, nothing but requests for
cancellation has happened; while the caller waits, what has happened agrees with the tasks; and once
it has returned, what it was given is right. -/
def Holds (items : List ι) (before : Context π) (past : List (Happening ι)) :
    Phase σ ι β π → Prop
  | ⟨_, context, stages, failures, .opening⟩ =>
      Recounted items before past context stages failures ∧
        ∀ happening ∈ past, happening = .requested
  | ⟨_, context, stages, failures, .waiting⟩ =>
      Recounted items before past context stages failures ∧ before.raised = false
  | ⟨_, context, _, _, .closed outcome⟩ =>
      Honest items before past context.sink ∧ Verdict items before past outcome

namespace Holds

variable {items : List ι} {before : Context π} {past : List (Happening ι)} {phase : Phase σ ι β π}

theorem honest (holds : phase.Holds items before past) :
    Honest items before past phase.context.sink := by
  obtain ⟨shared, context, stages, failures, caller⟩ := phase
  cases caller with
  | opening => exact holds.1.honest fun _ => holds.2
  | waiting => exact holds.1.honest fun raised => by cases holds.2.symm.trans raised
  | closed outcome => exact holds.1

theorem begin (holds : phase.Holds items before past) : phase.begin.Holds items before past := by
  obtain ⟨shared, context, stages, failures, caller⟩ := phase
  cases caller with
  | waiting | closed => exact holds
  | opening =>
      obtain ⟨recounted, idle⟩ := holds
      simp only [Phase.begin]
      split
      · next raised =>
          exact ⟨recounted.honest fun _ => idle, .inr ⟨rfl, recounted.raised_iff.mp raised⟩⟩
      · next calm =>
          have notBefore : before.raised = false := Bool.eq_false_iff.mpr fun raised =>
            calm (recounted.raised_iff.mpr (.inl raised))
          exact ⟨{ recounted with }, notBefore⟩

theorem skip (holds : phase.Holds items before past) (task : Nat) :
    (phase.skip task).Holds items before past := by
  obtain ⟨shared, context, stages, failures, caller⟩ := phase
  cases failures with
  | nil => exact holds
  | cons failure failures =>
      cases caller with
      | opening | closed => exact holds
      | waiting =>
          simp only [Phase.skip]
          split
          · next own here => exact ⟨holds.1.drop (List.cons_ne_nil _ _) here, holds.2⟩
          · exact holds

theorem close (holds : phase.Holds items before past) (failure : Nat) :
    (phase.close failure).Holds items before past := by
  obtain ⟨shared, context, stages, failures, caller⟩ := phase
  cases caller with
  | opening | closed => exact holds
  | waiting =>
      simp only [Phase.close]
      split
      · next outcome decided =>
          split
          · next through => exact ⟨holds.honest, holds.1.close through decided⟩
          · exact holds
      · exact holds

theorem apply (holds : phase.Holds items before past) (work : Work σ ι β) (move : Move) :
    (phase.apply work move).Holds items before (past ++ phase.happenings work move) := by
  cases move with
  | begin =>
      rw [happenings_begin, List.append_nil]
      exact holds.begin
  | skip task =>
      rw [happenings_skip, List.append_nil]
      exact holds.skip task
  | close failure =>
      rw [happenings_close, List.append_nil]
      exact holds.close failure
  | cancel =>
      obtain ⟨shared, context, stages, failures, caller⟩ := phase
      cases caller with
      | opening =>
          refine ⟨holds.1.cancel, fun happening member => ?_⟩
          rcases List.mem_append.mp member with old | now
          · exact holds.2 happening old
          · exact List.mem_singleton.mp now
      | waiting => exact ⟨holds.1.cancel, holds.2⟩
      | closed outcome =>
          rw [happenings, List.append_nil]
          exact holds
  | advance task =>
      obtain ⟨shared, context, stages, failures, caller⟩ := phase
      cases caller with
      | opening | closed =>
          exact (List.append_nil past).symm ▸ holds
      | waiting =>
          simp only [happenings, Phase.apply, Phase.advance]
          cases here : stages[task]? with
          | none =>
              rw [List.append_nil]
              exact holds
          | some stage => exact ⟨holds.1.advance work shared here, holds.2⟩

theorem replay (holds : phase.Holds items before past) (work : Work σ ι β) (moves : List Move) :
    (phase.replay work moves).Holds items before (past ++ phase.record work moves) := by
  induction moves generalizing past phase with
  | nil => rwa [record, List.append_nil]
  | cons move moves ih =>
      rw [record, ← List.append_assoc]
      exact ih (holds.apply work move)

end Holds

/-- However the tasks of a flat phase on partitions interleave, and whenever cancellation is
requested, what happens is honest at any moment, and what the caller is given is right about it. An
executor's answer for no more partitions than a phase accepts is that of some interleaving. -/
theorem flat_phase_answers (work : Work σ Partition β) (partitions : List Partition) (shared : σ)
    (context : Context π) :
    (∀ moves, Honest partitions context
        ((opening partitions shared context).record work moves)
        ((opening partitions shared context).replay work moves).context.sink ∧
      ∀ outcome, ((opening partitions shared context).replay work moves).caller = .closed outcome →
        Verdict partitions context ((opening partitions shared context).record work moves)
          outcome) ∧
    ∀ executor : Executor, executor.Lawful → partitions.length ≤ maxNodeCount →
      ∃ moves, perform executor work partitions shared context =
        ((((opening partitions shared context).replay work moves).caller.outcome,
          ((opening partitions shared context).replay work moves).shared),
          ((opening partitions shared context).replay work moves).context) := by
  refine ⟨fun moves => ?_, fun executor lawful few => ?_⟩
  · have first : (opening partitions shared context : Phase σ Partition β π).Holds partitions
        context [] :=
      ⟨recounted_opening partitions context, fun _ member => absurd member List.not_mem_nil⟩
    have lastly := first.replay work moves
    rw [List.nil_append] at lastly
    refine ⟨lastly.honest, fun outcome closed => ?_⟩
    generalize (opening partitions shared context).replay work moves = phase at lastly closed
    obtain ⟨_, _, _, _, caller⟩ := phase
    obtain rfl := closed
    exact lastly.2
  · obtain ⟨moves, replayed⟩ := lawful.phase_moves work (opening partitions shared context)
    refine ⟨moves, ?_⟩
    rw [perform, if_neg (Nat.not_lt.mpr few), replayed]

/-- A task counts the nodes of its partition. -/
def tally : Work Unit Partition Partition where
  start := id
  step
    | (), partition => ((), .finish (.ok partition.count))

/-- One way in which two tasks can interleave: the second begins first and reports last. -/
def tallyMoves : List Move :=
  [.begin, .advance 1, .advance 0, .advance 0, .advance 1, .advance 0, .advance 1, .close 0]

/-- The tally of two partitions succeeds, with one amount for each. Cancelled in the meantime it does
not, although both tasks do. -/
theorem flat_phase_answers_tally :
    (replay tally (opening [⟨0, 2⟩, ⟨2, 1⟩] () { sink := Silent.silent }) tallyMoves).caller =
        .closed (.ok ()) ∧
      Complete [⟨0, 2⟩, ⟨2, 1⟩] ({ sink := Silent.silent } : Context Silent)
        (record tally (opening [⟨0, 2⟩, ⟨2, 1⟩] () { sink := Silent.silent }) tallyMoves) ∧
      (∃ moves, perform (.singleWorker 9) tally [⟨0, 2⟩, ⟨2, 1⟩] () { sink := Silent.silent } =
        (((replay tally (opening [⟨0, 2⟩, ⟨2, 1⟩] () { sink := Silent.silent })
            moves).caller.outcome,
          (replay tally (opening [⟨0, 2⟩, ⟨2, 1⟩] () { sink := Silent.silent }) moves).shared),
          (replay tally (opening [⟨0, 2⟩, ⟨2, 1⟩] () { sink := Silent.silent }) moves).context)) ∧
      (replay tally (opening [⟨0, 2⟩, ⟨2, 1⟩] () { sink := Silent.silent })
        (tallyMoves.take 5 ++ .cancel :: tallyMoves.drop 5)).caller.outcome =
          .error (.fault .terminated) := by
  have closed :
      (replay tally (opening [⟨0, 2⟩, ⟨2, 1⟩] () { sink := Silent.silent }) tallyMoves).caller =
        .closed (.ok ()) :=
    Caller.outcome_eq_ok.mp (by decide +kernel)
  obtain ⟨runs, executors⟩ :=
    flat_phase_answers tally [⟨0, 2⟩, ⟨2, 1⟩] () { sink := Silent.silent }
  exact ⟨closed, (runs tallyMoves).2 _ closed,
    executors _ (Executor.singleWorker_lawful 9) (by decide), by decide +kernel⟩

end GraphAnalytics.Phase
