/-
# What a fork/join phase answers

What the caller of a fork/join phase is given is compared with what has happened in the phase
(`Verdict`). A body runs at most once for every queued item. If the phase succeeds, then nothing has
failed, nobody has requested cancellation before the caller's last look at the flag, no fork was
refused, every body has run, and the counts are those of the bodies and forks that there were. If it
fails, then a body has returned the failure, or cancellation was requested.

The invariant that carries this (`Recounted`) says for every task how far what has happened to it
agrees with its stage (`Stage.Told`), and that whatever is dropped is dropped only after a failure
or a request for cancellation, neither of which is forgotten until the caller has looked.
-/

import GraphAnalytics.Proofs.Schedule.Latches
import GraphAnalytics.Proofs.Schedule.Record

namespace GraphAnalytics.ForkJoin

open Progress

variable {σ ι β π : Type}

/-- Cancellation was requested or something has failed, so that tasks are dropped and forks refused.
-/
def Hub.Disturbed (hub : Hub σ π) : Prop := hub.context.raised = true ∨ hub.aborted = true

/-- The body of a task has returned the failure, or the task was dropped because of cancellation. -/
def FailedWith (hub : Hub σ π) (item : ι) (fault : Fault) (began : List ι)
    (ended : List (Except Fault Nat)) : Prop :=
  began = [item] ∧ ended = [.error fault] ∨
    began = [] ∧ ended = [] ∧ fault = .terminated ∧ hub.context.raised = true

/-- What has happened to a task on an item agrees with how far the task has come: its body began on
`began` and returned `ended`. -/
def Stage.Told (hub : Hub σ π) (item : ι) (began : List ι) (ended : List (Except Fault Nat)) :
    Stage ι β → Prop
  | .queued own | .unaborted own | .admitted own => own = item ∧ began = [] ∧ ended = []
  | .refused => began = [] ∧ ended = [] ∧ hub.Disturbed
  | .active _ | .forking .. | .unabortedFork .. | .latching .. | .queueing .. =>
      began = [item] ∧ ended = []
  | .reporting processed => began = [item] ∧ ended = [.ok processed]
  | .aborting fault => FailedWith hub item fault began ended
  | .recording fault => hub.aborted = true ∧ FailedWith hub item fault began ended
  | .completing | .draining | .finished =>
      (∃ processed, began = [item] ∧ ended = [.ok processed]) ∨
        hub.Disturbed ∧ (began = [] ∨ began = [item])

/-- One for a task whose body has not begun and may yet begin. -/
def Stage.waits : Stage ι β → Nat
  | .queued _ | .unaborted _ | .admitted _ => 1
  | _ => 0

/-- The count that a body has returned and its task has not yet reported. -/
def Stage.unreported : Stage ι β → Multiset Nat
  | .reporting processed => {processed}
  | _ => 0

/-- What the sink is after it was told amounts, one after the other. -/
def received [Sink π] (sink : π) (told : List Nat) : π :=
  told.foldl (fun sink amount => (Sink.log amount sink).1) sink

/-- Neither a request for cancellation nor the abort flag is taken back. -/
structure Hub.Grows (before after : Hub σ π) : Prop where
  raised : before.context.raised = true → after.context.raised = true
  aborted : before.aborted = true → after.aborted = true

/-- What has happened so far agrees with the hub and the tasks. -/
structure Recounted [Sink π] (seeds : List ι) (context : Context π) (past : List (Happening ι))
    (hub : Hub σ π) (tasks : Array (Task ι β)) : Prop where
  size_eq : tasks.size = (queue seeds past).length
  told : ∀ number item (task : Task ι β), (queue seeds past)[number]? = some item →
    tasks[number]? = some task →
      task.stage.Told hub item (beginnings number past) (endings number past)
  beyond : ∀ number, tasks.size ≤ number → beginnings number past = [] ∧ endings number past = []
  raised_iff : hub.context.raised = true ↔ context.raised = true ∨ .requested ∈ past
  refused : ∀ number child, .forked number child false ∈ past → hub.Disturbed
  fault : ∀ fault, hub.firstFault = some fault →
    (∃ number, .returned number (.error fault) ∈ past) ∨
      fault = .terminated ∧ hub.context.raised = true
  accounted : Accounted hub (total Stage.records tasks)
  ran : hub.ran + total Stage.waits tasks = tasks.size ∨ hub.Disturbed
  sink_eq : hub.context.sink = received context.sink (amounts past)
  reported : (amounts past : Multiset Nat) + total Stage.unreported tasks = counts past
  latched : Latched seeds.length hub tasks

/-- All that was queued was done, and all of it was counted. -/
structure Complete [Sink π] (seeds : List ι) (context : Context π) (past : List (Happening ι))
    (sink : π) (stats : Stats) : Prop where
  calm : context.raised = false ∧ .requested ∉ past
  sound : ∀ number fault, .returned number (.error fault) ∉ past
  accepted : ∀ number child, .forked number child false ∉ past
  began : ∀ number, beginnings number past = (queue seeds past)[number]?.toList
  ended : ∀ number, (endings number past).length = (beginnings number past).length
  stats_eq : stats = ⟨seeds.length, seeds.length + forks past, seeds.length⟩
  reported : (amounts past).Perm (counts past)
  sink_eq : sink = received context.sink (amounts past)

/-- What an answer to the caller says about what has happened. -/
def Verdict [Sink π] (seeds : List ι) (context : Context π) (past : List (Happening ι)) (sink : π)
    (outcome : Except Fault Stats) : Prop :=
  (∀ number, (beginnings number past).Sublist (queue seeds past)[number]?.toList) ∧
    match outcome with
    | .ok stats => Complete seeds context past sink stats
    | .error fault => (∃ number, .returned number (.error fault) ∈ past) ∨
        fault = .terminated ∧ (context.raised = true ∨ .requested ∈ past)

/-! ### Happenings in a row -/

section

variable (past more : List (Happening ι))

theorem queue_append (seeds : List ι) :
    queue seeds (past ++ more) = queue seeds past ++ more.filterMap Happening.child? := by
  rw [queue, queue, List.filterMap_append, List.append_assoc]

theorem beginnings_append (number : Nat) :
    beginnings number (past ++ more) = beginnings number past ++ beginnings number more :=
  List.filterMap_append

theorem endings_append (number : Nat) :
    endings number (past ++ more) = endings number past ++ endings number more :=
  List.filterMap_append

theorem counts_append : counts (past ++ more) = counts past ++ counts more := List.filterMap_append

theorem amounts_append : amounts (past ++ more) = amounts past ++ amounts more :=
  List.filterMap_append

end

theorem filterMap_requested {α : Type} {f : Happening ι → Option α} (none : f .requested = none)
    (past : List (Happening ι)) :
    (past ++ [Happening.requested]).filterMap f = past.filterMap f := by
  rw [List.filterMap_append, List.filterMap_cons_none none]
  exact List.append_nil _

theorem mem_endings {number : Nat} {past : List (Happening ι)} {outcome : Except Fault Nat} :
    outcome ∈ endings number past ↔ .returned number outcome ∈ past := by
  rw [endings, List.mem_filterMap]
  constructor
  · rintro ⟨happening, member, ending⟩
    cases happening with
    | returned task result =>
        obtain ⟨rfl, rfl⟩ : task = number ∧ result = outcome := by
          simpa [Happening.endOf?] using ending
        exact member
    | _ => cases ending
  · exact fun member => ⟨_, member, if_pos rfl⟩

theorem Stage.Told.began {hub : Hub σ π} {item : ι} {began : List ι}
    {ended : List (Except Fault Nat)} {stage : Stage ι β} (told : stage.Told hub item began ended) :
    began = [] ∨ began = [item] := by
  cases stage with
  | queued | unaborted | admitted => exact .inl told.2.1
  | refused => exact .inl told.1
  | active | forking | unabortedFork | latching | queueing | reporting => exact .inr told.1
  | aborting fault => exact (told.imp And.left And.left).symm
  | recording fault => exact (told.2.imp And.left And.left).symm
  | completing | draining | finished =>
      rcases told with ⟨processed, own, -⟩ | ⟨-, idle⟩
      · exact .inr own
      · exact idle

theorem forks_eq {past : List (Happening ι)}
    (accepted : ∀ number child, .forked number child false ∉ past) :
    forks past = (past.filterMap Happening.child?).length := by
  rw [forks, List.length_filterMap_eq_countP]
  refine List.countP_congr fun happening member => ?_
  cases happening with
  | forked number child scheduled =>
      cases scheduled with
      | false => exact absurd member (accepted number child)
      | true => exact Iff.rfl
  | _ => exact Iff.rfl

/-! ### Steps of a task -/

namespace Hub.Grows

variable {before after : Hub σ π}

theorem disturbed (grows : before.Grows after) : before.Disturbed → after.Disturbed :=
  Or.imp grows.raised grows.aborted

/-- What is told of a task stays true when others change the hub. -/
theorem told (grows : before.Grows after) {item : ι} {began : List ι}
    {ended : List (Except Fault Nat)} {stage : Stage ι β}
    (told : stage.Told before item began ended) : stage.Told after item began ended := by
  have failed {fault : Fault} (failed : FailedWith before item fault began ended) :
      FailedWith after item fault began ended :=
    failed.imp_right fun ⟨idle, nothing, same, raised⟩ => ⟨idle, nothing, same, grows.raised raised⟩
  cases stage with
  | refused => exact ⟨told.1, told.2.1, grows.disturbed told.2.2⟩
  | aborting fault => exact failed told
  | recording fault => exact ⟨grows.aborted told.1, failed told.2⟩
  | completing | draining | finished => exact told.imp_right (And.imp_left grows.disturbed)
  | _ => exact told

end Hub.Grows

namespace Stage

variable (work : Work σ ι β) (stage : Stage ι β) (number root : Nat) (hub : Hub σ π)

theorem happenings_of_ne {other : Nat} (different : number ≠ other) :
    beginnings other (stage.happenings work number hub) = [] ∧
      endings other (stage.happenings work number hub) = [] := by
  cases stage with
  | admitted item => exact ⟨List.filterMap_cons_none (if_neg different), rfl⟩
  | active body =>
      simp only [happenings]
      split
      · exact ⟨rfl, rfl⟩
      · exact ⟨rfl, List.filterMap_cons_none (if_neg different)⟩
      · exact ⟨rfl, rfl⟩
  | forking child next | unabortedFork child next =>
      simp only [happenings]
      split <;> exact ⟨rfl, rfl⟩
  | _ => exact ⟨rfl, rfl⟩

theorem disturbed_of_refused {task : Nat} {child : ι}
    (refused : .forked task child false ∈ stage.happenings work number hub) : hub.Disturbed := by
  cases stage with
  | forking own next =>
      simp only [happenings] at refused
      split at refused
      · next aborted => exact .inr aborted
      · cases refused
  | unabortedFork own next =>
      simp only [happenings] at refused
      split at refused
      · next raised => exact .inl raised
      · cases refused
  | active body =>
      simp only [happenings] at refused
      split at refused <;> simp at refused
  | _ => simp [happenings] at refused

variable [Sink π]

theorem grows_next : hub.Grows (stage.next work root hub).1 := by
  cases stage with
  | active body =>
      rcases taken : work.step hub.shared body with ⟨store, action⟩
      rw [next_active work root taken]
      refine ⟨fun raised => ?_, id⟩
      cases action with
      | terminate next => rfl
      | _ => exact raised
  | aborting fault => exact ⟨id, fun _ => rfl⟩
  | _ => exact ⟨id, id⟩

/-- A step of a task makes happen to it what its next stage tells. -/
theorem told_next {item : ι} {began : List ι} {ended : List (Except Fault Nat)}
    (told : stage.Told hub item began ended) :
    (stage.next work root hub).2.1.Told (stage.next work root hub).1 item
      (began ++ beginnings number (stage.happenings work number hub))
      (ended ++ endings number (stage.happenings work number hub)) := by
  cases stage with
  | queued own =>
      obtain ⟨rfl, rfl, rfl⟩ := told
      simp only [Stage.next, happenings]
      split
      · next aborted => exact ⟨rfl, rfl, .inr aborted⟩
      · exact ⟨rfl, rfl, rfl⟩
  | unaborted own =>
      obtain ⟨rfl, rfl, rfl⟩ := told
      simp only [Stage.next, happenings]
      split
      · next raised => exact ⟨rfl, rfl, .inl raised⟩
      · exact ⟨rfl, rfl, rfl⟩
  | admitted own =>
      obtain ⟨rfl, rfl, rfl⟩ := told
      exact ⟨by simp [happenings, beginnings, Happening.beginningOf?], rfl⟩
  | refused =>
      obtain ⟨rfl, rfl, disturbed⟩ := told
      simp only [next, happenings]
      split
      · next raised => exact .inr ⟨rfl, rfl, rfl, raised⟩
      · exact .inr ⟨disturbed, .inl rfl⟩
  | active body => 
      obtain ⟨rfl, rfl⟩ := told
      rcases taken : work.step hub.shared body with ⟨store, action⟩
      simp only [next_active work root taken, happenings, taken]
      rcases action with next | next | ⟨child, next⟩ | next | ⟨fault | processed⟩
      · exact ⟨rfl, rfl⟩
      · exact ⟨rfl, rfl⟩
      · exact ⟨rfl, rfl⟩
      · exact ⟨rfl, rfl⟩
      · exact .inl ⟨rfl, by simp [endings, Happening.endOf?]⟩
      · exact ⟨rfl, by simp [endings, Happening.endOf?]⟩
  | forking child next => 
      obtain ⟨rfl, rfl⟩ := told
      simp only [Stage.next, happenings]
      split <;> exact ⟨rfl, rfl⟩
  | unabortedFork child next =>
      obtain ⟨rfl, rfl⟩ := told
      simp only [Stage.next, happenings]
      split <;> exact ⟨rfl, rfl⟩
  | latching child next | queueing child next =>
      obtain ⟨rfl, rfl⟩ := told
      exact ⟨rfl, rfl⟩
  | reporting processed =>
      obtain ⟨rfl, rfl⟩ := told
      exact .inl ⟨processed, rfl, rfl⟩
  | aborting fault =>
      rcases told with ⟨rfl, rfl⟩ | ⟨rfl, rfl, rfl, raised⟩
      · exact ⟨rfl, .inl ⟨rfl, rfl⟩⟩
      · exact ⟨rfl, .inr ⟨rfl, rfl, rfl, raised⟩⟩
  | recording fault =>
      obtain ⟨aborted, ⟨rfl, rfl⟩ | ⟨rfl, rfl, -⟩⟩ := told
      · exact .inr ⟨.inr aborted, .inr rfl⟩
      · exact .inr ⟨.inr aborted, .inl rfl⟩
  | completing =>
      simp only [Stage.next]
      rcases told with ⟨processed, rfl, rfl⟩ | ⟨disturbed, rfl | rfl⟩
      · split <;> exact .inl ⟨processed, rfl, rfl⟩
      · split <;> exact .inr ⟨disturbed, .inl rfl⟩
      · split <;> exact .inr ⟨disturbed, .inr rfl⟩
  | draining | finished =>
      rcases told with ⟨processed, rfl, rfl⟩ | ⟨disturbed, rfl | rfl⟩
      · exact .inl ⟨processed, rfl, rfl⟩
      · exact .inr ⟨disturbed, .inl rfl⟩
      · exact .inr ⟨disturbed, .inr rfl⟩

/-- The flag is up after a step if it was up before or the body has requested cancellation. -/
theorem raised_next : (stage.next work root hub).1.context.raised = true ↔
    hub.context.raised = true ∨ .requested ∈ stage.happenings work number hub := by
  cases stage with
  | active body =>
      rcases taken : work.step hub.shared body with ⟨store, action⟩
      simp only [next_active work root taken, happenings, taken]
      rcases action with next | next | ⟨child, next⟩ | next | outcome <;>
        simp [Context.heed, Context.raise]
  | forking child next | unabortedFork child next =>
      simp only [Stage.next, happenings]
      split <;> simp
  | reporting processed => simp [Stage.next, happenings]
  | _ => simp [Stage.next, happenings]

/-- The child of an accepted fork is queued at the same moment. -/
theorem children_happenings :
    (stage.happenings work number hub).filterMap Happening.child? =
      (stage.next work root hub).2.2.toList := by
  cases stage with
  | active body =>
      rcases taken : work.step hub.shared body with ⟨store, action⟩
      simp only [next_active work root taken, happenings, taken]
      rcases action with next | next | ⟨child, next⟩ | next | outcome <;> rfl
  | forking child next | unabortedFork child next =>
      simp only [Stage.next, happenings]
      split <;> rfl
  | _ => rfl

theorem fault_next {fault : Fault}
    (recorded : (stage.next work root hub).1.firstFault = some fault) :
    hub.firstFault = some fault ∨ stage = .recording fault := by
  cases stage with
  | recording own =>
      have recorded : (hub.firstFault <|> some own) = some fault := recorded
      cases first : hub.firstFault with
      | none =>
          rw [first] at recorded
          exact .inr (congrArg _ (Option.some.inj recorded))
      | some earlier =>
          rw [first] at recorded
          exact .inl recorded
  | active body =>
      rcases taken : work.step hub.shared body with ⟨store, action⟩
      rw [next_active work root taken] at recorded
      exact .inl recorded
  | _ => exact .inl recorded

/-- A body begins and is counted, or it waits on, unless there is a disturbance. -/
theorem ran_next : (stage.next work root hub).1.ran + (stage.next work root hub).2.1.waits =
    hub.ran + stage.waits ∨ hub.Disturbed := by
  cases stage with
  | queued own =>
      simp only [Stage.next]
      split
      · next aborted => exact .inr (.inr aborted)
      · exact .inl rfl
  | unaborted own =>
      simp only [Stage.next]
      split
      · next raised => exact .inr (.inl raised)
      · exact .inl rfl
  | active body =>
      rcases taken : work.step hub.shared body with ⟨store, action⟩
      rw [next_active work root taken]
      rcases action with next | next | ⟨child, next⟩ | next | ⟨fault | processed⟩ <;> exact .inl rfl
  | refused | forking | unabortedFork | completing =>
      simp only [Stage.next]
      split <;> exact .inl rfl
  | _ => exact .inl rfl

theorem sink_next : (stage.next work root hub).1.context.sink =
    received hub.context.sink (amounts (stage.happenings work number hub)) := by
  cases stage with
  | active body =>
      rcases taken : work.step hub.shared body with ⟨store, action⟩
      simp only [next_active work root taken, happenings, taken]
      rcases action with next | next | ⟨child, next⟩ | next | outcome <;> rfl
  | forking child next | unabortedFork child next =>
      simp only [Stage.next, happenings]
      split <;> rfl
  | _ => rfl

theorem reported_next :
    (amounts (stage.happenings work number hub) : Multiset Nat) +
        (stage.next work root hub).2.1.unreported =
      counts (stage.happenings work number hub) + stage.unreported := by
  cases stage with
  | active body =>
      rcases taken : work.step hub.shared body with ⟨store, action⟩
      simp only [next_active work root taken, happenings, taken]
      rcases action with next | next | ⟨child, next⟩ | next | ⟨fault | processed⟩ <;> rfl
  | queued | unaborted | refused | forking | unabortedFork | completing =>
      simp only [Stage.next, happenings]
      split <;> rfl
  | _ => rfl

end Stage

/-! ### Runs of a phase -/

/-- The tasks after a step: the one that has made it, a child if there is one, and the others. -/
theorem getElem?_replaced {tasks : Array (Task ι β)} {number root index : Nat} {stage : Stage ι β}
    (here : tasks[number]? = some ⟨root, stage⟩) (next : Stage ι β) (child : Option ι) :
    (replaced tasks number root next child)[index]? =
      if index = number then some ⟨root, next⟩
      else if index = tasks.size then child.map fun item => ⟨root, .queued item⟩
      else tasks[index]? := by
  have inside : number < tasks.size := (Array.getElem?_eq_some_iff.mp here).1
  cases child with
  | none => grind [replaced]
  | some item => grind [replaced]

/-- A child adds nothing to a total in which queued tasks have no share. -/
theorem queued_elim {M : Type} [Zero M] {share : Stage ι β → M}
    (none : ∀ item, share (.queued item) = 0) (child : Option ι) :
    child.elim 0 (share ∘ .queued) = 0 := by
  cases child with
  | none => rfl
  | some item => exact none item

theorem size_replaced (tasks : Array (Task ι β)) (number root : Nat) (next : Stage ι β)
    (child : Option ι) :
    (replaced tasks number root next child).size = tasks.size + child.toList.length := by
  cases child <;> simp [replaced]

variable [Sink π]

theorem Task.stage_of_isFinished {task : Task ι β} (finished : task.isFinished = true) :
    task.stage = .finished := by
  obtain ⟨root, stage⟩ := task
  cases stage with
  | finished => rfl
  | _ => cases finished

namespace Recounted

variable {seeds : List ι} {context : Context π} {past : List (Happening ι)} {hub : Hub σ π}
  {tasks : Array (Task ι β)}

/-- A step of a task is told as it happens. -/
theorem advance (recounted : Recounted seeds context past hub tasks) (work : Work σ ι β)
    {number root : Nat} {stage : Stage ι β} (here : tasks[number]? = some ⟨root, stage⟩) :
    Recounted seeds context (past ++ stage.happenings work number hub)
      (stage.next work root hub).1
      (replaced tasks number root (stage.next work root hub).2.1
        (stage.next work root hub).2.2) := by
  have inside : number < tasks.size := (Array.getElem?_eq_some_iff.mp here).1
  have grows := stage.grows_next work root hub
  have children := stage.children_happenings work number root hub
  -- Earlier tasks keep their items, and what has happened to the others.
  have item_eq {index : Nat} (less : index < tasks.size) :
      (queue seeds (past ++ stage.happenings work number hub))[index]? =
        (queue seeds past)[index]? := by
    rw [queue_append, List.getElem?_append_left (recounted.size_eq ▸ less)]
  have others {index : Nat} (different : number ≠ index) :
      beginnings index (past ++ stage.happenings work number hub) = beginnings index past ∧
        endings index (past ++ stage.happenings work number hub) = endings index past := by
    obtain ⟨began, ended⟩ := stage.happenings_of_ne work number hub different
    rw [beginnings_append, endings_append, began, ended, List.append_nil, List.append_nil]
    exact ⟨rfl, rfl⟩
  constructor
  case size_eq =>
    rw [size_replaced, queue_append, List.length_append, children, recounted.size_eq]
  case told =>
    intro index item task queued found
    rw [getElem?_replaced here] at found
    split at found
    · next same =>
        subst same
        obtain rfl := Option.some.inj found
        rw [item_eq inside] at queued
        rw [beginnings_append, endings_append]
        exact stage.told_next work index root hub (recounted.told index item _ queued here)
    · next different =>
        obtain ⟨began, ended⟩ := others (Ne.symm different)
        rw [began, ended]
        split at found
        · next last =>
            obtain ⟨child, known, rfl⟩ := Option.map_eq_some_iff.mp found
            obtain ⟨idle, nothing⟩ := recounted.beyond index last.ge
            refine ⟨?_, idle, nothing⟩
            rw [queue_append, children, known, last, recounted.size_eq] at queued
            simpa using queued
        · have less : index < tasks.size := (Array.getElem?_eq_some_iff.mp found).1
          rw [item_eq less] at queued
          exact grows.told (recounted.told index item task queued found)
  case beyond =>
    intro index outside
    rw [size_replaced] at outside
    have different : number ≠ index := by omega
    rw [(others different).1, (others different).2]
    exact recounted.beyond index (by omega)
  case raised_iff =>
    rw [stage.raised_next work number root hub, recounted.raised_iff, List.mem_append, or_assoc]
  case refused =>
    intro task child member
    rcases List.mem_append.mp member with old | new
    · exact grows.disturbed (recounted.refused task child old)
    · exact grows.disturbed (stage.disturbed_of_refused work number hub new)
  case fault =>
    intro fault recorded
    rcases stage.fault_next work root hub recorded with earlier | rfl
    · rcases recounted.fault fault earlier with ⟨task, member⟩ | ⟨rfl, raised⟩
      · exact .inl ⟨task, List.mem_append_left _ member⟩
      · exact .inr ⟨rfl, grows.raised raised⟩
    · have queued := List.getElem?_eq_getElem (recounted.size_eq ▸ inside)
      obtain ⟨-, ⟨-, ended⟩ | ⟨-, -, rfl, raised⟩⟩ := recounted.told number _ _ queued here
      · have member : .error fault ∈ endings number past := ended ▸ List.mem_singleton_self _
        exact .inl ⟨number, List.mem_append_left _ (mem_endings.mp member)⟩
      · exact .inr ⟨rfl, grows.raised raised⟩
  case accounted =>
    obtain ⟨recording, before, after⟩ := total_replaced Stage.records here
    rw [after, queued_elim fun _ => rfl, add_zero]
    exact stage.accounted_next work root hub recording (before ▸ recounted.accounted)
  case ran =>
    obtain ⟨waiting, before, after⟩ := total_replaced Stage.waits here
    have child : (stage.next work root hub).2.2.elim 0 (Stage.waits ∘ (Stage.queued (β := β))) =
        (stage.next work root hub).2.2.toList.length := by
      cases (stage.next work root hub).2.2 <;> rfl
    rcases recounted.ran with ran | disturbed
    · rcases stage.ran_next work root hub with same | disturbed
      · rw [size_replaced, after, child]
        exact .inl (by omega)
      · exact .inr (grows.disturbed disturbed)
    · exact .inr (grows.disturbed disturbed)
  case sink_eq =>
    rw [stage.sink_next work number root hub, recounted.sink_eq, amounts_append]
    exact List.foldl_append.symm
  case reported =>
    obtain ⟨rest, before, after⟩ := total_replaced Stage.unreported here
    rw [after, queued_elim fun _ => rfl, add_zero, amounts_append, counts_append,
      ← Multiset.coe_add, ← Multiset.coe_add, ← recounted.reported, before, add_assoc,
      ← add_assoc (amounts (stage.happenings work number hub) : Multiset Nat),
      stage.reported_next work number root hub]
    ac_rfl
  case latched => exact recounted.latched.advance work here

theorem cancel (recounted : Recounted seeds context past hub tasks) :
    Recounted seeds context (past ++ [.requested])
      { hub with context := hub.context.raise } tasks := by
  have grows : hub.Grows { hub with context := hub.context.raise } := ⟨fun _ => rfl, id⟩
  constructor
  case size_eq => rw [queue, filterMap_requested rfl, recounted.size_eq, queue]
  case told =>
    intro index item task queued found
    rw [queue, filterMap_requested rfl] at queued
    rw [beginnings, endings, filterMap_requested rfl, filterMap_requested rfl]
    exact grows.told (recounted.told index item task queued found)
  case beyond =>
    intro index outside
    rw [beginnings, endings, filterMap_requested rfl, filterMap_requested rfl]
    exact recounted.beyond index outside
  case raised_iff => simp
  case refused => exact fun _ _ _ => .inl rfl
  case fault =>
    intro fault recorded
    rcases recounted.fault fault recorded with ⟨task, member⟩ | ⟨rfl, -⟩
    · exact .inl ⟨task, List.mem_append_left _ member⟩
    · exact .inr ⟨rfl, rfl⟩
  case accounted => exact recounted.accounted
  case ran => exact .inr (.inl rfl)
  case sink_eq =>
    rw [amounts, filterMap_requested rfl]
    exact recounted.sink_eq
  case reported =>
    rw [amounts, counts, filterMap_requested rfl, filterMap_requested rfl]
    exact recounted.reported
  case latched =>
    exact ⟨recounted.latched.size_eq, recounted.latched.root_lt, recounted.latched.latch_eq,
      recounted.latched.drained_eq⟩

theorem note (recounted : Recounted seeds context past hub tasks) (event : Event) :
    Recounted seeds context past { hub with context := hub.context.record event } tasks := by
  have grows : hub.Grows { hub with context := hub.context.record event } := ⟨id, id⟩
  exact {
    size_eq := recounted.size_eq
    told := fun index item task queued found =>
      grows.told (recounted.told index item task queued found)
    beyond := recounted.beyond
    raised_iff := recounted.raised_iff
    refused := recounted.refused
    fault := recounted.fault
    accounted := recounted.accounted
    ran := recounted.ran
    sink_eq := recounted.sink_eq
    reported := recounted.reported
    latched := ⟨recounted.latched.size_eq, recounted.latched.root_lt, recounted.latched.latch_eq,
      recounted.latched.drained_eq⟩ }

theorem once (recounted : Recounted seeds context past hub tasks) (number : Nat) :
    (beginnings number past).Sublist (queue seeds past)[number]?.toList := by
  cases queued : (queue seeds past)[number]? with
  | none =>
      have outside : tasks.size ≤ number := recounted.size_eq ▸ List.getElem?_eq_none_iff.mp queued
      rw [(recounted.beyond number outside).1]
      exact List.nil_sublist _
  | some item =>
      have inside : number < tasks.size :=
        recounted.size_eq ▸ (List.getElem?_eq_some_iff.mp queued).1
      have told := recounted.told number item _ queued (Array.getElem?_eq_getElem inside)
      rcases told.began with idle | own
      · rw [idle]
        exact List.nil_sublist _
      · rw [own]
        exact List.Sublist.refl _

/-- When all tasks are over and there was no disturbance, all is complete. -/
theorem complete (recounted : Recounted seeds context past hub tasks)
    (through : tasks.all Task.isFinished = true) (noFault : hub.firstFault = none)
    (calm : hub.context.raised = false) :
    Complete seeds context past hub.context.sink ⟨hub.latches.size, hub.ran, hub.drained⟩ := by
  have accounted := recounted.accounted
  rw [total_of_finished rfl through] at accounted
  have notAborted := accounted.not_aborted noFault
  have undisturbed : ¬ hub.Disturbed := by
    rintro (raised | aborted)
    · cases calm.symm.trans raised
    · cases notAborted.symm.trans aborted
  -- Every queued item has a task that is over, so its body has run and has not failed.
  have served {number : Nat} {item : ι} (queued : (queue seeds past)[number]? = some item) :
      ∃ processed, beginnings number past = [item] ∧ endings number past = [.ok processed] := by
    have inside : number < tasks.size :=
      recounted.size_eq ▸ (List.getElem?_eq_some_iff.mp queued).1
    have told := recounted.told number item _ queued (Array.getElem?_eq_getElem inside)
    rw [Task.stage_of_isFinished (Array.all_eq_true.mp through number inside)] at told
    exact told.resolve_right fun disturbed => undisturbed disturbed.1
  have idle {number : Nat} (none : (queue seeds past)[number]? = none) :
      beginnings number past = [] ∧ endings number past = [] :=
    recounted.beyond number (recounted.size_eq ▸ List.getElem?_eq_none_iff.mp none)
  have accepted : ∀ number child, .forked number child false ∉ past :=
    fun number child refused => undisturbed (recounted.refused number child refused)
  constructor
  case calm =>
    have never := mt recounted.raised_iff.mpr (Bool.eq_false_iff.mp calm)
    exact ⟨Bool.eq_false_iff.mpr fun raised => never (.inl raised),
      fun member => never (.inr member)⟩
  case sound =>
    intro number fault returned
    have ending := mem_endings.mpr returned
    cases queued : (queue seeds past)[number]? with
    | none =>
        rw [(idle queued).2] at ending
        cases ending
    | some item =>
        obtain ⟨processed, -, ended⟩ := served queued
        rw [ended] at ending
        cases List.mem_singleton.mp ending
  case accepted => exact accepted
  case began =>
    intro number
    cases queued : (queue seeds past)[number]? with
    | none => exact (idle queued).1
    | some item =>
        obtain ⟨processed, began, -⟩ := served queued
        exact began
  case ended =>
    intro number
    cases queued : (queue seeds past)[number]? with
    | none => rw [(idle queued).1, (idle queued).2]; rfl
    | some item =>
        obtain ⟨processed, began, ended⟩ := served queued
        rw [began, ended]
        rfl
  case stats_eq =>
    have ran := recounted.ran.resolve_right undisturbed
    rw [total_of_finished rfl through, recounted.size_eq, queue, List.length_append,
      ← forks_eq accepted, Nat.add_zero] at ran
    rw [recounted.latched.size_eq, ran, recounted.latched.drained_of_finished through]
  case reported =>
    have reported := recounted.reported
    rw [total_of_finished rfl through, add_zero] at reported
    exact Multiset.coe_eq_coe.mp reported
  case sink_eq => exact recounted.sink_eq

/-- When all tasks are over, the answer is right about what has happened. -/
theorem close (recounted : Recounted seeds context past hub tasks)
    (through : tasks.all Task.isFinished = true) :
    Verdict seeds context past hub.context.sink hub.outcome := by
  refine ⟨recounted.once, ?_⟩
  cases decided : hub.outcome with
  | error fault =>
      rcases Hub.fault_of_outcome decided with recorded | ⟨rfl, raised⟩
      · exact (recounted.fault fault recorded).imp_right (And.imp_right recounted.raised_iff.mp)
      · exact .inr ⟨rfl, recounted.raised_iff.mp raised⟩
  | ok stats =>
      obtain ⟨noFault, calm⟩ := Hub.quiet_of_outcome decided
      rw [← Hub.stats_of_outcome decided]
      exact recounted.complete through noFault calm

end Recounted

theorem recounted_opening (seeds : List ι) (shared : σ) (context : Context π) :
    Recounted seeds context [] (opening seeds shared context : ForkJoin σ ι β π).hub
      (opening seeds shared context : ForkJoin σ ι β π).tasks := by
  have queued {number : Nat} {task : Task ι β}
      (found : (opening seeds shared context : ForkJoin σ ι β π).tasks[number]? = some task) :
      ∃ seed, seeds[number]? = some seed ∧ task.stage = .queued seed := by
    simp only [opening, List.getElem?_toArray, List.getElem?_map, List.getElem?_zipIdx,
      Option.map_map] at found
    obtain ⟨seed, known, rfl⟩ := Option.map_eq_some_iff.mp found
    exact ⟨seed, known, rfl⟩
  exact {
    size_eq := by simp [opening, queue]
    told := fun index item task here found => by
      obtain ⟨seed, known, begun⟩ := queued found
      rw [queue, List.filterMap_nil, List.append_nil] at here
      rw [begun]
      exact ⟨Option.some.inj (known.symm.trans here), rfl, rfl⟩
    beyond := fun _ _ => ⟨rfl, rfl⟩
    raised_iff := by simp [opening]
    refused := fun _ _ member => absurd member List.not_mem_nil
    fault := fun _ recorded => by cases recorded
    accounted := fun aborted => by cases aborted
    ran := by
      rw [total_seeds]
      simp [opening, Stage.waits]
    sink_eq := rfl
    reported := by
      rw [total_seeds]
      simp [amounts, counts, Stage.unreported]
    latched := latched_opening seeds shared context }

theorem obligations (work : Work σ ι β) (seeds : List ι) (context : Context π) :
    Obligations work (Recounted seeds context) (Verdict seeds context) where
  advance recounted here := recounted.advance work here
  cancel recounted := recounted.cancel
  note event recounted := recounted.note event
  refuse recounted raised :=
    ⟨recounted.once, .inr ⟨rfl, recounted.raised_iff.mp raised⟩⟩
  close recounted through := recounted.close through

/-- However the tasks of a fork/join phase interleave, and whenever cancellation is requested, what
the caller is given is right about what has happened. -/
theorem verdict_of_replay (work : Work σ ι β) (seeds : List ι) (shared : σ) (context : Context π)
    (moves : List Move) {outcome : Except Fault Stats}
    (closed : ((opening seeds shared context).replay work moves).caller = .closed outcome) :
    Verdict seeds context ((opening seeds shared context).record work moves)
      ((opening seeds shared context).replay work moves).hub.context.sink outcome :=
  (obligations work seeds context).verdict (recounted_opening seeds shared context) closed

/-- A task on a positive number forks a task on the number below, and every task counts one. -/
def countdown : Work Unit Nat (Option Nat) where
  start := some
  step
    | (), some (number + 1) => ((), .fork number fun _ => none)
    | (), _ => ((), .finish (.ok 1))

/-- One way in which the tasks of a countdown from one can interleave: the forked task begins before
the one that has forked it is over. -/
def countdownMoves : List Move :=
  .begin :: List.replicate 8 (.advance 0) ++ List.replicate 4 (.advance 1) ++
    [.advance 0, .advance 1, .advance 0, .advance 1, .advance 0, .advance 0, .close]

/-- The countdown succeeds with two bodies for one seed, and all that was queued was done. -/
theorem verdict_of_replay_countdown :
    (replay countdown (opening [1] () { sink := Silent.silent }) countdownMoves).caller =
        .closed (.ok ⟨1, 2, 1⟩) ∧
      Complete [1] { sink := Silent.silent }
        (record countdown (opening [1] () { sink := Silent.silent }) countdownMoves) .silent
        ⟨1, 2, 1⟩ := by
  have closed :
      (replay countdown (opening [1] () { sink := Silent.silent }) countdownMoves).caller =
        .closed (.ok ⟨1, 2, 1⟩) :=
    Caller.outcome_eq_ok.mp (by decide +kernel)
  exact ⟨closed, (verdict_of_replay countdown [1] () _ countdownMoves closed).2⟩

end GraphAnalytics.ForkJoin
